import Mathlib.Tactic.Ring
/-!
# The data of gdrdrv

`gdrdrv.h` and the structures of `gdrdrv.c`, with what the driver takes from
Linux (VMAs, the address space of an open file) and from the NVIDIA driver
(page tables). A pointer is a number; an `unsigned long`, `u64` or `size_t` is
a `Nat` that every operation keeps below `2 ^ 64`.
-/

namespace gdrdrv

/-! ## Constants -/

def EIO_ : Int := 5
def ENXIO_ : Int := 6
def EAGAIN : Int := 11
def ENOMEM : Int := 12
def EACCES : Int := 13
def EFAULT : Int := 14
def EBUSY : Int := 16
def EINVAL : Int := 22
def ENOTTY : Int := 25
def EOPNOTSUPP : Int := 95

/-- A 64-bit register. -/
def u64 (n : Nat) : Nat := n % 2 ^ 64

def u32 (n : Nat) : Nat := n % 2 ^ 32

def GPU_PAGE_SHIFT : Nat := 16
def GPU_PAGE_SIZE : Nat := 2 ^ GPU_PAGE_SHIFT
def GPU_PAGE_OFFSET : Nat := GPU_PAGE_SIZE - 1
/-- `~GPU_PAGE_OFFSET` on 64 bits. -/
def GPU_PAGE_MASK : Nat := 2 ^ 64 - 1 - GPU_PAGE_OFFSET

def GDRDRV_VERSION : Nat := 2 <<< 16 ||| 5
def MINIMUM_GDR_API_VERSION : Nat := 2 <<< 16 ||| 0

def GDRDRV_PIN_BUFFER_FLAG_DEFAULT : Nat := 0
def GDRDRV_PIN_BUFFER_FLAG_FORCE_PCIE : Nat := 1

def GDRDRV_ATTR_USE_PERSISTENT_MAPPING : Nat := 1
def GDRDRV_ATTR_SUPPORT_PIN_FLAG_FORCE_PCIE : Nat := 2

/-- `gdr_mr_type_t`. -/
inductive MrType where
  | NONE
  | WC
  | CACHING
  | DEVICE
  deriving DecidableEq, Repr

/-- The number of a mapping type in the ioctl interface. -/
def MrType.code : MrType → Nat
  | .NONE => 0
  | .WC => 1
  | .CACHING => 2
  | .DEVICE => 3

/-- The mapping type an ioctl names, if its number is between `GDR_MR_NONE` and `GDR_MR_DEVICE`. -/
def MrType.ofCode : Nat → Option MrType
  | 0 => some .NONE
  | 1 => some .WC
  | 2 => some .CACHING
  | 3 => some .DEVICE
  | _ => none

/-! ## The NVIDIA driver -/

/-- `enum nvidia_p2p_page_size_type`. -/
inductive P2pPageSize where
  | NVIDIA_P2P_PAGE_SIZE_4KB
  | NVIDIA_P2P_PAGE_SIZE_64KB
  | NVIDIA_P2P_PAGE_SIZE_128KB
  | unknown
  deriving DecidableEq, Repr

/-- `nvidia_p2p_page_table_t`. `pages` holds the `physical_address` of each entry. -/
structure PageTable where
  id : Nat
  version : Nat
  page_size : P2pPageSize
  pages : List Nat
  cpu_cacheable : Bool
  deriving DecidableEq, Repr

def PageTable.entries (pt : PageTable) : Nat := pt.pages.length

def NVIDIA_P2P_MAJOR_VERSION (v : Nat) : Nat := (v &&& 0xffff0000) >>> 16
def NVIDIA_P2P_MINOR_VERSION (v : Nat) : Nat := v &&& 0x0000ffff

/-- `GDRDRV_NVIDIA_P2P_PAGE_TABLE_VERSION_COMPATIBLE`. -/
def versionCompatible (cur_ver min_ver : Nat) : Bool :=
  NVIDIA_P2P_MAJOR_VERSION cur_ver == NVIDIA_P2P_MAJOR_VERSION min_ver &&
    NVIDIA_P2P_MINOR_VERSION min_ver ≤ NVIDIA_P2P_MINOR_VERSION cur_ver

/-! ## The platform -/

inductive Arch where
  | x86
  | ppc64
  | arm64
  deriving DecidableEq, Repr

/-- What is fixed once the module is built and `gdrdrv_init` has run. -/
structure Platform where
  arch : Arch
  /-- `GDRDRV_OPENSOURCE_NVIDIA`. -/
  opensource : Bool
  PAGE_SHIFT : Nat
  page_shift_le : PAGE_SHIFT ≤ GPU_PAGE_SHIFT
  gdrdrv_cpu_could_cache_gpu_mappings : Bool
  gdrdrv_cpu_must_use_device_mapping : Bool
  use_persistent_mapping : Bool
  gdr_support_persistent_mapping : Bool
  /-- `NVIDIA_P2P_FLAGS_FORCE_BAR1_MAPPING` is defined. -/
  force_bar1 : Bool
  NVIDIA_P2P_PAGE_TABLE_VERSION : Nat
  /-- `gdrdrv_pat_enabled()`; false where `GDRDRV_KERNEL_MAY_USE_PAT` is 0. -/
  gdrdrv_pat_enabled : Bool
  page_is_ram : Nat → Bool

namespace Platform
variable (P : Platform)

def PAGE_SIZE : Nat := 2 ^ P.PAGE_SHIFT

def gdr_use_persistent_mapping : Bool := P.use_persistent_mapping && P.gdr_support_persistent_mapping

def gdr_support_force_pcie : Bool := if P.force_bar1 then P.gdr_use_persistent_mapping else false

/-- The page table has a `flags` field. -/
def tableFlags : Bool :=
  versionCompatible P.NVIDIA_P2P_PAGE_TABLE_VERSION 0x00010003 ||
    versionCompatible P.NVIDIA_P2P_PAGE_TABLE_VERSION 0x00020000

def gdr_pfn_is_ram (pfn : Nat) : Bool :=
  match P.arch with
  | .x86 => false
  | .ppc64 =>
    if P.opensource then P.page_is_ram pfn
    else P.gdrdrv_cpu_could_cache_gpu_mappings && u64 (pfn <<< P.PAGE_SHIFT) >>> 47 == 0
  | .arm64 => if P.opensource then P.page_is_ram pfn else false

end Platform

/-! ## Memory regions and open files -/

/-- `struct gdr_mr`. `ptr` is its address, `vma` and `mapping` the addresses of
the VMA it is mapped through and of that file's address space. -/
structure Mr where
  ptr : Nat
  handle : Nat
  offset : Nat
  p2p_token : Nat
  va_space : Nat
  page_size : Nat
  va : Nat
  mapped_size : Nat
  cpu_mapping_type : MrType
  req_mapping_type : MrType
  page_table : Option PageTable
  cb_flag : Bool
  tm_cycles : Nat
  tsc_khz : Nat
  vma : Option Nat
  mapping : Option Nat
  force_pci : Bool
  deriving DecidableEq, Repr

/-- `struct gdr_info`, the private data of an open file. -/
structure Info where
  mr_list : List Mr
  tgid : Nat
  next_handle : Nat
  next_handle_overflow : Bool
  deriving DecidableEq, Repr

/-- A user translation of one host page. `table` is the page table whose
entry the frame was computed from. -/
structure Pte where
  vaddr : Nat
  pfn : Nat
  table : Nat
  deriving DecidableEq, Repr

/-- `struct vm_area_struct` with the translations installed in it. `prot` is
the caching attribute of `vm_page_prot`. -/
structure Vma where
  id : Nat
  vm_file : Nat
  vm_start : Nat
  vm_end : Nat
  vm_pgoff : Nat
  VM_DONTCOPY : Bool
  prot : MrType
  ptes : List Pte
  deriving DecidableEq, Repr

/-- The driver's state: the private data of each open file, the VMAs of these
files, `gdrdrv_nv_get_pages_refcount`, and the next unused address. -/
structure Kernel where
  files : Nat → Option Info
  vmas : List Vma
  gdrdrv_nv_get_pages_refcount : Int
  fresh : Nat

/-- What stops the kernel: a `BUG_ON` of `gdrdrv.c`, a read past the end of
the page table, or a zap through a `vma` or `mapping` that is not there. -/
inductive Fault where
  | bugOn (what : String)
  | outOfBounds
  | badPointer
  deriving DecidableEq, Repr

end gdrdrv
