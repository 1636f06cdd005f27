import GdrCopy.Api.Gdrapi
import GdrCopy.Driver.Faults
/-!
# Other versions of the driver

The calls of `gdrapi.c` that depend on what the driver supports, over a driver of
any version. `version_skew` says when the library hides the difference. `here` is
the driver of this repository as such a driver.
-/

namespace gdrapi.Skew

open gdrdrv

/-- A driver with state in `K`: the attributes and pin flags it supports, and what it answers to a
pin whose flags it supports. An answer is an error number or a handle. -/
structure Driver (K : Type) where
  gdrdrv_version : Nat
  minimum_gdr_api_version : Nat
  attr : Nat → Option Nat
  pin_flags : BitVec 32
  pin_buffer : K → BitVec 64 → BitVec 64 → BitVec 64 → BitVec 32 → Except Int Nat × K
  pin_accepted : K → BitVec 64 → BitVec 64 → BitVec 32 → Except Int Nat × K
  /-- The handles of the buffers that are pinned. -/
  pins : K → List Nat

variable {K : Type}

def Driver.get_attr (d : Driver K) (attr : Nat) : Except Int Nat :=
  match d.attr attr with
  | none => .error EINVAL
  | some val => .ok val

def Driver.Supports (d : Driver K) (flags : BitVec 32) : Prop := flags &&& ~~~d.pin_flags = 0

instance (d : Driver K) (flags : BitVec 32) : Decidable (d.Supports flags) := inferInstanceAs (Decidable (_ = _))

def Driver.pin_buffer_v2 (d : Driver K) (k : K) (addr size : BitVec 64) (flags : BitVec 32) : Except Int Nat × K :=
  if d.Supports flags then d.pin_accepted k addr size flags else (.error EINVAL, k)

/-! ## The library -/

def errno {α : Type} : Except Int α → Int
  | .ok _ => 0
  | .error e => e

/-- A `gdr_t` on the driver `d`, which has passed the checks of `gdr_open`. -/
structure Client (d : Driver K) where
  kernel : K
  gdr : Gdr
  fresh : Nat
  version : gdr.gdrdrv_version = d.gdrdrv_version
  accepted : MINIMUM_GDRDRV_VERSION ≤ d.gdrdrv_version ∧ d.minimum_gdr_api_version ≤ GDR_API_VERSION

def gdr_open (d : Driver K) (k : K) (fd page_size : Nat) : Option (Client d) :=
  if h : d.gdrdrv_version < MINIMUM_GDRDRV_VERSION then none
  else if h' : GDR_API_VERSION < d.minimum_gdr_api_version then none
  else
    some
      { kernel := k, gdr := ⟨fd, [], page_size, pageShiftLoop page_size 255, d.gdrdrv_version⟩, fresh := 0, version := rfl,
        accepted := ⟨Nat.not_lt.1 h, Nat.not_lt.1 h'⟩ }

/-- The end of both pin calls: the status, what is stored at `handle`, and the `gdr_t`. -/
def pinned {d : Driver K} (g : Client d) (r : Except Int Nat × K) : Int × Option Nat × Client d :=
  match r.1 with
  | .error e => (e, none, { g with kernel := r.2 })
  | .ok handle =>
    (0, some g.fresh,
      { g with
        kernel := r.2
        gdr := { g.gdr with memhs := ⟨g.fresh, u32 handle, GDR_MAPPING_TYPE_NONE⟩ :: g.gdr.memhs }
        fresh := g.fresh + 1 })

/-- `handle` tells whether the pointer is there. -/
def gdr_pin_buffer {d : Driver K} (g : Client d) (handle calloc : Bool) (addr size p2p_token : BitVec 64)
    (va_space : BitVec 32) :
    Int × Option Nat × Client d :=
  if !handle then (EINVAL, none, g)
  else if !calloc then (ENOMEM, none, g)
  else pinned g (d.pin_buffer g.kernel addr size p2p_token va_space)

/-- The flags that are passed on to the driver. -/
def driverFlags (flags : BitVec 32) : BitVec 32 :=
  if flags &&& BitVec.ofNat 32 GDR_PIN_FLAG_FORCE_PCIE ≠ 0 then BitVec.ofNat 32 GDRDRV_PIN_BUFFER_FLAG_FORCE_PCIE else 0

def gdr_pin_buffer_v2_internal {d : Driver K} (g : Client d) (handle calloc : Bool) (addr size : BitVec 64)
    (flags : BitVec 32) :
    Int × Option Nat × Client d :=
  if !handle then (EINVAL, none, g)
  else if !calloc then (ENOMEM, none, g)
  else pinned g (d.pin_buffer_v2 g.kernel addr size (driverFlags flags))

def gdr_pin_buffer_v2 {d : Driver K} (g : Client d) (handle calloc : Bool) (addr size : BitVec 64) (flags : BitVec 32) :
    Int × Option Nat × Client d :=
  if GDRDRV_MINIMUM_VERSION_WITH_PIN_BUFFER_V2 ≤ g.gdr.gdrdrv_version then
    gdr_pin_buffer_v2_internal g handle calloc addr size flags
  else if flags = BitVec.ofNat 32 GDR_PIN_FLAG_DEFAULT then gdr_pin_buffer g handle calloc addr size 0 0
  else (EINVAL, none, g)

/-! ## Hiding the difference -/

/-- What the ioctl of a pin tells the caller. -/
def answer (k : Kernel) : Except Fault (Reply × Kernel) → Except Int Nat × Kernel
  | .ok (⟨0, .handle handle⟩, k') => (.ok handle, k')
  | .ok (r, k') => (.error (-r.ret), k')
  | .error _ => (.error EIO_, k)

/-- The driver of `gdrdrv.c`, called on file `f` by the thread group `cur`. -/
def here (P : Platform) (f cur : Nat) (env : PinEnv) (unpin : PutEnv) : Driver Kernel where
  gdrdrv_version := GDRDRV_VERSION
  minimum_gdr_api_version := MINIMUM_GDR_API_VERSION
  attr := fun attr =>
    if attr = GDRDRV_ATTR_USE_PERSISTENT_MAPPING then some P.gdr_use_persistent_mapping.toNat
    else if attr = GDRDRV_ATTR_SUPPORT_PIN_FLAG_FORCE_PCIE then some P.gdr_support_force_pcie.toNat
    else none
  pin_flags := if P.gdr_support_force_pcie then BitVec.ofNat 32 GDRDRV_PIN_BUFFER_FLAG_FORCE_PCIE else 0
  pin_buffer := fun k addr size p2p_token va_space =>
    answer k (gdrdrv_ioctl P k f cur (.pin_buffer true true env unpin addr size p2p_token va_space))
  pin_accepted := fun k addr size flags => answer k
    (gdrdrv_ioctl P k f cur (.pin_buffer_v2 true true env unpin addr size flags))
  pins := fun k => ((k.files f).map fun info => info.mr_list.map (·.handle)).getD []

section
variable {P : Platform} {env : PinEnv} {unpin : PutEnv}

theorem here_get_attr (f cur attr val : Nat) : gdrdrv_get_attr P true true attr val =
    match (here P f cur env unpin).get_attr attr with
    | .ok val => ⟨0, .attr val⟩
    | .error e => ⟨-e, .attr val⟩ := by
  unfold gdrdrv_get_attr Driver.get_attr here
  dsimp only
  by_cases h1 : attr = GDRDRV_ATTR_USE_PERSISTENT_MAPPING
  · rw [if_pos h1, if_pos h1]
    rfl
  rw [if_neg h1, if_neg h1]
  by_cases h2 : attr = GDRDRV_ATTR_SUPPORT_PIN_FLAG_FORCE_PCIE
  · rw [if_pos h2, if_pos h2]
    rfl
  · rw [if_neg h2, if_neg h2]
    rfl

/-- The driver refuses `FORCE_PCIE` where it does not support it. -/
theorem force_pcie_refused {k k' : Kernel} {f cur : Nat} {info : Info} {addr size : BitVec 64} {r : Reply}
    (hf : k.files f = some info) (hsame : gdrdrv_check_same_process info cur = true) (hk : env.kmalloc = true)
    (hforce : P.gdr_support_force_pcie = false)
    (h : gdrdrv_ioctl P k f cur (.pin_buffer_v2 true true env unpin addr size
      (BitVec.ofNat 32 GDRDRV_PIN_BUFFER_FLAG_FORCE_PCIE)) = .ok (r, k')) : r = .err (-EINVAL) ∧
      k'.files = k.files := by
  -- Without persistent mappings every flag is refused; with them, and without `force_bar1`, this one.
  have hargs : pinArgs P 0 0 GDRDRV_PIN_BUFFER_FLAG_FORCE_PCIE = .error (-EINVAL) := by
    have hne : GDRDRV_PIN_BUFFER_FLAG_DEFAULT ≠ GDRDRV_PIN_BUFFER_FLAG_FORCE_PCIE := by decide
    have hand : GDRDRV_PIN_BUFFER_FLAG_FORCE_PCIE &&& GDRDRV_PIN_BUFFER_FLAG_FORCE_PCIE ≠ 0 := by decide
    unfold pinArgs
    cases hp : P.gdr_use_persistent_mapping with
    | false => rw [if_pos (show (!false) = true from rfl), if_pos hne]
    | true =>
      have hb : P.force_bar1 = false := by
        rw [Platform.gdr_support_force_pcie, hp] at hforce
        simpa using hforce
      rw [if_neg (by decide), if_neg (by decide), if_pos hand, hb]
      rfl
  unfold gdrdrv_ioctl at h
  dsimp only at h
  rw [hf] at h
  dsimp only at h
  rw [if_neg (by simp [hsame]), ioctlSwitch, gdrdrv_pin_buffer_v2, if_neg (by decide)] at h
  by_cases ha : addr = 0
  · rw [if_pos ha] at h
    obtain ⟨rfl, rfl⟩ := Prod.mk.inj (Except.ok.inj h)
    exact ⟨rfl, rfl⟩
  rw [if_neg ha, if_neg (by decide)] at h
  have hpin : __gdrdrv_pin_buffer P env k f info addr.toNat size.toNat 0 0
      (BitVec.ofNat 32 GDRDRV_PIN_BUFFER_FLAG_FORCE_PCIE).toNat =
        pinFail P env.put (newMr k.fresh addr.toNat size.toNat 0 0 false) { k with fresh := k.fresh + 2 }
          (-EINVAL) := by
    unfold __gdrdrv_pin_buffer
    rw [if_neg (by simp [hk])]
    dsimp only
    rw [show (BitVec.ofNat 32 GDRDRV_PIN_BUFFER_FLAG_FORCE_PCIE).toNat = GDRDRV_PIN_BUFFER_FLAG_FORCE_PCIE
      from rfl, hargs]
  rw [hpin] at h
  generalize hx : pinFail P env.put (newMr k.fresh addr.toNat size.toNat 0 0 false)
    { k with fresh := k.fresh + 2 } (-EINVAL) = x at h
  cases x with
  | error e => cases h
  | ok x =>
    obtain ⟨ret, handle, k1⟩ := x
    obtain ⟨rfl, hfiles, -, -⟩ := pinFail_cases rfl hx
    have hne : (-EINVAL : Int) ≠ 0 := by decide
    have h : pinReply P true unpin f (-EINVAL, handle, k1) = .ok (r, k') := h
    rw [pinReply, if_pos hne] at h
    obtain ⟨rfl, rfl⟩ := Prod.mk.inj (Except.ok.inj h)
    exact ⟨rfl, hfiles⟩

theorem driverFlags_eq (flags : BitVec 32) :
    (if flags.toNat &&& GDR_PIN_FLAG_FORCE_PCIE ≠ 0 then BitVec.ofNat 32 GDRDRV_PIN_BUFFER_FLAG_FORCE_PCIE else 0) =
      driverFlags flags := by
  have hand : flags.toNat &&& GDR_PIN_FLAG_FORCE_PCIE ≠ 0 ↔ flags &&& BitVec.ofNat 32 GDR_PIN_FLAG_FORCE_PCIE ≠ 0 := by
    rw [Ne, Ne, ← BitVec.toNat_inj, BitVec.toNat_and]
    rfl
  unfold driverFlags
  by_cases h : flags &&& BitVec.ofNat 32 GDR_PIN_FLAG_FORCE_PCIE ≠ 0
  · rw [if_pos h, if_pos (hand.2 h)]
  · rw [if_neg h, if_neg fun h' => h (hand.1 h')]

/-- What the driver is passed and does not support is `FORCE_PCIE`. -/
theorem here_unsupported {f cur : Nat} {flags : BitVec 32}
    (h : ¬ (here P f cur env unpin).Supports (driverFlags flags)) :
    driverFlags flags = BitVec.ofNat 32 GDRDRV_PIN_BUFFER_FLAG_FORCE_PCIE ∧ P.gdr_support_force_pcie = false := by
  unfold Driver.Supports here driverFlags at h
  dsimp only at h
  unfold driverFlags
  by_cases hf : flags &&& BitVec.ofNat 32 GDR_PIN_FLAG_FORCE_PCIE ≠ 0
  · rw [if_pos hf] at h ⊢
    refine ⟨rfl, Bool.eq_false_of_not_eq_true fun ht => h ?_⟩
    rw [if_pos ht]
    decide
  · rw [if_neg hf] at h
    exact absurd (BitVec.zero_and) h

/-- Both models end a pin in the same way. -/
theorem pinned_answer {d : Driver Kernel} {g : Client d} {s s' : Session} {addr size : BitVec 64} {r : Reply}
    {k k' : Kernel} {ret : Int} {mh : Option Nat} (hgdr : g.gdr = s.gdr) (hfresh : g.fresh = s.fresh)
    (h : gdrapi.pinned P s addr size (r, { s with kernel := k' }) = (ret, mh, s')) :
    ∃ g' : Client d, pinned g (answer k (.ok (r, k'))) = (ret, mh, g') ∧ g'.gdr = s'.gdr ∧ g'.kernel = s'.kernel := by
  have failed : answer k (.ok (r, k')) = (.error (-r.ret), k') →
      gdrapi.pinned P s addr size (r, { s with kernel := k' }) = (gdrapi.errno r, none, { s with kernel := k' }) →
      ∃ g' : Client d, pinned g (answer k (.ok (r, k'))) = (ret, mh, g') ∧ g'.gdr = s'.gdr ∧ g'.kernel = s'.kernel := by
    intro ha hp
    rw [hp] at h
    obtain ⟨rfl, hm⟩ := Prod.mk.inj h
    obtain ⟨rfl, rfl⟩ := Prod.mk.inj hm
    rw [ha]
    exact ⟨{ g with kernel := k' }, rfl, hgdr, rfl⟩
  obtain ⟨n, out⟩ := r
  by_cases hn : n = 0
  swap
  · exact failed (by simp [answer, hn]) (by simp [gdrapi.pinned, hn])
  subst hn
  cases out with
  | handle handle =>
    obtain ⟨rfl, hm⟩ := Prod.mk.inj h
    obtain ⟨rfl, rfl⟩ := Prod.mk.inj hm
    rw [← hgdr, ← hfresh]
    exact ⟨_, rfl, rfl, rfl⟩
  | _ => exact failed rfl rfl

/-- `gdr_pin_buffer_v2` over `here` is `gdr_pin_buffer_v2` over the driver. -/
theorem here_pin_buffer_v2 {s s' : Session} {info : Info} {calloc : Bool} {addr size : BitVec 64}
    {flags : BitVec 32} {ret : Int} {mh : Option Nat} (hf : s.kernel.files s.gdr.fd = some info)
    (hsame : gdrdrv_check_same_process info s.cur = true) (hk : env.kmalloc = true)
    (h : gdrapi.gdr_pin_buffer_v2 P s calloc env unpin addr size flags.toNat = .ok (ret, mh, s'))
    (g : Client (here P s.gdr.fd s.cur env unpin)) (hkernel : g.kernel = s.kernel) (hgdr : g.gdr = s.gdr)
    (hfresh : g.fresh = s.fresh) :
    ∃ g' : Client (here P s.gdr.fd s.cur env unpin), gdr_pin_buffer_v2 g true calloc addr size flags = (ret, mh, g') ∧
      g'.gdr = s'.gdr ∧ g'.kernel.files = s'.kernel.files := by
  have hv : GDRDRV_MINIMUM_VERSION_WITH_PIN_BUFFER_V2 ≤ s.gdr.gdrdrv_version := by
    rw [← hgdr, g.version]
    exact (show GDRDRV_MINIMUM_VERSION_WITH_PIN_BUFFER_V2 ≤ GDRDRV_VERSION by decide)
  rw [gdrapi.gdr_pin_buffer_v2, if_pos hv, gdrapi.gdr_pin_buffer_v2_internal] at h
  rw [gdr_pin_buffer_v2, if_pos (by rw [hgdr]; exact hv), gdr_pin_buffer_v2_internal, if_neg (by simp)]
  cases calloc with
  | false =>
    obtain ⟨rfl, rfl, rfl⟩ : ENOMEM = ret ∧ none = mh ∧ s = s' := by simpa using h
    exact ⟨g, rfl, hgdr, by rw [hkernel]⟩
  | true =>
    rw [if_neg (by simp)] at h ⊢
    dsimp only at h
    rw [driverFlags_eq, gdrapi.ioctl] at h
    generalize hio : gdrdrv_ioctl P s.kernel s.gdr.fd s.cur
      (.pin_buffer_v2 true true env unpin addr size (driverFlags flags)) = x at h
    cases x with
    | error e => cases h
    | ok x =>
      obtain ⟨r, k'⟩ := x
      have h : gdrapi.pinned P s addr size (r, { s with kernel := k' }) = (ret, mh, s') := Except.ok.inj h
      by_cases hd : (here P s.gdr.fd s.cur env unpin).Supports (driverFlags flags)
      · rw [Driver.pin_buffer_v2, if_pos hd, hkernel]
        have hans : (here P s.gdr.fd s.cur env unpin).pin_accepted s.kernel addr size (driverFlags flags) =
            answer s.kernel (.ok (r, k')) := by rw [← hio]; rfl
        rw [hans]
        obtain ⟨g', hg', h1, h2⟩ := pinned_answer (k := s.kernel) hgdr hfresh h
        exact ⟨g', hg', h1, by rw [h2]⟩
      · obtain ⟨hfl, hforce⟩ := here_unsupported hd
        rw [hfl] at hio
        obtain ⟨rfl, hfiles⟩ := force_pcie_refused hf hsame hk hforce hio
        rw [Driver.pin_buffer_v2, if_neg hd]
        obtain ⟨rfl, rfl, rfl⟩ : EINVAL = ret ∧ none = mh ∧ { s with kernel := k' } = s' := by
          simpa [gdrapi.pinned, Reply.err, gdrapi.errno] using h
        exact ⟨_, rfl, hgdr, by rw [hfiles, ← hkernel]⟩

end

/-- The driver of this repository after its file has been opened, on which every pin succeeds. -/
def host : Driver Kernel :=
  here x86Host 0 1 ⟨true, .ok ⟨0, 0x00010002, .NVIDIA_P2P_PAGE_SIZE_64KB, [0x10000000], false⟩, 0, 0,
    ⟨false, 0⟩⟩ ⟨false, 0⟩

end gdrapi.Skew
