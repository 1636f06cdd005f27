import GdrCopy.Driver.Refine
/-!
# What a pin leaves

The geometry of the mr that a pin lists. The driver rounds the request to GPU
pages on 64 bits and checks only the address, so the geometry is right exactly
for the requests that fit (`pin_covers`).
-/

namespace gdrdrv

section
variable {P : Platform}

/-! ## The geometry -/

/-- The buffer of `mr` is made of whole GPU pages, the first and the last of which the request touches. -/
structure Mr.Covers (mr : Mr) (addr size : Nat) : Prop where
  va : mr.va % GPU_PAGE_SIZE = 0
  stop : (mr.va + mr.mapped_size) % GPU_PAGE_SIZE = 0
  offset : mr.va + mr.offset = addr
  starts : mr.va ≤ addr ∧ addr < mr.va + GPU_PAGE_SIZE
  ends : addr + size ≤ mr.va + mr.mapped_size ∧ mr.va + mr.mapped_size < addr + size + GPU_PAGE_SIZE

/-- The request ends within 64 bits. It does not reach from the first GPU page into the last, which would round
up to `2 ^ 64` bytes. -/
def RequestFits (addr size : Nat) : Prop :=
  addr + size ≤ 2 ^ 64 ∧ (GPU_PAGE_SIZE ≤ addr ∨ addr + size ≤ 2 ^ 64 - GPU_PAGE_SIZE)

theorem gpuPageSize_eq : GPU_PAGE_SIZE = 65536 := rfl

theorem gpuPageStart {addr : Nat} (h : addr < 2 ^ 64) : addr &&& GPU_PAGE_MASK = addr / 65536 * 65536 :=
  Words.and_high_mask (k := 16) h (by decide)

theorem gpuPageOffset (addr : Nat) : addr &&& GPU_PAGE_OFFSET = addr % 65536 := Nat.and_two_pow_sub_one_eq_mod addr 16

/-- The source's `round_up` is the ceiling, reduced to 64 bits. -/
theorem round_up_eq (x : Nat) : round_up x = (x + 65535) / 65536 * 65536 % 2 ^ 64 := by
  have hor : ∀ y, y ||| (GPU_PAGE_SIZE - 1) = y / 65536 * 65536 + 65535 := fun y => Words.or_low_mask y 16
  rw [round_up, hor]
  unfold u64
  omega

theorem mappedSize_eq {addr size : Nat} (ha : addr < 2 ^ 64) :
    mappedSize addr size =
      (2 ^ 64 + ((addr + size) % 2 ^ 64 + 65535) / 65536 * 65536 % 2 ^ 64 - addr / 65536 * 65536) % 2 ^ 64 := by
  rw [mappedSize, gpuPageStart ha, round_up_eq]
  rfl

/-- The rounding is exact for the requests that fit, and only for these among the ranges within 64 bits. -/
theorem covers_iff {mr : Mr} {addr size : Nat} (ha : addr < 2 ^ 64) (hs : size < 2 ^ 64)
    (hva : mr.va = addr &&& GPU_PAGE_MASK) (hoff : mr.offset = addr &&& GPU_PAGE_OFFSET)
    (hsize : mr.mapped_size = mappedSize addr size) :
    mr.Covers addr size ∧ addr + size ≤ 2 ^ 64 ↔ RequestFits addr size := by
  rw [gpuPageStart ha] at hva
  rw [gpuPageOffset] at hoff
  rw [mappedSize_eq ha] at hsize
  unfold RequestFits
  rw [gpuPageSize_eq]
  constructor
  · rintro ⟨⟨-, -, -, -, hends⟩, hfit⟩
    rw [gpuPageSize_eq] at hends
    omega
  · intro hfit
    refine ⟨⟨?_, ?_, ?_, ?_, ?_⟩, hfit.1⟩ <;> (try rw [gpuPageSize_eq]) <;> omega

/-! ## The pin ioctls -/

theorem Cmd.request_lt {cmd : Cmd} {q : PinRequest} (h : cmd.request = some q) : q.addr < 2 ^ 64 ∧ q.size < 2 ^ 64 := by
  cases cmd <;> cases h
  · exact ⟨BitVec.isLt _, BitVec.isLt _⟩
  · exact ⟨BitVec.isLt _, BitVec.isLt _⟩

/-- A reply of 0 means that the handle was delivered. -/
theorem pinReply_ok {ctu : Bool} {unpin : PutEnv} {f : Nat} {r : Int × Nat × Kernel} {reply : Reply} {s' : Kernel}
    (h : pinReply P ctu unpin f r = .ok (reply, s')) (hr : reply.ret = 0) :
    r.1 = 0 ∧ reply = ⟨0, .handle r.2.1⟩ ∧ s' = r.2.2 := by
  rcases pinReply_cases h with ⟨-, hne, -⟩ | hok | ⟨-, hne, -⟩
  · exact absurd hr hne
  · exact hok
  · exact absurd hr hne

/-- A pin ioctl that returns 0 has listed one mr, and its reply is that mr's handle. -/
theorem pin_ioctl_ok {s s' : Kernel} {f cur : Nat} {cmd : Cmd} {q : PinRequest} {r : Reply}
    (hq : cmd.request = some q) (h : gdrdrv_ioctl P s f cur cmd = .ok (r, s')) (hr : r.ret = 0) :
    ∃ info info' mr, s.files f = some info ∧ Pinned P q s.fresh info mr info' ∧ r = ⟨0, .handle mr.handle⟩ ∧
      s' = { s.setFile f (some (info'.list_add mr)) with
        fresh := s.fresh + 2, gdrdrv_nv_get_pages_refcount := s.gdrdrv_nv_get_pages_refcount + 1 } := by
  rcases pin_ioctl_cases hq h with ⟨hne, -⟩ | ⟨info, unpin, hc⟩
  · exact absurd hr hne
  obtain ⟨ret, handle, s1, hp, hreply⟩ := hc.ends
  obtain ⟨h0, hreply, rfl⟩ := pinReply_ok hreply hr
  rcases pin_inv hp with ⟨hne, -⟩ | ⟨-, mr, info', hpin, rfl, hs⟩
  · exact absurd h0 hne
  · exact ⟨info, info', mr, hc.file, hpin, hreply, hs⟩

/-- Generating a handle leaves the list as it is. -/
theorem Pinned.list {q : PinRequest} {fresh : Nat} {info info' : Info} {mr : Mr}
    (h : Pinned P q fresh info mr info') : info'.mr_list = info.mr_list := by
  have hg := h.handle
  unfold gdr_generate_mr_handle at hg
  split at hg
  · cases hg
  · rw [← (Prod.mk.inj (Option.some.inj hg)).2]

theorem Pinned.geometry {q : PinRequest} {fresh : Nat} {info info' : Info} {mr : Mr}
    (h : Pinned P q fresh info mr info') :
    mr.va = q.addr &&& GPU_PAGE_MASK ∧ mr.offset = q.addr &&& GPU_PAGE_OFFSET ∧
      mr.mapped_size = mappedSize q.addr q.size := by
  obtain ⟨-, tok', va', force, pt, page_size, -, -, -, he⟩ := h
  rw [he]
  exact ⟨rfl, rfl, rfl⟩

/-- The pin through file `f` that was answered with `r` has listed a buffer that covers the request. -/
def PinCovers (s s' : Kernel) (f : Nat) (q : PinRequest) (r : Reply) : Prop :=
  ∃ info info' mr, s.files f = some info ∧ s'.files f = some info' ∧ info'.mr_list = mr :: info.mr_list ∧
    r.out = .handle mr.handle ∧ mr.Covers q.addr q.size

/-- The buffer a pin ioctl lists is one that `covers_iff` is about. -/
theorem pin_listed {s s' : Kernel} {f cur : Nat} {cmd : Cmd} {q : PinRequest} {r : Reply}
    (hq : cmd.request = some q) (h : gdrdrv_ioctl P s f cur cmd = .ok (r, s')) (hr : r.ret = 0) :
    ∃ mr : Mr, mr.va = q.addr &&& GPU_PAGE_MASK ∧ mr.offset = q.addr &&& GPU_PAGE_OFFSET ∧
      mr.mapped_size = mappedSize q.addr q.size ∧ (PinCovers s s' f q r ↔ mr.Covers q.addr q.size) := by
  obtain ⟨info, info', mr, hf, hpin, rfl, rfl⟩ := pin_ioctl_ok hq h hr
  obtain ⟨hva, hoff, hsize⟩ := hpin.geometry
  refine ⟨mr, hva, hoff, hsize, ?_, fun hc => ?_⟩
  · rintro ⟨i, i', m, hi, hi', hl, -, hc⟩
    obtain rfl := Option.some.inj (hf.symm.trans hi)
    obtain rfl : info'.list_add mr = i' := by simpa [Kernel.setFile] using hi'
    rw [Info.list_add, hpin.list] at hl
    rwa [← (List.cons.inj hl).1] at hc
  · refine ⟨info, info'.list_add mr, mr, hf, Function.update_self _ _ _, ?_, rfl, hc⟩
    rw [Info.list_add, hpin.list]

/-- Where a pin ioctl succeeds, the buffer it lists covers the request, as
mathematical integers, and the request ends within 64 bits, exactly when it fits. -/
theorem pin_covers {s s' : Kernel} {f cur : Nat} {cmd : Cmd} {q : PinRequest} {r : Reply}
    (hq : cmd.request = some q) (h : gdrdrv_ioctl P s f cur cmd = .ok (r, s')) (hr : r.ret = 0) :
    PinCovers s s' f q r ∧ q.addr + q.size ≤ 2 ^ 64 ↔ RequestFits q.addr q.size := by
  obtain ⟨mr, hva, hoff, hsize, hcov⟩ := pin_listed hq h hr
  rw [hcov]
  exact covers_iff (Cmd.request_lt hq).1 (Cmd.request_lt hq).2 hva hoff hsize

end

/-- A pin request that the NVIDIA driver grants one GPU page for. -/
def onePagePin (addr size : BitVec 64) : Cmd :=
  .pin_buffer true true ⟨true, .ok ⟨0, 0x00010002, .NVIDIA_P2P_PAGE_SIZE_64KB, [0x10000000], false⟩, 0, 0, ⟨false, 0⟩⟩
    ⟨false, 0⟩ addr size 0 0

/-- Process 1 has opened file 0, and its pin of `size` bytes at `addr` succeeds. -/
theorem onePagePin_ok (addr size : BitVec 64)
    (h : ((execAll x86Host (fun _ _ => true) init [.openFile 0 1 true]).any fun s =>
      (gdrdrv_ioctl x86Host s 0 1 (onePagePin addr size)).toOption.any fun p => p.1.ret == 0) = true) :
    ∃ s r s', Reachable x86Host s ∧ gdrdrv_ioctl x86Host s 0 1 (onePagePin addr size) = .ok (r, s') ∧ r.ret = 0 := by
  obtain ⟨s, hs, h⟩ := Option.any_eq_true _ _ |>.1 h
  obtain ⟨p, hp, hret⟩ := Option.any_eq_true _ _ |>.1 h
  exact ⟨s, p.1, p.2, ⟨_, (execAll_run hs).of_only⟩, toOption_ok hp, by simpa using hret⟩

theorem pin_covers_two_ends : ∃ s r s' q, gdrdrv_ioctl x86Host s 0 1 (onePagePin 0x18000 0x4000) = .ok (r, s') ∧
    PinCovers s s' 0 q r := by
  obtain ⟨s, r, s', -, h, hr⟩ := onePagePin_ok 0x18000 0x4000 (by decide +kernel)
  exact ⟨s, r, s', _, h, ((pin_covers rfl h hr).2 ⟨by decide, .inl (by decide)⟩).1⟩

/-- The end of the request wraps, and `2 ^ 64 - 0x7fff` bytes are pinned as one GPU page. -/
theorem wrapped_pin : ¬ ∀ P s f cur cmd q r s', Reachable P s → cmd.request = some q → q.addr ≠ 0 →
    gdrdrv_ioctl P s f cur cmd = .ok (r, s') → r.ret = 0 → PinCovers s s' f q r := by
  intro hall
  obtain ⟨s, r, s', hreach, h, hr⟩ := onePagePin_ok 0x18000 0xffffffffffff8001 (by decide +kernel)
  obtain ⟨mr, hva, -, hsize, hcov⟩ := pin_listed rfl h hr
  have hc := (hcov.1 (hall _ s 0 1 _ _ r s' hreach rfl (by decide) h hr)).ends.1
  rw [hva, hsize] at hc
  exact absurd hc (by decide +kernel)

end gdrdrv
