import GdrCopy.Api.Aligned
import GdrCopy.Driver.Physical
/-!
# From a copy to the pinned pages

What the copies of the library do to physical memory, behind the translations that the
driver has put into the VMA. Any number of copies through a mapping, each within its
bounds, do to the pinned buffer and to the memory of the process what copies between two
arrays do, and nothing else (`copies_reach_buffer`).
-/

namespace gdrapi

open gdrdrv
open Bytes (Space view)

/-! ## Every routine stays in its buffers -/

theorem unrollTurn_sweeps {v : Moves} {c : Bytes.Cursor} {t : List Instr} {m : Nat} (h : unrollTurn v c = some (t, m)) :
    Sweeps t c.d c.s m := by
  simp only [unrollTurn] at h
  split_ifs at h
  all_goals obtain ⟨rfl, rfl⟩ := Prod.mk.inj (Option.some.inj h)
  · exact v.block_sweeps 4 c
  · exact v.block_sweeps 2 c
  · exact v.block_sweeps 1 c

/-- The unrolled loop of a whole number of words leaves nothing. -/
theorem unrollLoop_ends {v : Moves} {c : Bytes.Cursor} (h : v.width ∣ c.n) :
    (Bytes.Part.loop (unrollTurn v) c).2.n = 0 := by
  have hdvd : v.width ∣ (Bytes.Part.loop (unrollTurn v) c).2.n :=
    Bytes.loop_inv (fun c => v.width ∣ c.n) (fun c t m hc ht => Nat.dvd_sub hc (unrollTurn_copies ht).2.1) _ h
  have hstop : unrollTurn v (Bytes.Part.loop (unrollTurn v) c).2 = none :=
    Bytes.loop_stops (fun c t m ht => (unrollTurn_copies ht).1) _
  generalize (Bytes.Part.loop (unrollTurn v) c).2 = c' at hdvd hstop ⊢
  simp only [unrollTurn] at hstop
  split_ifs at hstop with h0
  rw [← Nat.div_mul_cancel hdvd, h0, Nat.zero_mul]

theorem unrollMemcpy_sweeps {v : Moves} {dst src size : Nat} {t : List Instr}
    (h : unrollMemcpy v dst src size = some t) :
    Sweeps t dst src size := by
  unfold unrollMemcpy at h
  split_ifs at h with hsize
  obtain rfl := Option.some.inj h
  have hgoes : Bytes.Part.Goes (Bytes.Sweeps Load.width Store.width) (Bytes.Part.loop (unrollTurn v)) :=
    .loop Bytes.Sweeps.chains fun c t m ht => unrollTurn_sweeps ht
  exact hgoes.all (c := ⟨dst, src, size⟩) (unrollLoop_ends (Nat.dvd_of_mod_eq_zero (not_not.1 hsize)))

theorem simdMemcpy_sweeps (align : Nat) (p q : Bytes.Cursor → Nat) (unaligned aligned : Moves)
    (dest src n_bytes : Nat) :
    Sweeps (simdMemcpy align p q unaligned aligned dest src n_bytes) dest src n_bytes := by
  obtain ⟨t, ht, hs⟩ := simdMemcpy_goes Bytes.Sweeps.chains .memcpy Moves.block_sweeps align p q unaligned
    aligned dest src n_bytes
  rw [ht]
  exact hs.fence _

theorem smallStore_sweeps {d s n : Nat} {t : List Instr} (h : smallStore d s n = some t) : Sweeps t d s n := by
  have one : ∀ {v : Moves}, n = 1 * v.width → Sweeps (single v ⟨d, s, n⟩) d s n := by
    intro v hn
    have hv := v.block_sweeps 1 ⟨d, s, n⟩
    rwa [← hn] at hv
  unfold smallStore at h
  split_ifs at h with h1 h2 h4 h8
  all_goals obtain rfl := Option.some.inj h
  · exact one h1
  · exact one (by simpa using h2 : n = 2 ∧ _).1
  · exact one (by simpa using h4 : n = 4 ∧ _).1
  · exact one (by simpa using h8 : n = 8 ∧ _).1

theorem storeFence_sweeps {counters : Nat → Int} {t : List Instr} {d s n : Nat} (h : Sweeps t d s n) (wc : Bool) :
    Sweeps (t ++ storeFence counters wc) d s n := by
  unfold storeFence
  split_ifs
  · exact h.fence _
  · exact h.fence _
  · rwa [List.append_nil]

theorem copy_to_sweeps {c : Cpu} {counters : Nat → Int} {d s n mapping_type : Nat} {t : List Instr}
    (h : gdr_copy_to_mapping_internal c counters d s n mapping_type = some t) : Sweeps t d s n := by
  unfold gdr_copy_to_mapping_internal at h
  cases hsmall : smallStore d s n with
  | some u =>
    rw [hsmall] at h
    obtain rfl := Option.some.inj h
    exact storeFence_sweeps (smallStore_sweeps hsmall) _
  | none =>
    rw [hsmall] at h
    dsimp only at h
    split_ifs at h
    · obtain rfl := Option.some.inj h
      exact simdMemcpy_sweeps _ _ _ _ _ _ _ _
    · obtain rfl := Option.some.inj h
      exact simdMemcpy_sweeps _ _ _ _ _ _ _ _
    · obtain ⟨u, hu, rfl⟩ := Option.map_eq_some_iff.1 h
      exact storeFence_sweeps (unrollMemcpy_sweeps hu) _
    · obtain ⟨u, hu, rfl⟩ := Option.map_eq_some_iff.1 h
      exact storeFence_sweeps (unrollMemcpy_sweeps hu) _
    · obtain rfl := Option.some.inj h
      exact storeFence_sweeps (device_sweeps _ _ _ _) _
    · obtain rfl := Option.some.inj h
      exact storeFence_sweeps (.memcpy _ _ _) _

theorem copy_from_sweeps {c : Cpu} {counters : Nat → Int} {d s n mapping_type : Nat} {t : List Instr}
    (h : gdr_copy_from_mapping_internal c counters d s n mapping_type = some t) : Sweeps t d s n := by
  obtain ⟨u, hu, rfl⟩ := Option.map_eq_some_iff.1 h
  have hs : Sweeps u d s n := by
    split_ifs at hu
    · obtain rfl := Option.some.inj hu
      exact simdMemcpy_sweeps _ _ _ _ _ _ _ _
    · obtain rfl := Option.some.inj hu
      exact simdMemcpy_sweeps _ _ _ _ _ _ _ _
    · obtain rfl := Option.some.inj hu
      exact simdMemcpy_sweeps _ _ _ _ _ _ _ _
    · exact unrollMemcpy_sweeps hu
    · exact unrollMemcpy_sweeps hu
    · obtain rfl := Option.some.inj hu
      exact device_sweeps _ _ _ _
    · obtain rfl := Option.some.inj hu
      exact .memcpy _ _ _
  split_ifs
  · exact hs.fence _
  · exact hs

/-! ## Copies -/

/-- A copy between the mapping, from its byte `off` on, and the memory of the process. -/
inductive CopyCall where
  | to_mapping (mh : Memh) (gdr_mapping_type_counters : Nat → Int) (off h_ptr size : Nat)
  | from_mapping (mh : Memh) (gdr_mapping_type_counters : Nat → Int) (off h_ptr size : Nat)

/-- Call the copy on the mapping at `va` and run it on the physical memory. -/
def CopyCall.run (c : Cpu) (τ : Space) (va : Nat) (st : Bytes.State) : CopyCall → Option Bytes.State
  | .to_mapping mh counters off h_ptr size =>
    (gdr_copy_to_mapping c counters mh (va + off) h_ptr size).bind fun r =>
    Bytes.execVia Load.width Store.width τ r.2 st
  | .from_mapping mh counters off h_ptr size =>
    (gdr_copy_from_mapping c counters mh h_ptr (va + off) size).bind fun r =>
    Bytes.execVia Load.width Store.width τ r.2 st

/-- The call is made on a mapped `gdr_mh_t`, within the mapping and within memory of the process. -/
structure InBounds (c : Cpu) (v : Vma) (ram : Space) (mh : Memh) (off h_ptr size : Nat) : Prop where
  mapped : gdr_is_mapped mh.mapping_type = true
  wc : c.arch = .x86 → mh.mapping_type = GDR_MAPPING_TYPE_WC
  mapping : off + size ≤ v.vm_end - v.vm_start
  host : ram.Maps h_ptr size

def CopyCall.Fits (c : Cpu) (v : Vma) (ram : Space) : CopyCall → Prop
  | .to_mapping mh _ off h_ptr size => InBounds c v ram mh off h_ptr size
  | .from_mapping mh _ off h_ptr size => InBounds c v ram mh off h_ptr size

/-! ## Two arrays -/

/-- What a process thinks of: the pinned buffer by offset, and its own memory by address. -/
structure Buffers where
  gpu : Bytes.Mem
  host : Bytes.Mem

/-- A copy from one array to the other. -/
def CopyCall.spec (b : Buffers) : CopyCall → Buffers
  | .to_mapping _ _ off h_ptr size =>
    { b with gpu := fun o => if off ≤ o ∧ o < off + size then b.host (h_ptr + (o - off)) else b.gpu o }
  | .from_mapping _ _ off h_ptr size =>
    { b with host := fun a => if h_ptr ≤ a ∧ a < h_ptr + size then b.gpu (off + (a - h_ptr)) else b.host a }

/-- The two arrays in physical memory: the `size` bytes of the buffer that are mapped, and the memory of the process. -/
def Buffers.seen (pt : PageTable) (size : Nat) (ram : Space) (m : Bytes.Mem) : Buffers :=
  ⟨fun o => if o < size then m (pt.byte o) else 0, view ram m⟩

section
variable {P : Platform} {v : Vma} {pt : PageTable} {ram : Space} {c : Cpu}

/-- The memory of the process and the buffer are seen through the address space. -/
theorem seen_eq (h : Mapping P v pt) (hr : Ram v pt ram) (m : Bytes.Mem) :
    Buffers.seen pt (v.vm_end - v.vm_start) ram m =
    ⟨fun o => if o < v.vm_end - v.vm_start then view (space P v ram) m (v.vm_start + o) else 0,
      fun a => if (ram a).isSome then view (space P v ram) m a else 0⟩ := by
  unfold Buffers.seen
  congr 1
  · funext o
    split
    · next ho => rw [view, h.space_in ho, Option.elim_some]
    · rfl
  · funext a
    rw [view, view]
    cases ha : ram a with
    | none => rfl
    | some p => simp only [hr.space h ha, Option.isSome_some, if_true, Option.elim_some]

theorem InBounds.maps (h : Mapping P v pt) (hr : Ram v pt ram) {mh : Memh} {off h_ptr size : Nat}
    (hb : InBounds c v ram mh off h_ptr size) :
    (space P v ram).Maps (v.vm_start + off) size ∧ (space P v ram).Maps h_ptr size ∧
    Bytes.Apart (v.vm_start + off) h_ptr size := by
  have hmap := hb.mapping
  refine ⟨fun i hi => ?_, fun i hi => ?_, ?_⟩
  · rw [Nat.add_assoc, h.space_in (by omega)]
    rfl
  · obtain ⟨p, hp⟩ := Option.isSome_iff_exists.1 (hb.host i hi)
    rw [hr.space h hp]
    rfl
  · -- The two ranges could only meet at an address of the process inside the VMA.
    by_contra hn
    unfold Bytes.Apart at hn
    obtain ⟨i, hi, j, hj, he⟩ : ∃ i < size, ∃ j < size, h_ptr + i = v.vm_start + off + j := by
      by_cases hle : h_ptr ≤ v.vm_start + off
      · exact ⟨v.vm_start + off - h_ptr, by omega, 0, by omega, by omega⟩
      · exact ⟨0, by omega, h_ptr - (v.vm_start + off), by omega, by omega⟩
    obtain ⟨p, hp⟩ := Option.isSome_iff_exists.1 (hb.host i hi)
    have := hr.out hp
    omega

/-- A copy to the mapping, seen through the address space, is one from array to array. -/
theorem seen_to (h : Mapping P v pt) (hr : Ram v pt ram) {mh : Memh} {counters : Nat → Int} {off h_ptr size : Nat}
    (hb : InBounds c v ram mh off h_ptr size) {m m' : Bytes.Mem}
    (hm : view (space P v ram) m' = (view (space P v ram) m).copy (v.vm_start + off) h_ptr size) :
    Buffers.seen pt (v.vm_end - v.vm_start) ram m' =
      (CopyCall.to_mapping mh counters off h_ptr size).spec (Buffers.seen pt (v.vm_end - v.vm_start) ram m) := by
  have hmap := hb.mapping
  rw [seen_eq h hr, seen_eq h hr, hm, CopyCall.spec]
  dsimp only
  congr 1
  · funext o
    by_cases hin : off ≤ o ∧ o < off + size
    · obtain ⟨i, rfl⟩ := Nat.exists_eq_add_of_le hin.1
      have hi : i < size := by omega
      rw [if_pos hin, if_pos (by omega), ← Nat.add_assoc, Bytes.Mem.copy_dst _ _ _ hi, Nat.add_sub_cancel_left,
        if_pos (hb.host i hi)]
    · rw [if_neg hin, Bytes.Mem.copy_other _ _ _ (by omega)]
  · funext a
    cases ha : ram a with
    | none => rfl
    | some p =>
      have hout := hr.out ha
      simp only [Option.isSome_some, if_true]
      exact Bytes.Mem.copy_other _ _ _ (by omega)

theorem seen_from (h : Mapping P v pt) (hr : Ram v pt ram) {mh : Memh} {counters : Nat → Int} {off h_ptr size : Nat}
    (hb : InBounds c v ram mh off h_ptr size) {m m' : Bytes.Mem}
    (hm : view (space P v ram) m' = (view (space P v ram) m).copy h_ptr (v.vm_start + off) size) :
    Buffers.seen pt (v.vm_end - v.vm_start) ram m' =
      (CopyCall.from_mapping mh counters off h_ptr size).spec (Buffers.seen pt (v.vm_end - v.vm_start) ram m) := by
  have hmap := hb.mapping
  have hhost : ∀ o < v.vm_end - v.vm_start, v.vm_start + o < h_ptr ∨ h_ptr + size ≤ v.vm_start + o := by
    intro o ho
    by_contra hn
    obtain ⟨i, hi⟩ := Nat.exists_eq_add_of_le (show h_ptr ≤ v.vm_start + o by omega)
    obtain ⟨p, hp⟩ := Option.isSome_iff_exists.1 (hb.host i (by omega))
    have := hr.out hp
    omega
  rw [seen_eq h hr, seen_eq h hr, hm, CopyCall.spec]
  dsimp only
  congr 1
  · funext o
    by_cases ho : o < v.vm_end - v.vm_start
    · rw [if_pos ho, if_pos ho, Bytes.Mem.copy_other _ _ _ (hhost o ho)]
    · rw [if_neg ho, if_neg ho]
  · funext a
    by_cases hin : h_ptr ≤ a ∧ a < h_ptr + size
    · obtain ⟨i, rfl⟩ := Nat.exists_eq_add_of_le hin.1
      have hi : i < size := by omega
      rw [if_pos hin, if_pos (hb.host i hi), Bytes.Mem.copy_dst _ _ _ hi, Nat.add_sub_cancel_left,
        if_pos (by omega), Nat.add_assoc]
    · rw [if_neg hin, Bytes.Mem.copy_other _ _ _ (by omega)]

/-- One copy: no assertion and no access fails, the arrays change as they should, and no other byte does. -/
theorem CopyCall.step (h : Mapping P v pt) (hr : Ram v pt ram) {x : CopyCall} (hx : x.Fits c v ram) (st : Bytes.State) :
    ∃ st', x.run c (space P v ram) v.vm_start st = some st' ∧
      Buffers.seen pt (v.vm_end - v.vm_start) ram st'.mem =
      x.spec (Buffers.seen pt (v.vm_end - v.vm_start) ram st.mem) ∧
      ∀ p, (∀ o < v.vm_end - v.vm_start, pt.byte o ≠ p) → (∀ a, ram a ≠ some p) → st'.mem p = st.mem p := by
  have hinj := h.space_inj hr
  -- What the routine copies between, and that it stays there.
  have ends : ∀ {d s n : Nat} {mh : Memh} {o : Option (List Instr)}, gdr_is_mapped mh.mapping_type = true →
      (∃ t, o = some t ∧ Copies t d s n) → (∀ t, o = some t → Sweeps t d s n) →
      ∃ u, (if !gdr_is_mapped mh.mapping_type then some (EINVAL, []) else if n = 0 then some (0, [])
        else o.map (0, ·)) =
        some ((0 : Int), u) ∧ Copies u d s n ∧ Sweeps u d s n := by
    intro d s n mh o hm ho hsw
    obtain ⟨t, rfl, hc⟩ := ho
    rw [hm]
    by_cases hn : n = 0
    · subst hn
      exact ⟨[], rfl, .nil _ _, .nil _ _⟩
    · exact ⟨t, by simp [hn], hc, hsw t rfl⟩
  cases x with
  | to_mapping mh counters off h_ptr size =>
    have hb : InBounds c v ram mh off h_ptr size := hx
    have hmap := hb.mapping
    obtain ⟨hd, hs, hapart⟩ := hb.maps h hr
    obtain ⟨u, hu, hcu, hsu⟩ := ends hb.mapped (copy_to_internal hb.wc counters (v.vm_start + off) h_ptr size)
      fun t => copy_to_sweeps
    obtain ⟨st', hrun, hview, hrest⟩ := hcu.via hsu hinj hapart hd hs st
    refine ⟨st', ?_, seen_to h hr hb hview, fun p hp _ => hrest p fun i hi he => ?_⟩
    · rw [CopyCall.run, gdr_copy_to_mapping, hu]
      exact hrun
    · rw [Nat.add_assoc, h.space_in (by omega)] at he
      exact hp _ (by omega) (Option.some.inj he)
  | from_mapping mh counters off h_ptr size =>
    have hb : InBounds c v ram mh off h_ptr size := hx
    obtain ⟨hs, hd, hapart⟩ := hb.maps h hr
    obtain ⟨u, hu, hcu, hsu⟩ := ends hb.mapped (copy_from_internal hb.wc counters h_ptr (v.vm_start + off) size)
      fun t => copy_from_sweeps
    obtain ⟨st', hrun, hview, hrest⟩ := hcu.via hsu hinj (Or.symm hapart) hd hs st
    refine ⟨st', ?_, seen_from h hr hb hview, fun p _ hp => hrest p fun i hi he => ?_⟩
    · rw [CopyCall.run, gdr_copy_from_mapping, hu]
      exact hrun
    · obtain ⟨q, hq⟩ := Option.isSome_iff_exists.1 (hb.host i hi)
      rw [hr.space h hq] at he
      exact hp _ (hq.trans he)

/-- Any number of copies, one after the other. -/
theorem copies_seen (h : Mapping P v pt) (hr : Ram v pt ram) {xs : List CopyCall}
    (hx : ∀ x ∈ xs, x.Fits c v ram) (st : Bytes.State) :
    ∃ st', xs.foldlM (fun st x => x.run c (space P v ram) v.vm_start st) st = some st' ∧
      Buffers.seen pt (v.vm_end - v.vm_start) ram st'.mem =
        xs.foldl (fun b x => x.spec b) (Buffers.seen pt (v.vm_end - v.vm_start) ram st.mem) ∧
      ∀ p, (∀ o < v.vm_end - v.vm_start, pt.byte o ≠ p) → (∀ a, ram a ≠ some p) → st'.mem p = st.mem p := by
  induction xs generalizing st with
  | nil => exact ⟨st, rfl, rfl, fun _ _ _ => rfl⟩
  | cons x xs ih =>
    obtain ⟨s1, h1, hseen1, hrest1⟩ := CopyCall.step h hr (hx x List.mem_cons_self) st
    obtain ⟨s2, h2, hseen2, hrest2⟩ := ih (fun y hy => hx y (List.mem_cons_of_mem _ hy)) s1
    refine ⟨s2, ?_, ?_, fun p hp hp' => (hrest2 p hp hp').trans (hrest1 p hp hp')⟩
    · rw [List.foldlM_cons, h1]
      exact h2
    · rw [hseen2, hseen1, List.foldl_cons]

/-- A process maps a pinned buffer with `mmap`. From then on its copies, in any number and order, to and from
any parts of the mapping, whatever the size, the alignment, the processor and the mapping type, do to the
pinned pages and to the memory of the process exactly what copies between two arrays do. None of them faults,
and no other byte changes. -/
theorem copies_reach_buffer {env : RemapEnv} {s s' : Kernel} {f cur start len : Nat} {off : BitVec 64}
    (h : sysMmap P env s f cur start len off = .ok (.err 0, s'))
    (hg : ∀ info mr pt, s.files f = some info → mr ∈ info.mr_list → mr.page_table = some pt → pt.Granted P) :
    ∃ info mr pt v, s.files f = some info ∧ gdr_mr_from_handle_unlocked info (off.toNat >>> P.PAGE_SHIFT) = some mr ∧
      mr.page_table = some pt ∧ mr.offset = 0 ∧ s'.vmas = v :: s.vmas ∧ v.vm_start = start * P.PAGE_SIZE ∧
      v.vm_end = (start + (len + P.PAGE_SIZE - 1) / P.PAGE_SIZE) * P.PAGE_SIZE ∧
      ∀ c ram, Ram v pt ram → ∀ xs : List CopyCall, (∀ x ∈ xs, x.Fits c v ram) → ∀ st,
        ∃ st', xs.foldlM (fun st x => x.run c (space P v ram) v.vm_start st) st = some st' ∧
          Buffers.seen pt (v.vm_end - v.vm_start) ram st'.mem =
            xs.foldl (fun b x => x.spec b) (Buffers.seen pt (v.vm_end - v.vm_start) ram st.mem) ∧
          ∀ p, (∀ o < v.vm_end - v.vm_start, pt.byte o ≠ p) → (∀ a, ram a ≠ some p) → st'.mem p = st.mem p := by
  obtain ⟨info, mr, pt, v, hf, hs, hpt, hoff, hv, hstart, hend, hmap⟩ := sysMmap_mapping h hg
  exact ⟨info, mr, pt, v, hf, hs, hpt, hoff, hv, hstart, hend, fun c ram hr xs hx st => copies_seen hmap hr hx st⟩

end

/-- The first page of memory, where the process has its buffers. -/
def lowRam : Space := fun a => if a < 0x1000 then some a else none

/-- 100 bytes to the mapping and back to another place. -/
def thereAndBack : List CopyCall :=
  [.to_mapping ⟨0, 0, GDR_MAPPING_TYPE_WC⟩ (fun _ => 0) 3 0x10 100,
    .from_mapping ⟨0, 0, GDR_MAPPING_TYPE_WC⟩ (fun _ => 0) 3 0x200 100]

/-- A process on x86 with AVX pins a GPU page and maps it, and 100 bytes come back through it. -/
theorem copies_reach_buffer_there_and_back : ∃ s s' v, Reachable x86Host s ∧
    sysMmap x86Host (fun _ _ _ => 0) s 0 1 0x1000 0x10000 0 = .ok (.err 0, s') ∧ s'.vmas = v :: s.vmas ∧
    ∀ st, ∃ st', thereAndBack.foldlM (fun st x => x.run ⟨.x86, true, true, true⟩ (space x86Host v lowRam)
      v.vm_start st) st = some st' ∧ ∀ i < 100, view lowRam st'.mem (0x200 + i) = view lowRam st.mem (0x10 + i) := by
  have hex : ((execAll x86Host (fun _ _ => true) init pinOnly).any fun s =>
      ((s.files 0).all fun info => info.mr_list.all fun mr => mr.page_table.all fun pt => pt.pages == [0x10000000]) &&
        (sysMmap x86Host (fun _ _ _ => 0) s 0 1 0x1000 0x10000 0).toOption.any fun r => r.1 == .err 0) =
          true := by decide +kernel
  obtain ⟨s, hs, hq⟩ := Option.any_eq_true _ _ |>.1 hex
  obtain ⟨hall, hmap⟩ := (Bool.and_eq_true _ _).mp hq
  obtain ⟨⟨r, s'⟩, hr, hret⟩ := Option.any_eq_true _ _ |>.1 hmap
  obtain rfl : r = .err 0 := by simpa using hret
  have hpages : ∀ info mr pt, s.files 0 = some info → mr ∈ info.mr_list → mr.page_table = some pt →
      pt.pages = [0x10000000] := by
    intro info mr pt hf hm hpt
    rw [hf, Option.all_some] at hall
    have := List.all_eq_true.1 hall mr hm
    rw [hpt, Option.all_some] at this
    simpa using this
  have hgranted : ∀ info mr pt, s.files 0 = some info → mr ∈ info.mr_list → mr.page_table = some pt →
      pt.Granted x86Host := by
    intro info mr pt hf hm hpt
    have hp := hpages info mr pt hf hm hpt
    refine ⟨⟨?_, ?_⟩, ?_, ?_⟩
    · rw [PageTable.entries, hp]
      decide
    · rw [hp]
      decide
    · rw [hp]
      decide
    · rw [hp]
      exact List.pairwise_singleton _ _
  obtain ⟨info, mr, pt, v, hf, hsearch, hpt, -, hv, hstart, hend, hcopies⟩ :=
    copies_reach_buffer (toOption_ok hr) hgranted
  have hp := hpages info mr pt hf (search_mem hsearch) hpt
  have hstart : v.vm_start = 0x1000000 := hstart
  have hend : v.vm_end = 0x1010000 := hend
  have hlow : ∀ {a p}, lowRam a = some p → a < 0x1000 ∧ a = p := by
    intro a p h
    unfold lowRam at h
    split_ifs at h with ha
    exact ⟨ha, Option.some.inj h⟩
  have hmaps : ∀ {a}, a + 100 ≤ 0x1000 → lowRam.Maps a 100 := by
    intro a ha i hi
    rw [lowRam, if_pos (by omega)]
    rfl
  have hram : Ram v pt lowRam := by
    refine ⟨fun a b p ha hb => (hlow ha).2.trans (hlow hb).2.symm, fun a ha _ => if_neg (by omega),
      fun a p ha q hq => ?_⟩
    rw [hp, List.mem_singleton] at hq
    have := hlow ha
    omega
  refine ⟨s, s', v, ⟨_, (execAll_run hs).of_only⟩, toOption_ok hr, hv, fun st => ?_⟩
  have hfits : ∀ x ∈ thereAndBack, x.Fits ⟨.x86, true, true, true⟩ v lowRam := by
    intro x hx
    have hin : ∀ {a}, a + 100 ≤ 0x1000 → InBounds ⟨.x86, true, true, true⟩ v lowRam ⟨0, 0,
        GDR_MAPPING_TYPE_WC⟩ 3 a 100 :=
      fun ha => ⟨rfl, fun _ => rfl, by omega, hmaps ha⟩
    simp only [thereAndBack, List.mem_cons, List.not_mem_nil, or_false] at hx
    rcases hx with rfl | rfl
    · exact hin (by decide)
    · exact hin (by decide)
  obtain ⟨st', hrun, hseen, -⟩ := hcopies ⟨.x86, true, true, true⟩ lowRam hram thereAndBack hfits st
  refine ⟨st', hrun, fun i hi => ?_⟩
  have hspec : ∀ b : Buffers, (thereAndBack.foldl (fun b x => x.spec b) b).host (0x200 + i) = b.host (0x10 + i) := by
    intro b
    simp only [thereAndBack, List.foldl_cons, List.foldl_nil, CopyCall.spec]
    rw [if_pos (by omega), if_pos (by omega), Nat.add_sub_cancel_left, Nat.add_sub_cancel_left]
  exact (congrFun (congrArg Buffers.host hseen) (0x200 + i)).trans (hspec _)

end gdrapi
