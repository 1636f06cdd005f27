import GdrCopy.Api.Copy
import GdrCopy.Api.MapV2
import GdrCopy.Lib.Tally
import Mathlib.Data.List.Flatten
/-!
# Fences

The library's own data, over whole runs: every open `gdr_t` with its `gdr_mh_t`s, and
the counters of mapping types that `gdr_unmap` alone decrements. What the driver
answers is open. `copies_fenced`: the counters never fall below the mappings that are
there, so every copy ends in the fence it needs.
-/

namespace gdrapi

open gdrdrv

/-! ## The library -/

/-- The `gdr_t`s by address, the next address from `calloc`, and the counters. -/
structure Library where
  gdrs : List (Nat × Gdr)
  fresh : Nat
  gdr_mapping_type_counters : Nat → Int

namespace Library

/-- Every live `gdr_memh_t`. -/
def memhs (l : Library) : List Memh := l.gdrs.flatMap (·.2.memhs)

/-- `mh->mapping_type = t`. -/
def setType (l : Library) (mh t : Nat) : Library :=
  { l with
    gdrs := l.gdrs.map fun g =>
      (g.1, { g.2 with memhs := Tally.update Memh.ptr mh (fun m => { m with mapping_type := t }) g.2.memhs }) }

/-- `LIST_REMOVE(mh, entries); free(mh)`. -/
def free (l : Library) (mh : Nat) : Library :=
  { l with gdrs := l.gdrs.map fun g => (g.1, { g.2 with memhs := g.2.memhs.filter (·.ptr ≠ mh) }) }

/-- `LIST_INSERT_HEAD(&g->memhs, mh, entries)` for a new `mh`. -/
def insert (l : Library) (g handle : Nat) : Library :=
  { l with
    gdrs := Tally.update Prod.fst g
      (fun p => (p.1, { p.2 with memhs := ⟨l.fresh, u32 handle, GDR_MAPPING_TYPE_NONE⟩ :: p.2.memhs })) l.gdrs
    fresh := l.fresh + 1 }

/-- `gdr_mapping_type_counters[t] += n`, for `++` and `--`. -/
def count (l : Library) (t : Nat) (n : Int) : Library :=
  { l with gdr_mapping_type_counters := Function.update l.gdr_mapping_type_counters t (l.gdr_mapping_type_counters t + n) }

end Library

/-- What the system calls of `gdr_map_v2` answer: `errno` or 0, and what `gdr_get_info_v2` makes of the last one. -/
structure MapAnswers where
  req_mapping_type : Int
  mmap : Int
  get_info : Except Int InfoV2

/-- The end of `gdr_map_v2`: the status, or the mapping type of a mapping that stays. -/
def mapOutcome (gdrdrv_version mapping_type : Nat) (flags : Int) (a : MapAnswers) : Except Int Nat :=
  if gdr_is_mapped mapping_type then .error EAGAIN
  else
    match params_mapping_type flags with
    | none => .error EINVAL
    | some t =>
      if GDRDRV_MINIMUM_VERSION_WITH_REQ_MAPPING_TYPE ≤ gdrdrv_version ∧ a.req_mapping_type ≠ 0 then
        .error a.req_mapping_type
      else if a.mmap ≠ 0 then .error a.mmap
      else
        match a.get_info with
        | .error status => .error status
        | .ok info => checkInfo flags t 0 (some info)

namespace Library

def gdr_open (l : Library) (g : Option Gdr) : Int × Library :=
  match g with
  | none => (-1, l)
  | some g => (0, { l with gdrs := (l.fresh, { g with memhs := [] }) :: l.gdrs, fresh := l.fresh + 1 })

/-- Both pin calls: the driver returns an error, or a handle. -/
def gdr_pin_buffer (l : Library) (g : Nat) : Except Int Nat → Int × Library
  | .error status => (status, l)
  | .ok handle => (0, l.insert g handle)

def gdr_map_v2 (l : Library) (g : Gdr) (mh : Memh) (flags : Int) (a : MapAnswers) : Int × Library :=
  match mapOutcome g.gdrdrv_version mh.mapping_type flags a with
  | .error status => (status, l)
  | .ok t => (0, (l.setType mh.ptr t).count t 1)

/-- `munmap` is its `errno`, or 0. -/
def gdr_unmap (l : Library) (mh : Memh) (munmap : Int) : Int × Library :=
  if !gdr_is_mapped mh.mapping_type then (EINVAL, l)
  else if munmap ≠ 0 then (munmap, l)
  else (0, (l.count mh.mapping_type (-1)).setType mh.ptr GDR_MAPPING_TYPE_NONE)

/-- Whatever the driver answers, `mh` is freed. -/
def gdr_unpin_buffer (l : Library) (mh : Memh) (status : Int) : Int × Library := (status, l.free mh.ptr)

/-- The loop of `gdr_close`, which stops at the first error. -/
def closeLoop (unpin : Nat → Int) : List Memh → Library → Int × Library
  | [], l => (0, l)
  | mh :: rest, l =>
    let r := l.gdr_unpin_buffer mh (unpin mh.ptr)
    if r.1 ≠ 0 then r else closeLoop unpin rest r.2

def gdr_close (l : Library) (addr : Nat) (g : Gdr) (unpin : Nat → Int) (close : Int) : Int × Library :=
  let r := closeLoop unpin g.memhs l
  if r.1 ≠ 0 then r else (close, { r.2 with gdrs := r.2.gdrs.filter (·.1 ≠ addr) })

end Library

/-! ## Runs -/

/-- A call with what its system calls answer. `g` and `mh` are the pointers it is given. -/
inductive LibCall where
  | openGdr (gdr : Option Gdr)
  | pin_buffer (g : Nat) (answer : Except Int Nat)
  | map_v2 (g mh : Nat) (flags : Int) (a : MapAnswers)
  | unmap (mh : Nat) (munmap : Int)
  | unpin_buffer (mh : Nat) (status : Int)
  | closeGdr (g : Nat) (unpin : Nat → Int) (close : Int)
  | copy_to_mapping (mh map_d_ptr h_ptr size : Nat)
  | copy_from_mapping (mh h_ptr map_d_ptr size : Nat)

def LibCall.maps : LibCall → Bool
  | .map_v2 .. => true
  | _ => false

/-- What a call returns, the instructions of a copy, and the library after it. A pointer that is not live has
no result. -/
def LibCall.run (c : Cpu) (l : Library) (k : LibCall) : Option (Int × List Instr × Library) :=
  let gdr (g : Nat) : Option Gdr := (l.gdrs.find? (·.1 = g)).map (·.2)
  let memh (mh : Nat) : Option Memh := l.memhs.find? (·.ptr = mh)
  let ran (r : Int × Library) : Int × List Instr × Library := (r.1, [], r.2)
  match k with
  | .openGdr g => some (ran (l.gdr_open g))
  | .pin_buffer g answer => (gdr g).map fun _ => ran (l.gdr_pin_buffer g answer)
  | .map_v2 g mh flags a => do
    let g ← gdr g
    let m ← memh mh
    some (ran (l.gdr_map_v2 g m flags a))
  | .unmap mh munmap => (memh mh).map fun m => ran (l.gdr_unmap m munmap)
  | .unpin_buffer mh status => (memh mh).map fun m => ran (l.gdr_unpin_buffer m status)
  | .closeGdr g unpin close => (gdr g).map fun p => ran (l.gdr_close g p unpin close)
  | .copy_to_mapping mh map_d_ptr h_ptr size => do
    let m ← memh mh
    let r ← gdr_copy_to_mapping c l.gdr_mapping_type_counters m map_d_ptr h_ptr size
    some (r.1, r.2, l)
  | .copy_from_mapping mh h_ptr map_d_ptr size => do
    let m ← memh mh
    let r ← gdr_copy_from_mapping c l.gdr_mapping_type_counters m h_ptr map_d_ptr size
    some (r.1, r.2, l)

/-- The mapping types of a platform: on x86 there is only one. -/
def Grants : Arch → Nat → Prop
  | .x86, t => t = GDR_MAPPING_TYPE_WC
  | _, t => t < GDR_MAPPING_TYPE_MAX

/-- The driver maps as the platform does. -/
def LibCall.Granted (arch : Arch) : LibCall → Prop
  | .map_v2 _ _ _ a =>
    ∀ info, a.get_info = .ok info → gdr_is_mapped info.mapping_type = true → Grants arch info.mapping_type
  | _ => True

def Library.Step (c : Cpu) (l : Library) (k : LibCall) (l' : Library) : Prop := ∃ ret t, k.run c l = some (ret, t, l')

/-- Runs of a single thread from the start of the process, on a platform whose driver grants its types. -/
abbrev Library.Run (c : Cpu) := Runs.Run (· = (⟨[], 0, fun _ => 0⟩ : Library))
    (Runs.only (fun _ k => k.Granted c.arch) (Library.Step c))

/-- The live handles that are mapped with type `t`. -/
def Library.live (l : Library) (t : Nat) : Nat := l.memhs.countP (·.mapping_type == t)

/-- Handles of two or more types are mapped. -/
def Library.Mixed (l : Library) : Prop :=
  ∃ m ∈ l.memhs, ∃ m' ∈ l.memhs, gdr_is_mapped m.mapping_type = true ∧ gdr_is_mapped m'.mapping_type = true ∧
    m.mapping_type ≠ m'.mapping_type

/-! ## The counters -/

/-- The invariant after `n` calls of `gdr_map_v2`. -/
structure Counted (arch : Arch) (n : Nat) (l : Library) : Prop where
  gdrs : (l.gdrs.map (·.1)).Nodup
  gdr_lt : ∀ g ∈ l.gdrs, g.1 < l.fresh
  memhs : (l.memhs.map (·.ptr)).Nodup
  memh_lt : ∀ m ∈ l.memhs, m.ptr < l.fresh
  granted : ∀ m ∈ l.memhs, gdr_is_mapped m.mapping_type = true → Grants arch m.mapping_type
  counted : ∀ t, gdr_is_mapped t = true → (l.live t : Int) ≤ l.gdr_mapping_type_counters t
  none : l.gdr_mapping_type_counters GDR_MAPPING_TYPE_NONE = 0
  bound : ∀ t, l.gdr_mapping_type_counters t ≤ n

section
variable {arch : Arch} {n : Nat} {l l' : Library}

theorem Library.memhs_setType (l : Library) (mh t : Nat) :
    (l.setType mh t).memhs = Tally.update Memh.ptr mh (fun m => { m with mapping_type := t }) l.memhs := by
  simp only [Library.memhs, Library.setType, Tally.update, List.flatMap_map, List.map_flatMap]

theorem Library.memhs_free (l : Library) (mh : Nat) : (l.free mh).memhs = l.memhs.filter (·.ptr ≠ mh) := by
  simp only [Library.memhs, Library.free, List.flatMap_map, List.filter_flatMap]

/-- Handles and `gdr_t`s may go away; the counters stay. -/
theorem Counted.sublist (h : Counted arch n l) (hg : (l'.gdrs.map (·.1)).Sublist (l.gdrs.map (·.1)))
    (hm : l'.memhs.Sublist l.memhs) (hf : l'.fresh = l.fresh)
    (hc : l'.gdr_mapping_type_counters = l.gdr_mapping_type_counters) :
    Counted arch n l' := by
  refine ⟨h.gdrs.sublist hg, fun g hmem => ?_, h.memhs.sublist (hm.map _), fun m hmem => ?_,
    fun m hmem => h.granted m (hm.subset hmem),
      fun t ht => ?_, by rw [hc]; exact h.none, fun t => by rw [hc]; exact h.bound t⟩
  · obtain ⟨g', hg', he⟩ := List.mem_map.1 (hg.subset (List.mem_map_of_mem hmem))
    rw [hf, ← he]
    exact h.gdr_lt g' hg'
  · rw [hf]
    exact h.memh_lt m (hm.subset hmem)
  · rw [hc]
    exact (Int.ofNat_le.2 hm.countP_le).trans (h.counted t ht)

theorem Counted.free (h : Counted arch n l) (mh : Nat) : Counted arch n (l.free mh) := by
  refine h.sublist ?_ ?_ rfl rfl
  · rw [Library.free, List.map_map]
    exact List.Sublist.refl _
  · rw [Library.memhs_free]
    exact List.filter_sublist

theorem Counted.closeLoop (unpin : Nat → Int) (ms : List Memh) : ∀ {l : Library}, Counted arch n l →
    Counted arch n (Library.closeLoop unpin ms l).2 := by
  induction ms with
  | nil => exact fun h => h
  | cons m rest ih =>
    intro l h
    rw [Library.closeLoop]
    split
    · exact h.free m.ptr
    · exact ih (h.free m.ptr)

theorem Counted.close (h : Counted arch n l) (addr : Nat) (g : Gdr) (unpin : Nat → Int) (close : Int) :
    Counted arch n (l.gdr_close addr g unpin close).2 := by
  have hloop := h.closeLoop unpin g.memhs
  unfold Library.gdr_close
  dsimp only
  split
  · exact hloop
  · refine hloop.sublist ?_ ?_ rfl rfl
    · exact List.filter_sublist.map _
    · exact List.filter_sublist.flatMap _

/-- A new `gdr_t` or a new handle: it takes the next address, and is not mapped. -/
theorem Counted.grow (h : Counted arch n l) (hg : (l'.gdrs.map (·.1)).Nodup) (hlt : ∀ g ∈ l'.gdrs, g.1 < l.fresh + 1)
    (hm : ∃ ms, l'.memhs.Perm (ms ++ l.memhs) ∧ (ms = [] ∨ ∃ handle, ms = [⟨l.fresh, handle, GDR_MAPPING_TYPE_NONE⟩]))
    (hf : l'.fresh = l.fresh + 1) (hc : l'.gdr_mapping_type_counters = l.gdr_mapping_type_counters) :
    Counted arch n l' := by
  obtain ⟨ms, hperm, hms⟩ := hm
  have hnew : ∀ m ∈ ms, m.ptr = l.fresh ∧ m.mapping_type = GDR_MAPPING_TYPE_NONE := by
    rcases hms with rfl | ⟨handle, rfl⟩
    · exact fun m hm => absurd hm List.not_mem_nil
    · intro m hm
      rw [List.mem_singleton.1 hm]
      exact ⟨rfl, rfl⟩
  have hnodup : (ms.map (·.ptr)).Nodup := by
    rcases hms with rfl | ⟨handle, rfl⟩
    · exact List.nodup_nil
    · exact List.nodup_singleton _
  refine ⟨hg, fun g hmem => hf ▸ hlt g hmem, ?_, fun m hmem => ?_, fun m hmem ht => ?_,
    fun t ht => ?_, by rw [hc]; exact h.none, fun t => by rw [hc]; exact h.bound t⟩
  · rw [(hperm.map _).nodup_iff, List.map_append]
    refine hnodup.append h.memhs fun x hx hx' => ?_
    obtain ⟨m, hm, rfl⟩ := List.mem_map.1 hx
    obtain ⟨m', hm', he⟩ := List.mem_map.1 hx'
    have hlt := h.memh_lt m' hm'
    rw [he, (hnew m hm).1] at hlt
    exact absurd hlt (Nat.lt_irrefl _)
  · rw [hf]
    rcases List.mem_append.1 (hperm.subset hmem) with hm | hm
    · rw [(hnew m hm).1]
      exact Nat.lt_succ_self _
    · exact Nat.lt_succ_of_lt (h.memh_lt m hm)
  · rcases List.mem_append.1 (hperm.subset hmem) with hm | hm
    · rw [(hnew m hm).2] at ht
      cases ht
    · exact h.granted m hm ht
  · have hzero : ms.countP (·.mapping_type == t) = 0 := by
      refine List.countP_eq_zero.2 fun m hm he => ?_
      rw [← beq_iff_eq.1 he, (hnew m hm).2] at ht
      cases ht
    rw [hc, Library.live, hperm.countP_eq, List.countP_append, hzero, Nat.zero_add]
    exact h.counted t ht

theorem Counted.open (h : Counted arch n l) (g : Option Gdr) : Counted arch n (l.gdr_open g).2 := by
  cases g with
  | none => exact h
  | some g =>
    refine h.grow (List.nodup_cons.2 ⟨fun hmem => ?_, h.gdrs⟩) (fun p hp => ?_) ⟨[], .refl _, .inl rfl⟩ rfl rfl
    · obtain ⟨p, hp, he⟩ := List.mem_map.1 hmem
      have hlt := h.gdr_lt p hp
      rw [he] at hlt
      exact absurd hlt (Nat.lt_irrefl _)
    · rcases List.mem_cons.1 hp with rfl | hp
      · exact Nat.lt_succ_self _
      · exact Nat.lt_succ_of_lt (h.gdr_lt p hp)

theorem Counted.insert (h : Counted arch n l) {p : Nat × Gdr} (hp : p ∈ l.gdrs) (handle : Nat) :
    Counted arch n (l.insert p.1 handle) := by
  have hkeys : ((l.insert p.1 handle).gdrs.map (·.1)) = l.gdrs.map (·.1) :=
    Tally.map_key_update (by exact fun _ => rfl) _ _
  refine h.grow (hkeys ▸ h.gdrs) (fun g hg => ?_) ⟨[⟨l.fresh, u32 handle, GDR_MAPPING_TYPE_NONE⟩], ?_,
    .inr ⟨_, rfl⟩⟩ rfl rfl
  · obtain ⟨g', hg', he⟩ := List.mem_map.1 (hkeys ▸ List.mem_map_of_mem hg : g.1 ∈ l.gdrs.map (·.1))
    rw [← he]
    exact Nat.lt_succ_of_lt (h.gdr_lt g' hg')
  · exact Tally.flatMap_update h.gdrs hp rfl

/-- A mapping stays only where there was none, with a type that the driver reported. -/
theorem mapOutcome_ok {version mapping_type t : Nat} {flags : Int} {a : MapAnswers}
    (h : mapOutcome version mapping_type flags a = .ok t) :
    gdr_is_mapped mapping_type = false ∧ gdr_is_mapped t = true ∧ ∃ info, a.get_info = .ok info ∧
    info.mapping_type = t := by
  unfold mapOutcome at h
  by_cases hm : gdr_is_mapped mapping_type = true
  · rw [if_pos hm] at h
    cases h
  rw [if_neg hm] at h
  cases hT : params_mapping_type flags with
  | none =>
    rw [hT] at h
    cases h
  | some T =>
    rw [hT] at h
    dsimp only at h
    split_ifs at h with hreq hmmap
    cases hinfo : a.get_info with
    | error status =>
      rw [hinfo] at h
      cases h
    | ok info =>
      rw [hinfo] at h
      dsimp only at h
      rcases @checkInfo_some flags T 0 info with ⟨e, hcheck, -⟩ | ⟨hcheck, hmapped, -⟩
      · rw [hcheck] at h
        cases h
      · rw [hcheck] at h
        obtain rfl := Except.ok.inj h
        exact ⟨by simpa using hm, hmapped, info, rfl, rfl⟩

/-- How many live handles have type `t'` once `m` has type `t`. -/
theorem live_setType (h : Counted arch n l) {m : Memh} (hm : m ∈ l.memhs) (t t' : Nat) :
    (l.setType m.ptr t).live t' + (if m.mapping_type == t' then 1 else 0) = l.live t' + if t == t' then 1 else 0 := by
  rw [Library.live, Library.memhs_setType]
  exact Tally.countP_update (fun m => m.mapping_type == t') h.memhs hm

/-- Writing `m->mapping_type` keeps all but the counts. -/
theorem Counted.setType (h : Counted arch n l) {m : Memh} {t n' : Nat} (ht : gdr_is_mapped t = true → Grants arch t)
    (hgdrs : l'.gdrs = (l.setType m.ptr t).gdrs) (hf : l'.fresh = l.fresh)
    (hcounted : ∀ t', gdr_is_mapped t' = true → (l'.live t' : Int) ≤ l'.gdr_mapping_type_counters t')
    (hnone : l'.gdr_mapping_type_counters GDR_MAPPING_TYPE_NONE = 0)
    (hbound : ∀ t', l'.gdr_mapping_type_counters t' ≤ n') :
    Counted arch n' l' := by
  have hmemhs : l'.memhs = Tally.update Memh.ptr m.ptr (fun m => { m with mapping_type := t }) l.memhs := by
    rw [← Library.memhs_setType, Library.memhs, Library.memhs, hgdrs]
  have hptrs : l'.memhs.map (·.ptr) = l.memhs.map (·.ptr) := by
    rw [hmemhs]
    exact Tally.map_key_update (by exact fun _ => rfl) _ _
  have haddrs : l'.gdrs.map (·.1) = l.gdrs.map (·.1) := by
    rw [hgdrs, Library.setType, List.map_map]
    rfl
  refine ⟨haddrs ▸ h.gdrs, fun g hg => ?_, hptrs ▸ h.memhs, fun x hx => ?_, fun x hx hxt => ?_, hcounted, hnone, hbound⟩
  · obtain ⟨g', hg', he⟩ := List.mem_map.1 (haddrs ▸ List.mem_map_of_mem hg : g.1 ∈ l.gdrs.map (·.1))
    rw [hf, ← he]
    exact h.gdr_lt g' hg'
  · obtain ⟨x', hx', he⟩ := List.mem_map.1 (hptrs ▸ List.mem_map_of_mem hx : x.ptr ∈ l.memhs.map (·.ptr))
    rw [hf, ← he]
    exact h.memh_lt x' hx'
  · rw [hmemhs] at hx
    rcases Tally.mem_update hx with hx | ⟨y, -, -, rfl⟩
    · exact h.granted x hx hxt
    · exact ht hxt

/-- `gdr_map_v2` counts a type and gives it to one handle that had none. -/
theorem Counted.map (h : Counted arch n l) {m : Memh} {t : Nat} (hm : m ∈ l.memhs)
    (hun : gdr_is_mapped m.mapping_type = false) (ht : gdr_is_mapped t = true) (hg : Grants arch t) :
    Counted arch (n + 1) ((l.setType m.ptr t).count t 1) := by
  have hcount : ∀ t', ((l.setType m.ptr t).count t 1).gdr_mapping_type_counters t' =
      l.gdr_mapping_type_counters t' + if t == t' then 1 else 0 := by
    intro t'
    by_cases he : t' = t
    · rw [he]
      simp [Library.count, Library.setType]
    · rw [if_neg (by simpa using Ne.symm he), add_zero]
      exact Function.update_of_ne he _ _
  refine h.setType (fun _ => hg) rfl rfl (fun t' ht' => ?_) ?_ fun t' => ?_
  · have hlive := live_setType h hm t t'
    have hne : ¬ (m.mapping_type == t') = true := by
      intro he
      rw [← beq_iff_eq.1 he, hun] at ht'
      cases ht'
    rw [if_neg hne] at hlive
    have hlive : ((l.setType m.ptr t).count t 1).live t' = l.live t' + if t == t' then 1 else 0 := hlive
    have := h.counted t' ht'
    rw [hcount, hlive]
    push_cast
    split <;> omega
  · rw [hcount, h.none, if_neg]
    · rfl
    · intro he
      rw [beq_iff_eq.1 he] at ht
      cases ht
  · have := h.bound t'
    rw [hcount]
    push_cast
    split <;> omega

/-- `gdr_unmap` takes the type from one handle that has it, and counts it down. -/
theorem Counted.unmap (h : Counted arch n l) {m : Memh} (hm : m ∈ l.memhs) (ht : gdr_is_mapped m.mapping_type = true) :
    Counted arch n ((l.count m.mapping_type (-1)).setType m.ptr GDR_MAPPING_TYPE_NONE) := by
  have hcount : ∀ t', ((l.count m.mapping_type (-1)).setType m.ptr GDR_MAPPING_TYPE_NONE).gdr_mapping_type_counters t' =
      l.gdr_mapping_type_counters t' - if m.mapping_type == t' then 1 else 0 := by
    intro t'
    by_cases he : t' = m.mapping_type
    · rw [he]
      simp [Library.count, Library.setType, sub_eq_add_neg]
    · rw [if_neg (by simpa using Ne.symm he), sub_zero]
      exact Function.update_of_ne he _ _
  refine h.setType (fun he => (by cases he)) rfl rfl (fun t' ht' => ?_) ?_ fun t' => ?_
  · have hlive := live_setType h hm GDR_MAPPING_TYPE_NONE t'
    have hne : ¬ (GDR_MAPPING_TYPE_NONE == t') = true := by
      intro he
      rw [← beq_iff_eq.1 he] at ht'
      cases ht'
    rw [if_neg hne] at hlive
    have hlive : ((l.count m.mapping_type (-1)).setType m.ptr GDR_MAPPING_TYPE_NONE).live t' +
        (if m.mapping_type == t' then 1 else 0) = l.live t' := hlive
    have := h.counted t' ht'
    rw [hcount]
    split <;> split at hlive <;> omega
  · rw [hcount, h.none, if_neg]
    · rfl
    · intro he
      rw [beq_iff_eq.1 he] at ht
      cases ht
  · have := h.bound t'
    rw [hcount]
    split <;> omega

theorem Counted.mono (h : Counted arch n l) {n' : Nat} (hle : n ≤ n') : Counted arch n' l :=
  ⟨h.gdrs, h.gdr_lt, h.memhs, h.memh_lt, h.granted, h.counted, h.none, fun t => (h.bound t).trans (Int.ofNat_le.2 hle)⟩

theorem Counted.gdr_map_v2 (h : Counted arch n l) (g : Gdr) {m : Memh} (hm : m ∈ l.memhs) {flags : Int} {a : MapAnswers}
    (ha : ∀ info, a.get_info = .ok info → gdr_is_mapped info.mapping_type = true → Grants arch info.mapping_type) :
    Counted arch (n + 1) (l.gdr_map_v2 g m flags a).2 := by
  unfold Library.gdr_map_v2
  cases hout : mapOutcome g.gdrdrv_version m.mapping_type flags a with
  | error status => exact h.mono (Nat.le_succ n)
  | ok t =>
    obtain ⟨hun, ht, info, hinfo, rfl⟩ := mapOutcome_ok hout
    exact h.map hm hun ht (ha info hinfo ht)

theorem Counted.gdr_unmap (h : Counted arch n l) {m : Memh} (hm : m ∈ l.memhs) (munmap : Int) :
    Counted arch n (l.gdr_unmap m munmap).2 := by
  unfold Library.gdr_unmap
  by_cases hmapped : gdr_is_mapped m.mapping_type = true
  swap
  · rw [if_pos (by simp [hmapped])]
    exact h
  rw [if_neg (by simp [hmapped])]
  by_cases hmunmap : munmap ≠ 0
  · rw [if_pos hmunmap]
    exact h
  · rw [if_neg hmunmap]
    exact h.unmap hm hmapped

theorem Counted.step {c : Cpu} {k : LibCall} (h : Counted c.arch n l) (hk : k.Granted c.arch)
    (hs : Library.Step c l k l') :
    Counted c.arch (n + if k.maps then 1 else 0) l' := by
  obtain ⟨ret, t, hrun⟩ := hs
  have copies : ∀ {mh : Nat} {f : Memh → Option (Int × List Instr)}, ((l.memhs.find? (·.ptr = mh)).bind fun m =>
      (f m).bind fun r => some (r.1, r.2, l)) = some (ret, t, l') → l' = l := by
    intro mh f h
    obtain ⟨m, -, h⟩ := Option.bind_eq_some_iff.1 h
    obtain ⟨r, -, h⟩ := Option.bind_eq_some_iff.1 h
    cases h
    rfl
  cases k with
  | openGdr g =>
    cases hrun
    exact h.open g
  | pin_buffer g answer =>
    obtain ⟨p, hp, hrun⟩ := Option.map_eq_some_iff.1 hrun
    cases hrun
    obtain ⟨q, hq, -⟩ := Option.map_eq_some_iff.1 hp
    cases answer with
    | error status => exact h
    | ok handle =>
      obtain rfl : q.1 = g := by simpa using List.find?_some hq
      exact h.insert (List.mem_of_find?_eq_some hq) handle
  | map_v2 g mh flags a =>
    obtain ⟨p, -, hrun⟩ := Option.bind_eq_some_iff.1 hrun
    obtain ⟨m, hm, hrun⟩ := Option.bind_eq_some_iff.1 hrun
    cases hrun
    exact h.gdr_map_v2 p (List.mem_of_find?_eq_some hm) hk
  | unmap mh munmap =>
    obtain ⟨m, hm, hrun⟩ := Option.map_eq_some_iff.1 hrun
    cases hrun
    exact h.gdr_unmap (List.mem_of_find?_eq_some hm) munmap
  | unpin_buffer mh status =>
    obtain ⟨m, -, hrun⟩ := Option.map_eq_some_iff.1 hrun
    cases hrun
    exact h.free m.ptr
  | closeGdr g unpin close =>
    obtain ⟨p, -, hrun⟩ := Option.map_eq_some_iff.1 hrun
    cases hrun
    exact h.close g p unpin close
  | copy_to_mapping mh map_d_ptr h_ptr size => exact copies hrun ▸ h
  | copy_from_mapping mh h_ptr map_d_ptr size => exact copies hrun ▸ h

theorem Library.Run.counted {c : Cpu} {ks : List LibCall} (h : Library.Run c l ks) :
    Counted c.arch (ks.countP (·.maps)) l := by
  induction h with
  | start h =>
    rw [h]
    have none : ∀ {α : Type} {p : α → Prop}, ∀ x ∈ ([] : List α), p x := fun x hx => absurd hx List.not_mem_nil
    exact ⟨List.nodup_nil, none, List.nodup_nil, none, none, fun _ _ => Int.le_refl _, rfl, fun _ => Int.le_refl _⟩
  | next _ ht ih =>
    rw [List.countP_append, List.countP_singleton]
    exact ih.step ht.1 ht.2

/-! ## The fences -/

/-- The last instruction is this fence. -/
def Ends (f : Fence) (t : List Instr) : Prop := ∃ accesses, t = accesses ++ [.fence f]

theorem Counted.live_pos (h : Counted arch n l) {m : Memh} (hm : m ∈ l.memhs)
    (ht : gdr_is_mapped m.mapping_type = true) :
    0 < l.gdr_mapping_type_counters m.mapping_type := by
  have hpos : 0 < l.live m.mapping_type := List.countP_pos_iff.2 ⟨m, hm, beq_self_eq_true _⟩
  have := h.counted m.mapping_type ht
  omega

theorem Grants.lt {arch : Arch} {t : Nat} (h : Grants arch t) : t < GDR_MAPPING_TYPE_MAX := by
  cases arch with
  | x86 =>
    have h : t = GDR_MAPPING_TYPE_WC := h
    rw [h]
    decide
  | _ => exact h

/-- While two types are mapped the counters show it, and the platform is not x86. -/
theorem Counted.mixed (h : Counted arch n l) (hmix : l.Mixed) :
    gdr_has_mix_mapping l.gdr_mapping_type_counters = true ∧ arch ≠ .x86 := by
  obtain ⟨m, hm, m', hm', ht, ht', hne⟩ := hmix
  have hg := h.granted m hm ht
  have hg' := h.granted m' hm' ht'
  constructor
  · have hcounts : ∀ {x : Memh}, x ∈ l.memhs → gdr_is_mapped x.mapping_type = true →
        (l.gdr_mapping_type_counters x.mapping_type != 0) = true := by
      intro x hx hxt
      have := h.live_pos hx hxt
      simpa using (by omega : l.gdr_mapping_type_counters x.mapping_type ≠ 0)
    exact decide_eq_true (Tally.two_le_countP (List.mem_range.2 hg.lt) (List.mem_range.2 hg'.lt) hne
      (hcounts hm ht) (hcounts hm' ht'))
  · rintro rfl
    exact hne ((hg : m.mapping_type = GDR_MAPPING_TYPE_WC).trans (hg' : m'.mapping_type = GDR_MAPPING_TYPE_WC).symm)

/-- `do_fence` adds a full fence if types are mixed, and at least a store fence if the mapping is write-combining. -/
theorem storeFence_ends (counters : Nat → Int) (wc_mapping : Bool) (t : List Instr) :
    (gdr_has_mix_mapping counters = true → Ends .memory_fence (t ++ storeFence counters wc_mapping)) ∧
      (wc_mapping = true → ∃ f, Ends f (t ++ storeFence counters wc_mapping)) := by
  unfold storeFence
  by_cases hmix : gdr_has_mix_mapping counters = true
  · rw [if_pos hmix]
    exact ⟨fun _ => ⟨t, rfl⟩, fun _ => ⟨_, t, rfl⟩⟩
  · rw [if_neg hmix]
    refine ⟨fun h => absurd h hmix, fun hwc => ?_⟩
    rw [if_pos hwc]
    exact ⟨_, t, rfl⟩

/-- Every path of the copy to a mapping ends in its fence. The SIMD routines bring their own,
and are for x86 only. -/
theorem copy_to_ends {c : Cpu} {counters : Nat → Int} {d s size mapping_type : Nat} {t : List Instr}
    (h : gdr_copy_to_mapping_internal c counters d s size mapping_type = some t) :
    (c.arch ≠ .x86 → gdr_has_mix_mapping counters = true → Ends .memory_fence t) ∧
      (mapping_type = GDR_MAPPING_TYPE_WC → ∃ f, Ends f t) := by
  have fenced : ∀ {u : List Instr}, some (u ++ storeFence counters (mapping_type == GDR_MAPPING_TYPE_WC)) = some t →
      (c.arch ≠ .x86 → gdr_has_mix_mapping counters = true → Ends .memory_fence t) ∧
        (mapping_type = GDR_MAPPING_TYPE_WC → ∃ f, Ends f t) := by
    intro u hu
    obtain rfl := Option.some.inj hu
    exact ⟨fun _ => (storeFence_ends counters _ u).1, fun hwc => (storeFence_ends counters _ u).2 (beq_iff_eq.2 hwc)⟩
  have simd : ∀ {u : List Instr} {bit : Bool}, (c.arch == .x86 && bit) = true →
      (if mapping_type == GDR_MAPPING_TYPE_WC then some (u ++ [.fence ._mm_sfence]) else none) = some t →
      (c.arch ≠ .x86 → gdr_has_mix_mapping counters = true → Ends .memory_fence t) ∧
        (mapping_type = GDR_MAPPING_TYPE_WC → ∃ f, Ends f t) := by
    intro u bit hflag hu
    split at hu
    · obtain rfl := Option.some.inj hu
      exact ⟨fun hx => absurd (beq_iff_eq.1 ((Bool.and_eq_true _ _).mp hflag).1) hx, fun _ => ⟨_, u, rfl⟩⟩
    · cases hu
  unfold gdr_copy_to_mapping_internal at h
  cases hsmall : smallStore d s size with
  | some u =>
    rw [hsmall] at h
    exact fenced h
  | none =>
    rw [hsmall] at h
    dsimp only at h
    by_cases havx : c.has_avx = true
    · rw [if_pos havx] at h
      exact simd havx h
    rw [if_neg havx] at h
    by_cases hsse : c.has_sse = true
    · rw [if_pos hsse] at h
      exact simd hsse h
    rw [if_neg hsse] at h
    split_ifs at h with h8 h4 hdev
    · obtain ⟨u, -, hu⟩ := Option.map_eq_some_iff.1 h
      exact fenced (congrArg some hu)
    · obtain ⟨u, -, hu⟩ := Option.map_eq_some_iff.1 h
      exact fenced (congrArg some hu)
    · exact fenced h
    · exact fenced h

theorem copy_from_ends {c : Cpu} {counters : Nat → Int} {d s size mapping_type : Nat} {t : List Instr}
    (h : gdr_copy_from_mapping_internal c counters d s size mapping_type = some t)
    (hmix : gdr_has_mix_mapping counters = true) :
    Ends .memory_fence t := by
  obtain ⟨u, -, hu⟩ := Option.map_eq_some_iff.1 h
  rw [if_pos hmix] at hu
  exact ⟨u, hu.symm⟩

/-- In every run of fewer than `2 ^ 31` calls of `gdr_map_v2`, the counters stay within an `int` and never
fall below the live mappings. Every copy to or from a mapped handle runs to its end; while
two types are mapped it ends in a full fence, and a copy to a write-combining mapping always ends in a fence. -/
theorem copies_fenced {c : Cpu} {ks : List LibCall} (h : Library.Run c l ks) (hn : ks.countP (·.maps) < 2 ^ 31) :
    (∀ t, gdr_is_mapped t = true → (l.live t : Int) ≤ l.gdr_mapping_type_counters t ∧
      l.gdr_mapping_type_counters t < 2 ^ 31) ∧
    ∀ m ∈ l.memhs, gdr_is_mapped m.mapping_type = true → ∀ map_d_ptr h_ptr size, 0 < size →
      (∃ t, gdr_copy_to_mapping c l.gdr_mapping_type_counters m map_d_ptr h_ptr size = some (0, t) ∧
        (l.Mixed → Ends .memory_fence t) ∧ (m.mapping_type = GDR_MAPPING_TYPE_WC → ∃ f, Ends f t)) ∧
      ∃ t, gdr_copy_from_mapping c l.gdr_mapping_type_counters m h_ptr map_d_ptr size = some (0, t) ∧
        (l.Mixed → Ends .memory_fence t) := by
  have hc := h.counted
  refine ⟨fun t ht => ⟨hc.counted t ht, ?_⟩, fun m hm ht map_d_ptr h_ptr size hsize => ?_⟩
  · have := hc.bound t
    omega
  have hx : c.arch = .x86 → m.mapping_type = GDR_MAPPING_TYPE_WC := by
    intro harch
    have hg := hc.granted m hm ht
    rw [harch] at hg
    exact hg
  obtain ⟨t, ht', -⟩ := copy_to_internal hx l.gdr_mapping_type_counters map_d_ptr h_ptr size
  obtain ⟨u, hu, -⟩ := copy_from_internal hx l.gdr_mapping_type_counters h_ptr map_d_ptr size
  have hto := copy_to_ends ht'
  refine ⟨⟨t, ?_, fun hmix => hto.1 (hc.mixed hmix).2 (hc.mixed hmix).1, hto.2⟩, u, ?_, fun hmix =>
    copy_from_ends hu (hc.mixed hmix).1⟩
  · rw [gdr_copy_to_mapping, if_neg (by simp [ht]), if_neg (Nat.ne_of_gt hsize), ht']
    rfl
  · rw [gdr_copy_from_mapping, if_neg (by simp [ht]), if_neg (Nat.ne_of_gt hsize), hu]
    rfl

end

/-! ## Two types at once -/

def arm : Cpu := ⟨.arm64, false, false, false⟩

def mapAs (t : Nat) : MapAnswers := ⟨0, 0, .ok ⟨0, 0, 0, 0, 0, true, true, t⟩⟩

/-- Two handles, mapped with two types. -/
def mapTwo : List LibCall :=
  [.openGdr (some ⟨3, [], 0x10000, 16, 0x20005⟩), .pin_buffer 0 (.ok 0),
   .map_v2 0 1 GDR_MAP_FLAG_REQ_WC_MAPPING (mapAs GDR_MAPPING_TYPE_WC),
   .pin_buffer 0 (.ok 1), .map_v2 0 2 GDR_MAP_FLAG_REQ_CACHE_MAPPING (mapAs GDR_MAPPING_TYPE_CACHING)]

theorem Library.Run.call {c : Cpu} {l : Library} {ks : List LibCall} {k : LibCall} (h : Library.Run c l ks)
    (hk : k.Granted c.arch) {r : Int × List Instr × Library} (hrun : k.run c l = some r) :
    Library.Run c r.2.2 (ks ++ [k]) :=
  .next h ⟨hk, r.1, r.2.1, hrun⟩

theorem mapAs_granted {g mh t : Nat} {flags : Int} (h : t < GDR_MAPPING_TYPE_MAX) :
    (LibCall.map_v2 g mh flags (mapAs t)).Granted arm.arch := by
  rintro info he -
  cases he
  exact h

/-- The second mapping of `mapTwo` makes a copy through the first one end in a full fence. -/
theorem copies_fenced_mapTwo : ∃ l, Library.Run arm l mapTwo ∧ ∃ t,
    gdr_copy_to_mapping arm l.gdr_mapping_type_counters ⟨1, 0, GDR_MAPPING_TYPE_WC⟩ 0x1003 0x2001 100 = some (0, t) ∧
    Ends .memory_fence t := by
  have h0 : Library.Run arm _ [] := .start rfl
  have h1 := h0.call (k := .openGdr (some ⟨3, [], 0x10000, 16, 0x20005⟩)) trivial rfl
  have h2 := h1.call (k := .pin_buffer 0 (.ok 0)) trivial rfl
  have h3 := h2.call (@mapAs_granted 0 1 GDR_MAPPING_TYPE_WC GDR_MAP_FLAG_REQ_WC_MAPPING (by decide)) rfl
  have h4 := h3.call (k := .pin_buffer 0 (.ok 1)) trivial rfl
  have h5 : Library.Run arm _ mapTwo := h4.call
    (@mapAs_granted 0 2 GDR_MAPPING_TYPE_CACHING GDR_MAP_FLAG_REQ_CACHE_MAPPING (by decide)) rfl
  refine ⟨_, h5, ?_⟩
  obtain ⟨⟨t, ht, hend, -⟩, -⟩ := (copies_fenced h5 (by decide)).2 ⟨1, 0, GDR_MAPPING_TYPE_WC⟩ (by decide) rfl
    0x1003 0x2001 100 (by decide)
  exact ⟨t, ht, hend ⟨⟨1, 0, GDR_MAPPING_TYPE_WC⟩, by decide,
    ⟨2, 1, GDR_MAPPING_TYPE_CACHING⟩, by decide, rfl, rfl, by decide⟩⟩

end gdrapi
