import Mathlib.Data.List.Nodup
import GdrCopy.Driver.Pinning
/-!
# Partial unmaps and forks

`Kernel.lean` unmaps whole VMAs. A process may also unmap some of the host pages
of a VMA. Linux then splits it without calling the driver, as `gdrdrv_vm_ops`
has no `.open`, and calls `.close` on the piece that goes. A fork copies VMAs
without calling the driver either. `SysRun` are the runs of the driver among
these. An mr may be left pointing to a VMA that is gone, and `Step` ends there;
here the driver goes on with whatever it reads.
-/

namespace gdrdrv

section
variable (P : Platform)

/-- The host pages of `v` from `a` up to `b`, as a VMA of its own. -/
def Vma.piece (v : Vma) (id a b : Nat) : Vma :=
  { v with
    id := id, vm_start := v.vm_start + a * P.PAGE_SIZE, vm_end := v.vm_start + b * P.PAGE_SIZE, vm_pgoff :=
      v.vm_pgoff + a,
    ptes := v.ptes.filter fun p => v.vm_start + a * P.PAGE_SIZE ≤ p.vaddr ∧ p.vaddr < v.vm_start + b * P.PAGE_SIZE }

/-- The part of a `munmap` that falls on `vma`: its host pages from `a` up to `b`. -/
structure Cut where
  vma : Vma
  a : Nat
  b : Nat
  inPlace : Bool

def Cut.Fits (c : Cut) : Prop := c.a < c.b ∧ c.b ≤ c.vma.pages P

/-- Linux: what stays of the VMA. With `inPlace` its structure goes to the piece that is
unmapped; otherwise to the one before it, if there is one, or else to the one after. -/
def Cut.stays (c : Cut) (fresh : Nat) : List Vma :=
  (if 0 < c.a then [c.vma.piece P (if c.inPlace then fresh else c.vma.id) 0 c.a] else []) ++
    if c.b < c.vma.pages P then
      [c.vma.piece P (if c.inPlace = true ∨ 0 < c.a then fresh + 1 else c.vma.id) c.b (c.vma.pages P)]
    else []

def Cut.goes (c : Cut) (fresh : Nat) : Vma :=
  c.vma.piece P (if c.inPlace = true ∨ (c.a = 0 ∧ c.b = c.vma.pages P) then c.vma.id else fresh) c.a c.b

def Cut.apply (c : Cut) (fresh : Nat) (vmas : List Vma) : List Vma :=
  vmas.flatMap fun w => if w.id = c.vma.id then c.stays P fresh else [w]

/-- What stays of `vmas` after the cuts, and the pieces that go. -/
def cutAll : List Cut → Nat → List Vma → List Vma
  | [], _, vmas => vmas
  | c :: cs, fresh, vmas => cutAll cs (fresh + 2) (c.apply P fresh vmas)

def goneAll : List Cut → Nat → List Vma
  | [], _ => []
  | c :: cs, fresh => c.goes P fresh :: goneAll cs (fresh + 2)

/-- Linux: one `munmap`. All the pieces go with their translations, then `.close` runs on each. -/
def sysMunmapRange (s : Kernel) (cs : List Cut) : Kernel :=
  (goneAll P cs s.fresh).foldl gdrdrv_vma_close
    { s with vmas := cutAll P cs s.fresh s.vmas, fresh := s.fresh + 2 * cs.length }

/-- Linux: `fork` copies the parent's VMAs, but for those marked `VM_DONTCOPY`. -/
def sysFork (s : Kernel) (parent : Nat → Bool) : Kernel :=
  let copied := s.vmas.filter fun v => parent v.id && !v.VM_DONTCOPY
  { s with vmas := s.vmas ++ copied.zipIdx.map fun p => { p.1 with id := s.fresh + p.2 }, fresh := s.fresh + copied.length }

/-- What can happen to the driver and to the address spaces that map its files. -/
inductive SysOp where
  | op (o : Op)
  | stale (o : Op) (vma : Vma)
  | munmapRange (cs : List Cut)
  | fork (parent : Nat → Bool)

/-- The call of the driver that it makes. -/
def SysOp.call : SysOp → Option Op
  | .op o => some o
  | .stale o _ => some o
  | _ => none

/-- The state as the driver sees it when the memory of a freed VMA reads as `vma`. -/
def Kernel.withStale (s : Kernel) (vma : Vma) : Kernel := { s with vmas := vma :: s.vmas }

def Kernel.dropStale (s : Kernel) (vma : Vma) : Kernel := { s with vmas := s.vmas.filter fun v => v.id ≠ vma.id }

inductive SysStep : Kernel → SysOp → Kernel → Prop
  | op {s o s'} : step P s o s' → SysStep s (.op o) s'
  | stale {s o vma s'} : (∀ v ∈ s.vmas, v.id ≠ vma.id) → step P (s.withStale vma) o s' →
    SysStep s (.stale o vma) (s'.dropStale vma)
  | munmapRange {s cs} : (∀ c ∈ cs, c.vma ∈ s.vmas ∧ c.Fits P) → (cs.map (·.vma.id)).Nodup →
    SysStep s (.munmapRange cs) (sysMunmapRange P s cs)
  | fork {s parent} : SysStep s (.fork parent) (sysFork s parent)

abbrev SysRun := Runs.Run (· = init) (SysStep P)

variable {P}

/-! ## The files -/

theorem vma_close_files (s : Kernel) (v : Vma) :
    (gdrdrv_vma_close s v).files = match s.lookup v.vm_file v.vm_pgoff with
      | none => s.files
      | some r => Function.update s.files v.vm_file (some (r.1.put (closeMr r.2))) := by
  unfold gdrdrv_vma_close Kernel.lookup gdrdrv_handle_from_off
  cases hf : s.files v.vm_file with
  | none => rfl
  | some info => cases hs : gdr_mr_from_handle_unlocked info v.vm_pgoff <;> simp [hs, Kernel.setFile]

theorem vma_close_rest (s : Kernel) (v : Vma) :
    (gdrdrv_vma_close s v).vmas = s.vmas ∧ (gdrdrv_vma_close s v).fresh = s.fresh := by
  unfold gdrdrv_vma_close
  split
  · exact ⟨rfl, rfl⟩
  · split <;> exact ⟨rfl, rfl⟩

theorem closes_rest (gone : List Vma) (s : Kernel) :
    (gone.foldl gdrdrv_vma_close s).vmas = s.vmas ∧ (gone.foldl gdrdrv_vma_close s).fresh = s.fresh := by
  induction gone generalizing s with
  | nil => exact ⟨rfl, rfl⟩
  | cons g gone ih =>
    obtain ⟨h1, h2⟩ := ih (gdrdrv_vma_close s g)
    obtain ⟨h3, h4⟩ := vma_close_rest s g
    exact ⟨h1.trans h3, h2.trans h4⟩

theorem FilesOk.vma_close {s : Kernel} (h : FilesOk P s.files s.fresh) (v : Vma) :
    FilesOk P (gdrdrv_vma_close s v).files (gdrdrv_vma_close s v).fresh := by
  rw [vma_close_files, (vma_close_rest s v).2]
  cases hl : s.lookup v.vm_file v.vm_pgoff with
  | none => exact h
  | some r =>
    obtain ⟨info, mr⟩ := r
    obtain ⟨hf, hm, -⟩ := search_listed hl
    exact h.put hf hm rfl rfl rfl (h.mr hf hm).closeMr

theorem FilesOk.closes {s : Kernel} (h : FilesOk P s.files s.fresh) (gone : List Vma) :
    FilesOk P (gone.foldl gdrdrv_vma_close s).files (gone.foldl gdrdrv_vma_close s).fresh := by
  induction gone generalizing s with
  | nil => exact h
  | cons g gone ih => exact ih (h.vma_close g)

/-- Addresses are not used twice. -/
theorem Does.fresh_le {s s' : Kernel} {e : Event} (hd : Does P s e s') : s.fresh ≤ s'.fresh := by
  cases hd <;> omega

theorem path_fresh_le {s s' : Kernel} {es : List Event} (hp : Runs.Path (Does P) s es s') : s.fresh ≤ s'.fresh := by
  induction hp with
  | nil => exact Nat.le_refl _
  | cons hd _ ih => exact Nat.le_trans hd.fresh_le ih

theorem step_fresh_le {s s' : Kernel} {o : Op} (h : FilesOk P s.files s.fresh) (ht : step P s o s') :
    s.fresh ≤ s'.fresh := by
  obtain ⟨es, hp, -⟩ := step_path h ht
  exact path_fresh_le hp

theorem step_filesOk {s s' : Kernel} {o : Op} (h : FilesOk P s.files s.fresh) (ht : step P s o s') :
    FilesOk P s'.files s'.fresh := by
  obtain ⟨es, hp, -⟩ := step_path h ht
  clear ht
  induction hp with
  | nil => exact h
  | cons hd _ ih => exact ih (hd.filesOk h)

/-! ## The VMA structures -/

/-- Every VMA whose structure is in `q` has it for itself, and it is in use. -/
structure Kernel.Structures (s : Kernel) (q : Nat → Bool) : Prop where
  lt : ∀ v ∈ s.vmas, q v.id = true → v.id < s.fresh
  apart : ((s.vmas.map (·.id)).filter q).Nodup

theorem Pruned.ids {vmas vmas' : List Vma} (h : Pruned vmas vmas') : vmas'.map (·.id) = vmas.map (·.id) := by
  obtain ⟨keep, rfl⟩ := h
  rw [List.map_map]
  rfl

/-- An event takes VMAs away or adds one with a new structure. -/
theorem Does.ids {s s' : Kernel} {e : Event} (hd : Does P s e s') :
    (s'.vmas.map (·.id)).Sublist (s.vmas.map (·.id)) ∨
      (s'.vmas.map (·.id) = s.fresh :: s.vmas.map (·.id) ∧ s'.fresh = s.fresh + 1) := by
  have pruned (hp : Pruned s.vmas s'.vmas) : (s'.vmas.map (·.id)).Sublist (s.vmas.map (·.id)) := by
    rw [hp.ids]
  have same (hv : s'.vmas = s.vmas) : (s'.vmas.map (·.id)).Sublist (s.vmas.map (·.id)) := by
    rw [hv]
  cases hd with
  | quiet _ hv _ => exact .inl (same hv)
  | opened _ hv _ => exact .inl (same hv)
  | linked _ _ _ _ hv _ => exact .inl (same hv)
  | unlinked _ _ hz _ _ => exact .inl (pruned (zapIfMapped_pruned hz))
  | requested _ _ _ hv _ => exact .inl (same hv)
  | refused _ _ _ hv _ => exact .inl (same hv)
  | mapped _ _ _ _ _ _ hnew _ hv hfr => exact .inr ⟨by rw [hv, List.map_cons, hnew.id], hfr⟩
  | closed _ _ hv _ =>
    left
    rw [hv]
    exact List.filter_sublist.map _
  | invalidated _ _ hz _ _ =>
    left
    split at hz
    · exact pruned (zapIfMapped_pruned hz)
    · exact pruned ((Prod.mk.inj (Except.ok.inj hz)).2 ▸ .refl _)
  | shut _ _ _ hv _ => exact .inl (same hv)

theorem Does.structures {s s' : Kernel} {e : Event} {q : Nat → Bool} (h : s.Structures q) (hd : Does P s e s') :
    s'.Structures q := by
  have hlt (i : Nat) (hi : i ∈ s.vmas.map (·.id)) (hq : q i = true) : i < s.fresh := by
    obtain ⟨v, hv, rfl⟩ := List.mem_map.1 hi
    exact h.lt v hv hq
  have hle := hd.fresh_le
  rcases hd.ids with hsub | ⟨hids, hfresh⟩
  · exact ⟨fun v hv hq => Nat.lt_of_lt_of_le (hlt _ (hsub.subset (List.mem_map_of_mem hv)) hq) hle,
      h.apart.sublist (hsub.filter q)⟩
  · constructor
    · intro v hv hq
      have hmem : v.id ∈ s.fresh :: s.vmas.map (·.id) := hids ▸ List.mem_map_of_mem hv
      rcases List.mem_cons.1 hmem with he | hm
      · omega
      · exact Nat.lt_of_lt_of_le (hlt _ hm hq) hle
    · rw [hids, List.filter_cons]
      split
      · -- the new structure is none of those in use
        refine List.nodup_cons.2 ⟨fun hm => ?_, h.apart⟩
        obtain ⟨hm, hq⟩ := List.mem_filter.1 hm
        exact Nat.lt_irrefl _ (hlt _ hm hq)
      · exact h.apart

theorem step_structures {s s' : Kernel} {o : Op} {q : Nat → Bool} (hok : FilesOk P s.files s.fresh) (h : s.Structures q)
    (ht : step P s o s') : s'.Structures q := by
  obtain ⟨es, hp, -⟩ := step_path hok ht
  clear ht hok
  induction hp with
  | nil => exact h
  | cons hd _ ih => exact ih (hd.structures h)

/-- A piece that stays has the old structure or one of two new ones, and no two have the same. -/
theorem Cut.stays_ids {c : Cut} {fresh : Nat} (hid : c.vma.id < fresh) :
    (∀ w ∈ c.stays P fresh, w.id = c.vma.id ∨ w.id = fresh ∨ w.id = fresh + 1) ∧
    ((c.stays P fresh).map (·.id)).Nodup := by
  have hne : c.vma.id ≠ fresh + 1 := Nat.ne_of_lt (Nat.lt_succ_of_lt hid)
  unfold Cut.stays
  cases c.inPlace <;> split_ifs <;> simp_all [Vma.piece]

theorem Cut.apply_ids {c : Cut} {fresh : Nat} {vmas : List Vma} (hid : c.vma.id < fresh)
    (hlt : ∀ w ∈ vmas, w.id < fresh) (hnd : (vmas.map (·.id)).Nodup) :
    (∀ w ∈ c.apply P fresh vmas, w.id < fresh + 2) ∧ ((c.apply P fresh vmas).map (·.id)).Nodup := by
  obtain ⟨hstays, hstaysNd⟩ := @Cut.stays_ids P c fresh hid
  have hin {x w : Vma} (hw : w ∈ if x.id = c.vma.id then c.stays P fresh else [x]) : w.id = x.id ∨
      x.id = c.vma.id ∧ fresh ≤ w.id ∧ w.id < fresh + 2 := by
    by_cases hx : x.id = c.vma.id
    · rw [if_pos hx] at hw
      have := hstays w hw
      omega
    · rw [if_neg hx] at hw
      exact .inl (by rw [List.mem_singleton.1 hw])
  constructor
  · intro w hw
    obtain ⟨x, hx, hw⟩ := List.mem_flatMap.1 hw
    have hxlt := hlt x hx
    have := hin hw
    omega
  · rw [Cut.apply, List.map_flatMap, List.nodup_flatMap]
    constructor
    · intro x _
      split
      · exact hstaysNd
      · exact List.nodup_singleton _
    · have hpair : vmas.Pairwise fun x y => x.id ≠ y.id := List.pairwise_map.1 hnd
      refine hpair.imp_of_mem fun {x y} hx hy hne => ?_
      simp only [Function.onFun, List.disjoint_left, List.mem_map, not_exists, not_and]
      rintro i ⟨w, hw, rfl⟩ z hz he
      have hxlt := hlt x hx
      have hylt := hlt y hy
      have h1 := hin hw
      have h2 := hin hz
      omega

theorem cutAll_ids {cs : List Cut} {fresh : Nat} {vmas : List Vma} (hcs : ∀ c ∈ cs, c.vma.id < fresh)
    (hlt : ∀ w ∈ vmas, w.id < fresh) (hnd : (vmas.map (·.id)).Nodup) :
    (∀ w ∈ cutAll P cs fresh vmas, w.id < fresh + 2 * cs.length) ∧ ((cutAll P cs fresh vmas).map (·.id)).Nodup := by
  induction cs generalizing fresh vmas with
  | nil => exact ⟨hlt, hnd⟩
  | cons c cs ih =>
    obtain ⟨hlt', hnd'⟩ := @Cut.apply_ids P c fresh vmas (hcs c List.mem_cons_self) hlt hnd
    have hrest :=
      ih (fun d hd => Nat.lt_of_lt_of_le (hcs d (List.mem_cons_of_mem _ hd)) (Nat.le_add_right _ _)) hlt' hnd'
    rw [List.length_cons, Nat.mul_succ, Nat.add_comm _ 2, ← Nat.add_assoc]
    exact hrest

theorem SysStep.fresh_le {s s' : Kernel} {o : SysOp} (h : FilesOk P s.files s.fresh) (hs : SysStep P s o s') :
    s.fresh ≤ s'.fresh := by
  cases hs with
  | op ht => exact step_fresh_le h ht
  | stale _ ht =>
    have hle := step_fresh_le (s := s.withStale _) h ht
    exact hle
  | munmapRange hcs hd =>
    rw [sysMunmapRange, (closes_rest _ _).2]
    exact Nat.le_add_right _ _
  | fork => exact Nat.le_add_right _ _

theorem sysMunmapRange_filesOk {s : Kernel} (h : FilesOk P s.files s.fresh) (cs : List Cut) :
    FilesOk P (sysMunmapRange P s cs).files (sysMunmapRange P s cs).fresh := by
  unfold sysMunmapRange
  refine FilesOk.closes ?_ _
  exact h.mono (Nat.le_add_right _ _)

theorem SysStep.filesOk {s s' : Kernel} {o : SysOp} (h : FilesOk P s.files s.fresh) (hs : SysStep P s o s') :
    FilesOk P s'.files s'.fresh := by
  cases hs with
  | op ht => exact step_filesOk h ht
  | stale _ ht =>
    have hok := step_filesOk (s := s.withStale _) h ht
    exact hok
  | munmapRange hcs hd => exact sysMunmapRange_filesOk h _
  | fork => exact h.mono (Nat.le_add_right _ _)

/-- The files are well formed in every state reached, although the VMAs split. -/
theorem SysRun.filesOk {s : Kernel} {os : List SysOp} (h : SysRun P s os) : FilesOk P s.files s.fresh := by
  refine h.inv (fun s => FilesOk P s.files s.fresh) ?_ fun s o s' hs ht => ht.filesOk hs
  rintro s rfl
  exact ⟨nofun, nofun, nofun, nofun⟩

/-- Every VMA has a structure for itself, and it is in use. -/
abbrev Kernel.OwnStructures (s : Kernel) : Prop := s.Structures fun _ => true

theorem Kernel.OwnStructures.id {s : Kernel} (h : s.OwnStructures) : ∀ w ∈ s.vmas, w.id < s.fresh :=
  fun w hw => h.lt w hw rfl

theorem Kernel.OwnStructures.nodup {s : Kernel} (h : s.OwnStructures) : (s.vmas.map (·.id)).Nodup := by
  simpa using h.apart

theorem Kernel.OwnStructures.mk' {s : Kernel} (hlt : ∀ w ∈ s.vmas, w.id < s.fresh) (hnd : (s.vmas.map (·.id)).Nodup) :
    s.OwnStructures := ⟨fun w hw _ => hlt w hw, by simpa using hnd⟩

theorem sysMunmapRange_structures {s : Kernel} (h : s.OwnStructures) {cs : List Cut} (hcs : ∀ c ∈ cs, c.vma ∈ s.vmas) :
    (sysMunmapRange P s cs).OwnStructures := by
  obtain ⟨hlt, hnd⟩ := cutAll_ids (P := P) (fun c hc => h.id _ (hcs c hc)) h.id h.nodup
  apply Kernel.OwnStructures.mk'
  · rw [sysMunmapRange, (closes_rest _ _).1, (closes_rest _ _).2]
    exact hlt
  · rw [sysMunmapRange, (closes_rest _ _).1]
    exact hnd

theorem sysFork_structures {s : Kernel} (h : s.OwnStructures) (parent : Nat → Bool) :
    (sysFork s parent).OwnStructures := by
  have hcopy : ∀ w ∈ s.vmas.filter (fun v => parent v.id && !v.VM_DONTCOPY) |>.zipIdx.map fun p =>
      { p.1 with id := s.fresh + p.2 },
      s.fresh ≤ w.id ∧ w.id < (sysFork s parent).fresh := by
    intro w hw
    obtain ⟨⟨x, i⟩, hx, rfl⟩ := List.mem_map.1 hw
    exact ⟨Nat.le_add_right _ _, Nat.add_lt_add_left (List.snd_lt_of_mem_zipIdx hx) _⟩
  apply Kernel.OwnStructures.mk'
  · intro w hw
    rcases List.mem_append.1 hw with hw | hw
    · exact Nat.lt_of_lt_of_le (h.id w hw) (Nat.le_add_right _ _)
    · exact (hcopy w hw).2
  · rw [sysFork, List.map_append]
    refine List.nodup_append.2 ⟨h.nodup, ?_, ?_⟩
    · -- the copies are numbered in order
      have hids : ((s.vmas.filter (fun v => parent v.id && !v.VM_DONTCOPY)).zipIdx.map fun p =>
          { p.1 with id := s.fresh + p.2 }).map (·.id) =
          ((s.vmas.filter (fun v => parent v.id && !v.VM_DONTCOPY)).zipIdx.map Prod.snd).map (s.fresh + ·) := by
        rw [List.map_map, List.map_map]
        rfl
      rw [hids, List.zipIdx_map_snd]
      exact List.Nodup.map (fun a b he => Nat.add_left_cancel he) List.nodup_range'
    · intro i hi j hj
      obtain ⟨x, hx, rfl⟩ := List.mem_map.1 hi
      obtain ⟨y, hy, rfl⟩ := List.mem_map.1 hj
      exact Nat.ne_of_lt (Nat.lt_of_lt_of_le (h.id x hx) (hcopy y hy).1)

theorem SysStep.structures {s s' : Kernel} {o : SysOp} (hok : FilesOk P s.files s.fresh) (h : s.OwnStructures)
    (hs : SysStep P s o s') : s'.OwnStructures := by
  cases hs with
  | op ht => exact step_structures hok h ht
  | @stale o vma s1 hvma ht =>
    -- All structures but the one that is read in place of the freed VMA.
    have h0 : (s.withStale vma).Structures (fun i => i ≠ vma.id) := by
      constructor
      · intro v hv hq
        rcases List.mem_cons.1 hv with rfl | hv
        · exact absurd rfl (of_decide_eq_true hq)
        · exact h.id v hv
      · have hall : (s.vmas.map (·.id)).filter (fun i => i ≠ vma.id) = s.vmas.map (·.id) := by
          refine List.filter_eq_self.2 fun i hi => ?_
          obtain ⟨v, hv, rfl⟩ := List.mem_map.1 hi
          exact decide_eq_true (hvma v hv)
        rw [Kernel.withStale, List.map_cons, List.filter_cons_of_neg (by simp), hall]
        exact h.nodup
    have h1 := step_structures (s := s.withStale vma) hok h0 ht
    apply Kernel.OwnStructures.mk'
    · intro w hw
      obtain ⟨hw, hne⟩ := List.mem_filter.1 hw
      exact h1.lt w hw hne
    · have he : (s1.dropStale vma).vmas.map (·.id) = (s1.vmas.map (·.id)).filter (fun i => i ≠ vma.id) := by
        rw [Kernel.dropStale, List.filter_map]
        rfl
      rw [he]
      exact h1.apart
  | munmapRange hcs _ => exact sysMunmapRange_structures h fun c hc => (hcs c hc).1
  | fork => exact sysFork_structures h _

theorem sysPath_structures {s s' : Kernel} {os : List SysOp} (hp : Runs.Path (SysStep P) s os s')
    (hok : FilesOk P s.files s.fresh) (h : s.OwnStructures) : s'.OwnStructures := by
  induction hp with
  | nil => exact h
  | cons ht _ ih => exact ih (ht.filesOk hok) (ht.structures hok h)

/-- In every state reached, although the VMAs split and are copied. -/
theorem SysRun.structures {s : Kernel} {os : List SysOp} (h : SysRun P s os) : s.OwnStructures := by
  refine h.inv_of (fun s => FilesOk P s.files s.fresh) (·.OwnStructures) (fun s os h => SysRun.filesOk h) ?_
    fun s o s' hok hid ht => ht.structures hok hid
  rintro s rfl
  exact .mk' nofun List.nodup_nil

/-- The structures of the VMAs are in use in every state reached. -/
theorem SysRun.vma_id {s : Kernel} {os : List SysOp} (h : SysRun P s os) : ∀ w ∈ s.vmas, w.id < s.fresh :=
  h.structures.id

/-! ## What others leave of a file -/

/-- The operation does not pin or unpin on file `f`, nor release it. -/
def SysOp.Leaves (f : Nat) (o : SysOp) : Prop := ∀ o', o.call = some o' → o'.Leaves f

theorem vma_close_view {s : Kernel} (hok : FilesOk P s.files s.fresh) (v : Vma) {f : Nat} {info : Info}
    (hf : s.files f = some info) :
    ∃ info', (gdrdrv_vma_close s v).files f = some info' ∧ info'.view = info.view := by
  rw [vma_close_files]
  cases hl : s.lookup v.vm_file v.vm_pgoff with
  | none => exact ⟨info, hf, rfl⟩
  | some r =>
    obtain ⟨i, mr⟩ := r
    obtain ⟨hg, hm, -⟩ := search_listed hl
    by_cases he : v.vm_file = f
    · subst he
      obtain rfl := Option.some.inj (hf.symm.trans hg)
      exact ⟨_, Function.update_self _ _ _, put_view (fun m hm' hp => (hok.ptr_inj hf hf hm' hm hp).2) rfl rfl⟩
    · exact ⟨info, (Function.update_of_ne (Ne.symm he) _ _).trans hf, rfl⟩

theorem closes_view {s : Kernel} (hok : FilesOk P s.files s.fresh) (gone : List Vma) {f : Nat} {info : Info}
    (hf : s.files f = some info) :
    ∃ info', (gone.foldl gdrdrv_vma_close s).files f = some info' ∧ info'.view = info.view := by
  induction gone generalizing s info with
  | nil => exact ⟨info, hf, rfl⟩
  | cons g gone ih =>
    obtain ⟨i1, h1, hv1⟩ := vma_close_view hok g hf
    obtain ⟨i2, h2, hv2⟩ := ih (hok.vma_close g) h1
    exact ⟨i2, h2, hv2.trans hv1⟩

theorem sysMunmapRange_view {s : Kernel} (hok : FilesOk P s.files s.fresh) (cs : List Cut) {f : Nat} {info : Info}
    (hf : s.files f = some info) : ∃ info', (sysMunmapRange P s cs).files f = some info' ∧ info'.view = info.view :=
  closes_view (s := { s with vmas := cutAll P cs s.fresh s.vmas, fresh := s.fresh + 2 * cs.length })
    (hok.mono (Nat.le_add_right _ _)) _ hf

/-- Addresses and handles of the file's mrs, its owner and its counters stay. -/
theorem SysStep.view {s s' : Kernel} {o : SysOp} {f : Nat} {info : Info} (hok : FilesOk P s.files s.fresh)
    (hs : SysStep P s o s') (hl : o.Leaves f) (hf : s.files f = some info) : ∃ info', s'.files f = some info' ∧
    info'.view = info.view := by
  cases hs with
  | op ht => exact step_view hok ht (hl _ rfl) hf
  | @stale o vma s1 _ ht =>
    have hview := step_view (s := s.withStale vma) hok ht (hl _ rfl) hf
    exact hview
  | munmapRange => exact sysMunmapRange_view hok _ hf
  | fork => exact ⟨info, hf, rfl⟩

theorem Run.sysRun {s : Kernel} {os : List Op} (h : Run P s os) : SysRun P s (os.map .op) := by
  induction h with
  | start h => exact .start h
  | next _ ht ih => simpa using ih.next (.op ht)

end

end gdrdrv
