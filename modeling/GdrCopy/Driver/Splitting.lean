import GdrCopy.Driver.Represent
/-!
# A mapping that is unmapped in pieces

The driver keeps one VMA pointer and one type for an mr, and finds the mr of a VMA
that closes by its page offset. `split_tracking` says for which sequences of partial
unmaps that is enough: those in which no piece leads to the mr while another still
has translations, and none leads to another mapped mr.
-/

namespace gdrdrv

section
variable (P : Platform)

/-! ## Pieces -/

/-- `y` is the pages from `i` up to `j` of `v`. -/
structure Vma.PartOf (y v : Vma) (i j : Nat) : Prop where
  eq : y = v.piece P y.id i j
  lt : i < j
  le : j ≤ v.pages P

/-- What is left of `v`: pieces that do not meet, with structures of their own. -/
structure Pieces (v : Vma) (lo fresh : Nat) (ps : List Vma) : Prop where
  part : ∀ y ∈ ps, ∃ i j, y.PartOf P v i j
  apart : ∀ y ∈ ps, ∀ z ∈ ps, y.id ≠ z.id → y.vm_end ≤ z.vm_start ∨ z.vm_end ≤ y.vm_start
  inj : ∀ y ∈ ps, ∀ z ∈ ps, y.id = z.id → y = z
  id : ∀ y ∈ ps, y.id < fresh ∧ (y.id = v.id ∨ lo ≤ y.id)

variable {P}

theorem piece_piece (v : Vma) (id id' : Nat) {i j a b : Nat} (h : i + b ≤ j) :
    (v.piece P id i j).piece P id' a b = v.piece P id' (i + a) (i + b) := by
  have hle : (i + b) * P.PAGE_SIZE ≤ j * P.PAGE_SIZE := Nat.mul_le_mul_right _ h
  rw [Nat.add_mul] at hle
  have hptes : (v.piece P id i j).ptes.filter (fun p => v.vm_start + i * P.PAGE_SIZE + a * P.PAGE_SIZE ≤ p.vaddr ∧
      p.vaddr < v.vm_start + i * P.PAGE_SIZE + b * P.PAGE_SIZE) = (v.piece P id' (i + a) (i + b)).ptes := by
    unfold Vma.piece
    rw [List.filter_filter]
    refine List.filter_congr fun p _ => ?_
    rw [Bool.eq_iff_iff, Bool.and_eq_true, decide_eq_true_iff, decide_eq_true_iff, decide_eq_true_iff,
      Nat.add_mul, Nat.add_mul]
    omega
  have hs : v.vm_start + i * P.PAGE_SIZE + a * P.PAGE_SIZE = v.vm_start + (i + a) * P.PAGE_SIZE := by
    rw [Nat.add_mul]; omega
  have he : v.vm_start + i * P.PAGE_SIZE + b * P.PAGE_SIZE = v.vm_start + (i + b) * P.PAGE_SIZE := by
    rw [Nat.add_mul]; omega
  calc (v.piece P id i j).piece P id' a b = { v with
          id := id', vm_start := v.vm_start + i * P.PAGE_SIZE + a * P.PAGE_SIZE,
          vm_end := v.vm_start + i * P.PAGE_SIZE + b * P.PAGE_SIZE, vm_pgoff := v.vm_pgoff + i + a,
          ptes := (v.piece P id' (i + a) (i + b)).ptes } := by rw [← hptes]; rfl
    _ = v.piece P id' (i + a) (i + b) := by rw [hs, he, Nat.add_assoc]; rfl

theorem Vma.PartOf.pages {y v : Vma} {i j : Nat} (h : y.PartOf P v i j) : y.pages P = j - i := by
  rw [h.eq]
  have hle : i * P.PAGE_SIZE ≤ j * P.PAGE_SIZE := Nat.mul_le_mul_right _ (Nat.le_of_lt h.lt)
  simp only [Vma.pages, Vma.piece]
  rw [show v.vm_start + j * P.PAGE_SIZE - (v.vm_start + i * P.PAGE_SIZE) = (j - i) * P.PAGE_SIZE by
    rw [Nat.sub_mul]; omega, Nat.mul_div_cancel _ (pageSize_pos P)]

theorem Vma.PartOf.bounds {y v : Vma} {i j : Nat} (h : y.PartOf P v i j) :
    y.vm_start = v.vm_start + i * P.PAGE_SIZE ∧ y.vm_end = v.vm_start + j * P.PAGE_SIZE ∧ y.vm_pgoff = v.vm_pgoff + i ∧
      y.vm_file = v.vm_file := by
  rw [h.eq]
  exact ⟨rfl, rfl, rfl, rfl⟩

/-- A piece of a piece. -/
theorem Vma.PartOf.piece {y v : Vma} {i j a b : Nat} (h : y.PartOf P v i j) (id : Nat) (hab : a < b)
    (hb : b ≤ y.pages P) :
    (y.piece P id a b).PartOf P v (i + a) (i + b) := by
  have hp := h.pages
  have hlt := h.lt
  have hle := h.le
  refine ⟨?_, by omega, by omega⟩
  conv_lhs => rw [h.eq]
  exact piece_piece v y.id id (by omega)

theorem Cut.mem_stays {c : Cut} {fresh : Nat} {w : Vma} : w ∈ c.stays P fresh ↔
    (0 < c.a ∧ w = c.vma.piece P (if c.inPlace then fresh else c.vma.id) 0 c.a) ∨
      (c.b < c.vma.pages P ∧
        w = c.vma.piece P (if c.inPlace = true ∨ 0 < c.a then fresh + 1 else c.vma.id) c.b (c.vma.pages P)) := by
  unfold Cut.stays
  by_cases ha : 0 < c.a <;> by_cases hb : c.b < c.vma.pages P <;> simp [ha, hb]

theorem Cut.mem_apply {c : Cut} {fresh : Nat} {vmas : List Vma} (hc : c.vma ∈ vmas) {w : Vma} :
    w ∈ c.apply P fresh vmas ↔ w ∈ c.stays P fresh ∨ (w ∈ vmas ∧ w.id ≠ c.vma.id) := by
  unfold Cut.apply
  rw [List.mem_flatMap]
  constructor
  · rintro ⟨x, hx, hw⟩
    by_cases he : x.id = c.vma.id
    · rw [if_pos he] at hw
      exact .inl hw
    · rw [if_neg he] at hw
      rw [List.mem_singleton.1 hw]
      exact .inr ⟨hx, he⟩
  · rintro (hw | ⟨hw, hne⟩)
    · exact ⟨c.vma, hc, by rwa [if_pos rfl]⟩
    · exact ⟨w, hw, by rw [if_neg hne]; exact List.mem_singleton_self w⟩

/-- What stays after a cut is a smaller piece, with the old structure or a new one. -/
theorem Cut.stays_part {c : Cut} {fresh : Nat} (hfit : c.Fits P) {v : Vma} {i j : Nat}
    (hpart : c.vma.PartOf P v i j) {w : Vma} (hw : w ∈ c.stays P fresh) :
    (∃ i' j', w.PartOf P v i' j' ∧ i ≤ i' ∧ j' ≤ j) ∧ (w.id = c.vma.id ∨ w.id = fresh ∨ w.id = fresh + 1) ∧
      w.ptes ⊆ c.vma.ptes := by
  have hp := hpart.pages
  have hlt := hpart.lt
  obtain ⟨hab, hb⟩ := hfit
  rcases Cut.mem_stays.1 hw with ⟨ha, rfl⟩ | ⟨hb', rfl⟩
  · refine ⟨⟨i + 0, i + c.a, hpart.piece _ ha (by omega), by omega, by omega⟩, ?_, List.filter_subset_self _⟩
    by_cases hin : c.inPlace = true
    · exact .inr (.inl (if_pos hin))
    · exact .inl (if_neg hin)
  · refine ⟨⟨i + c.b, i + c.vma.pages P, hpart.piece _ hb' (Nat.le_refl _), by omega, by omega⟩, ?_,
      List.filter_subset_self _⟩
    by_cases hin : c.inPlace = true ∨ 0 < c.a
    · exact .inr (.inr (if_pos hin))
    · exact .inl (if_neg hin)

/-- The two pieces that stay are apart and have different structures. -/
theorem Cut.stays_apart {c : Cut} {fresh : Nat} (hfit : c.Fits P) (hid : c.vma.id < fresh) {w z : Vma}
    (hw : w ∈ c.stays P fresh) (hz : z ∈ c.stays P fresh) :
    (w.id = z.id → w = z) ∧ (w.id ≠ z.id → w.vm_end ≤ z.vm_start ∨ z.vm_end ≤ w.vm_start) := by
  have hab : c.a * P.PAGE_SIZE ≤ c.b * P.PAGE_SIZE := Nat.mul_le_mul_right _ (Nat.le_of_lt hfit.1)
  have hne : ∀ {x y : Vma}, 0 < c.a → x = c.vma.piece P (if c.inPlace then fresh else c.vma.id) 0 c.a →
      y = c.vma.piece P (if c.inPlace = true ∨ 0 < c.a then fresh + 1 else c.vma.id) c.b (c.vma.pages P) →
      x.id ≠ y.id ∧ x.vm_end ≤ y.vm_start := by
    rintro x y ha rfl rfl
    refine ⟨?_, Nat.add_le_add_left hab _⟩
    simp only [Vma.piece, if_pos (Or.inr ha : c.inPlace = true ∨ 0 < c.a)]
    by_cases hin : c.inPlace = true
    · rw [if_pos hin]
      omega
    · rw [if_neg hin]
      omega
  rcases Cut.mem_stays.1 hw with ⟨ha, h1⟩ | ⟨hb, h1⟩ <;> rcases Cut.mem_stays.1 hz with ⟨ha', h2⟩ | ⟨hb', h2⟩
  · rw [h1, h2]
    exact ⟨fun _ => rfl, fun h => absurd rfl h⟩
  · obtain ⟨h3, h4⟩ := hne ha h1 h2
    exact ⟨fun h => absurd h h3, fun _ => .inl h4⟩
  · obtain ⟨h3, h4⟩ := hne ha' h2 h1
    exact ⟨fun h => absurd h.symm h3, fun _ => .inr h4⟩
  · rw [h1, h2]
    exact ⟨fun _ => rfl, fun h => absurd rfl h⟩

/-- A cut leaves pieces. -/
theorem Pieces.cut {v : Vma} {lo fresh : Nat} {ps : List Vma} (h : Pieces P v lo fresh ps) (hlo : lo ≤ fresh) {c : Cut}
    (hc : c.vma ∈ ps) (hfit : c.Fits P) : Pieces P v lo (fresh + 2) (c.apply P fresh ps) := by
  obtain ⟨i, j, hpart⟩ := h.part c.vma hc
  have hid := h.id c.vma hc
  -- A piece that stays lies in the piece that was cut, so it is apart from the others.
  have hold : ∀ {w z : Vma}, w ∈ c.stays P fresh → z ∈ ps → z.id ≠ c.vma.id →
      w.id ≠ z.id ∧ (w.vm_end ≤ z.vm_start ∨ z.vm_end ≤ w.vm_start) := by
    intro w z hw hz hne
    obtain ⟨⟨i', j', hw', hi, hj⟩, hwid, -⟩ := Cut.stays_part hfit hpart hw
    have hzid := (h.id z hz).1
    obtain ⟨h1, h2, -⟩ := hw'.bounds
    obtain ⟨h3, h4, -⟩ := hpart.bounds
    have hi' : i * P.PAGE_SIZE ≤ i' * P.PAGE_SIZE := Nat.mul_le_mul_right _ hi
    have hj' : j' * P.PAGE_SIZE ≤ j * P.PAGE_SIZE := Nat.mul_le_mul_right _ hj
    refine ⟨by omega, ?_⟩
    have := h.apart c.vma hc z hz (Ne.symm hne)
    omega
  refine ⟨fun y hy => ?_, fun y hy z hz hne => ?_, fun y hy z hz he => ?_, fun y hy => ?_⟩
  · rcases (Cut.mem_apply hc).1 hy with hy | ⟨hy, -⟩
    · obtain ⟨⟨i', j', hy', -, -⟩, -⟩ := Cut.stays_part hfit hpart hy
      exact ⟨i', j', hy'⟩
    · exact h.part y hy
  · rcases (Cut.mem_apply hc).1 hy with hy | ⟨hy, hy1⟩ <;> rcases (Cut.mem_apply hc).1 hz with hz | ⟨hz, hz1⟩
    · exact (Cut.stays_apart hfit hid.1 hy hz).2 hne
    · exact (hold hy hz hz1).2
    · exact (hold hz hy hy1).2.symm
    · exact h.apart y hy z hz hne
  · rcases (Cut.mem_apply hc).1 hy with hy | ⟨hy, hy1⟩ <;> rcases (Cut.mem_apply hc).1 hz with hz | ⟨hz, hz1⟩
    · exact (Cut.stays_apart hfit hid.1 hy hz).1 he
    · exact absurd he (hold hy hz hz1).1
    · exact absurd he.symm (hold hz hy hy1).1
    · exact h.inj y hy z hz he
  · rcases (Cut.mem_apply hc).1 hy with hy | ⟨hy, -⟩
    · obtain ⟨-, hyid, -⟩ := Cut.stays_part hfit hpart hy
      omega
    · have := h.id y hy
      omega

/-- The cuts of one `munmap` are of different VMAs of the list. -/
structure Cuts (P : Platform) (cs : List Cut) (vmas : List Vma) : Prop where
  fits : ∀ c ∈ cs, c.vma ∈ vmas ∧ c.Fits P
  nodup : (cs.map (·.vma.id)).Nodup

theorem Cuts.tail {c : Cut} {cs : List Cut} {vmas : List Vma} (h : Cuts P (c :: cs) vmas) (fresh : Nat) :
    Cuts P cs (c.apply P fresh vmas) := by
  have hn := List.nodup_cons.1 h.nodup
  refine ⟨fun d hd => ⟨(Cut.mem_apply (h.fits c List.mem_cons_self).1).2
    (.inr ⟨(h.fits d (List.mem_cons_of_mem _ hd)).1, ?_⟩), (h.fits d (List.mem_cons_of_mem _ hd)).2⟩, hn.2⟩
  intro he
  exact hn.1 (List.mem_map.2 ⟨d, hd, he⟩)

theorem Pieces.cutAll {v : Vma} {lo : Nat} {cs : List Cut} : ∀ {fresh : Nat} {ps : List Vma}, Pieces P v lo fresh ps →
    lo ≤ fresh → Cuts P cs ps →
    Pieces P v lo (fresh + 2 * cs.length) (gdrdrv.cutAll P cs fresh ps) ∧
      (∀ g ∈ goneAll P cs fresh, g.vm_file = v.vm_file) ∧
      ((∃ w ∈ gdrdrv.cutAll P cs fresh ps, w.ptes ≠ []) → ∃ w ∈ ps, w.ptes ≠ []) := by
  induction cs with
  | nil => exact fun h _ _ => ⟨h, (by simp [goneAll]), fun hw => hw⟩
  | cons c cs ih =>
    intro fresh ps h hlo hcs
    obtain ⟨hc, hfit⟩ := hcs.fits c List.mem_cons_self
    obtain ⟨i, j, hpart⟩ := h.part c.vma hc
    obtain ⟨h1, h2, h3⟩ := ih (h.cut hlo hc hfit) (by omega) (hcs.tail fresh)
    refine ⟨by rw [List.length_cons, Nat.mul_succ, Nat.add_comm _ 2, ← Nat.add_assoc]; exact h1,
      fun g hg => ?_, fun hw => ?_⟩
    · rcases List.mem_cons.1 hg with rfl | hg
      · exact hpart.bounds.2.2.2
      · exact h2 g hg
    · obtain ⟨w, hw, hne⟩ := h3 hw
      rcases (Cut.mem_apply hc).1 hw with hw | ⟨hw, -⟩
      · obtain ⟨-, -, hsub⟩ := Cut.stays_part hfit hpart hw
        refine ⟨c.vma, hc, fun he => hne ?_⟩
        rw [he] at hsub
        exact List.subset_nil.1 hsub
      · exact ⟨w, hw, hne⟩

/-- The VMAs that are not pieces stay. -/
theorem cutAll_mem {cs : List Cut} : ∀ {fresh : Nat} {ps vmas old : List Vma}, Cuts P cs ps →
    (∀ w, w ∈ vmas ↔ w ∈ ps ∨ w ∈ old) → (∀ w ∈ old, ∀ c ∈ cs, w.id ≠ c.vma.id) →
    ∀ w, w ∈ cutAll P cs fresh vmas ↔ w ∈ cutAll P cs fresh ps ∨ w ∈ old := by
  induction cs with
  | nil => exact fun _ h _ => h
  | cons c cs ih =>
    intro fresh ps vmas old hcs h hold
    have hc := (hcs.fits c List.mem_cons_self).1
    refine ih (hcs.tail fresh) (fun w => ?_) fun w hw d hd => hold w hw d (List.mem_cons_of_mem _ hd)
    rw [Cut.mem_apply ((h c.vma).2 (.inl hc)), Cut.mem_apply hc, h w]
    have := fun hw => hold w hw c List.mem_cons_self
    tauto

/-! ## The mrs that a munmap closes -/

/-- `info` with every mr replaced. -/
def Info.mapMrs (info : Info) (φ : Mr → Mr) : Info := { info with mr_list := info.mr_list.map φ }

/-- The mr that one of the pieces leads to. -/
def leadsTo (info : Info) (gone : List Vma) (m : Mr) : Bool :=
  gone.any fun g => gdr_mr_from_handle_unlocked info g.vm_pgoff == some m

theorem search_mapMrs {info : Info} {φ : Mr → Mr} (hφ : ∀ m, (φ m).handle = m.handle) (h : Nat) :
    gdr_mr_from_handle_unlocked (info.mapMrs φ) h = (gdr_mr_from_handle_unlocked info h).map φ := by
  suffices hl : ∀ (l : List Mr) (mr : Option Mr), searchLoop h (mr.map φ) (l.map φ) = (searchLoop h mr l).map φ from
    hl info.mr_list none
  intro l
  induction l with
  | nil => exact fun mr => rfl
  | cons p rest ih =>
    intro mr
    simp only [List.map_cons, searchLoop, hφ]
    by_cases he : h = p.handle
    · rw [if_pos he, if_pos he]
      rfl
    · rw [if_neg he, if_neg he]
      exact ih (some p)

theorem put_mapMrs {info : Info} {φ : Mr → Mr} {x : Mr}
    (huniq : ∀ m ∈ info.mr_list, m.ptr = x.ptr → m = x) (hφ : ∀ m, (φ m).ptr = m.ptr) :
    (info.mapMrs φ).put (closeMr (φ x)) = info.mapMrs fun m => if m = x then closeMr (φ m) else φ m := by
  have hptr : (closeMr (φ x)).ptr = x.ptr := hφ x
  unfold Info.put Info.mapMrs
  rw [List.map_map]
  refine congrArg (fun l => { info with mr_list := l }) (List.map_congr_left fun m hm => ?_)
  rw [Function.comp_apply, hφ, hptr]
  by_cases he : m = x
  · rw [if_pos (by rw [he]), if_pos he, he]
  · rw [if_neg fun h => he (huniq m hm h), if_neg he]

/-- After several pieces of VMAs of `f` have closed, the mrs they lead to are closed. -/
theorem closes_files {f : Nat} {info : Info} (huniq : ∀ m ∈ info.mr_list, ∀ x ∈ info.mr_list, m.ptr = x.ptr → m = x)
    {gone : List Vma} : ∀ {s : Kernel} {φ : Mr → Mr}, s.files f = some (info.mapMrs φ) →
    (∀ m, (φ m).ptr = m.ptr ∧ (φ m).handle = m.handle ∧ closeMr (φ m) = closeMr m) → (∀ g ∈ gone, g.vm_file = f) →
    (gone.foldl gdrdrv_vma_close s).files =
      Function.update s.files f (some (info.mapMrs fun m => if leadsTo info gone m then closeMr m else φ m)) := by
  induction gone with
  | nil =>
    intro s φ hf _ _
    rw [List.foldl_nil]
    simp only [leadsTo, List.any_nil, Bool.false_eq_true, if_false]
    rw [← hf, Function.update_eq_self]
  | cons g gone ih =>
    intro s φ hf hφ hfile
    have hg : g.vm_file = f := hfile g List.mem_cons_self
    rw [List.foldl_cons]
    cases hs : gdr_mr_from_handle_unlocked info g.vm_pgoff with
    | none =>
      -- The list is empty, so no mr is closed.
      have hnil := search_none hs
      have hsame : (gdrdrv_vma_close s g).files = s.files := by
        rw [vma_close_files, Kernel.lookup, hg, hf]
        simp only [search_mapMrs (fun m => (hφ m).2.1), hs, Option.map_none]
      rw [ih (by rw [hsame, hf]) hφ fun g hg => hfile g (List.mem_cons_of_mem _ hg), hsame]
      simp only [Info.mapMrs, hnil, List.map_nil]
    | some x =>
      have hx := search_mem hs
      have hclose : (gdrdrv_vma_close s g).files =
          Function.update s.files f (some (info.mapMrs fun m => if m = x then closeMr (φ m) else φ m)) := by
        rw [vma_close_files, Kernel.lookup, hg, hf]
        simp only [search_mapMrs (fun m => (hφ m).2.1), hs, Option.map_some]
        rw [put_mapMrs (fun m hm he => huniq m hm x hx he) fun m => (hφ m).1]
      have hf' : (gdrdrv_vma_close s g).files f = some (info.mapMrs fun m => if m = x then closeMr (φ m) else φ m) := by
        rw [hclose, Function.update_self]
      have hφ' : ∀ m, (if m = x then closeMr (φ m) else φ m).ptr = m.ptr ∧
          (if m = x then closeMr (φ m) else φ m).handle = m.handle ∧
          closeMr (if m = x then closeMr (φ m) else φ m) = closeMr m := by
        intro m
        by_cases he : m = x
        · rw [if_pos he]
          exact hφ m
        · rw [if_neg he]
          exact hφ m
      rw [ih hf' hφ' fun g hg => hfile g (List.mem_cons_of_mem _ hg), hclose, Function.update_idem]
      refine congrArg (fun i => Function.update s.files f (some i)) ?_
      refine congrArg (fun l => { info with mr_list := l }) (List.map_congr_left fun m _ => ?_)
      have hlead : leadsTo info (g :: gone) m = (some x == some m || leadsTo info gone m) := by
        rw [leadsTo, List.any_cons, hs]
        rfl
      rw [hlead]
      by_cases hgone : leadsTo info gone m = true
      · rw [hgone, Bool.or_true, if_pos rfl, if_pos rfl]
      · rw [Bool.eq_false_of_not_eq_true hgone, Bool.or_false, if_neg Bool.false_ne_true]
        by_cases he : m = x
        · rw [if_pos he, he, if_pos (by simp), (hφ x).2.2]
        · rw [if_neg he, if_neg (by simpa using Ne.symm he)]

/-! ## What a zap reaches -/

/-- The VMA that a `mmap` has set up, before any of it is unmapped. -/
structure Vma.Whole (P : Platform) (v : Vma) (f : Nat) : Prop where
  vm_file : v.vm_file = f
  vm_pgoff : v.vm_pgoff < handleEnd P
  pages : v.pages P < handleEnd P

theorem Vma.PartOf.size {y v : Vma} {i j : Nat} (h : y.PartOf P v i j) :
    y.vm_end - y.vm_start = y.pages P * P.PAGE_SIZE := by
  obtain ⟨hs, he, -⟩ := h.bounds
  rw [h.pages, hs, he, Nat.sub_mul]
  omega

/-- The page offset of a translation in a piece is its page in the whole. -/
theorem Vma.PartOf.pageOff {y v : Vma} {i j : Nat} (h : y.PartOf P v i j) {p : Pte} (hp : p ∈ y.ptes) :
    v.vm_pgoff + i ≤ y.pageOff P p ∧ y.pageOff P p < v.vm_pgoff + j := by
  have hb : y.vm_start ≤ p.vaddr ∧ p.vaddr < y.vm_end := by
    obtain ⟨hs, he, -⟩ := h.bounds
    rw [hs, he]
    rw [h.eq] at hp
    simpa [Vma.piece] using (List.mem_filter.1 hp).2
  have ho := pageOff_bounds h.size hb
  have hp := h.pages
  have hlt := h.lt
  have hpg := h.bounds.2.2.1
  omega

/-- The zap of the piece `z` reaches the translations of a piece `y` only if they are the same, and its offset
does not wrap. -/
theorem zap_range {v : Vma} {f : Nat} (hv : v.Whole P f) {lo fresh : Nat} {ps : List Vma} (h : Pieces P v lo fresh ps)
    {y z : Vma} (hy : y ∈ ps) (hz : z ∈ ps) {p : Pte} (hp : p ∈ y.ptes) :
    (z.vm_pgoff % handleEnd P ≤ y.pageOff P p ∧ y.pageOff P p < z.vm_pgoff % handleEnd P + z.pages P) ↔
      y.id = z.id ∧ y.vm_pgoff < handleEnd P := by
  obtain ⟨i, j, hpy⟩ := h.part y hy
  obtain ⟨i', j', hpz⟩ := h.part z hz
  have hoff := hpy.pageOff hp
  have hzp := hpz.pages
  have hzo := hpz.bounds.2.2.1
  have hyo := hpy.bounds.2.2.1
  have h1 := hpz.lt
  have h2 := hpz.le
  have h3 := hv.vm_pgoff
  have h4 := hv.pages
  constructor
  · intro hr
    by_cases hw : z.vm_pgoff < handleEnd P
    · rw [Nat.mod_eq_of_lt hw] at hr
      have hid : y.id = z.id := by
        by_contra hne
        obtain ⟨hys, hye, -⟩ := hpy.bounds
        obtain ⟨hzs, hze, -⟩ := hpz.bounds
        rcases h.apart y hy z hz hne with ha | ha
        · rw [hye, hzs] at ha
          have := Nat.le_of_mul_le_mul_right (Nat.le_of_add_le_add_left ha) (pageSize_pos P)
          omega
        · rw [hze, hys] at ha
          have := Nat.le_of_mul_le_mul_right (Nat.le_of_add_le_add_left ha) (pageSize_pos P)
          omega
      exact ⟨hid, by rw [h.inj y hy z hz hid]; exact hw⟩
    · rw [Nat.mod_eq_sub_mod (by omega), Nat.mod_eq_of_lt (by omega)] at hr
      omega
  · rintro ⟨hid, hw⟩
    obtain rfl := h.inj y hy z hz hid
    rw [Nat.mod_eq_of_lt hw]
    have := hpy.pages
    omega

/-- Invalidating through `m` takes away the translations of all the pieces. -/
def Zaps (P : Platform) (vmas ps : List Vma) (m : Mr) : Prop :=
  ∃ m' vmas', gdr_mr_destroy_all_mappings P m vmas = .ok (m', vmas') ∧
    ∀ w ∈ vmas', (∃ y ∈ ps, y.id = w.id) → w.ptes = []

/-- Where some piece has translations, a zap through the structure of the whole VMA takes them
all away exactly if they are all in that structure, and its offset does not wrap. -/
theorem zaps_iff {v : Vma} {f : Nat} (hv : v.Whole P f) {lo fresh : Nat} {ps vmas old : List Vma}
    (h : Pieces P v lo fresh ps) (hlo : v.id < lo) (hvmas : ∀ w, w ∈ vmas ↔ w ∈ ps ∨ w ∈ old)
    (hold : ∀ w ∈ old, w.id < v.id) {m : Mr} (hmap : m.mapping = some f) (hvma : m.vma = some v.id)
    (hsome : ∃ w ∈ ps, w.ptes ≠ []) :
    Zaps P vmas ps m ↔ ∀ w ∈ ps, w.ptes ≠ [] → w.id = v.id ∧ w.vm_pgoff < handleEnd P := by
  have piece : ∀ {w y}, w ∈ vmas → y ∈ ps → w.id = y.id → w = y := by
    intro w y hw hy he
    have hyid := (h.id y hy).2
    rcases (hvmas w).1 hw with hw | hw
    · exact h.inj w hw y hy he
    · have := hold w hw
      omega
  have file : ∀ {y}, y ∈ ps → y.vm_file = f := by
    intro y hy
    obtain ⟨i, j, hp⟩ := h.part y hy
    exact hp.bounds.2.2.2.trans hv.vm_file
  have zapped : ∀ {z}, z ∈ ps → z.vm_end - z.vm_start = z.pages P * P.PAGE_SIZE := by
    intro z hz
    obtain ⟨i, j, hp⟩ := h.part z hz
    exact hp.size
  have find : ∀ {z}, vmas.find? (fun w => decide (w.id = v.id)) = some z → z ∈ vmas ∧ z.id = v.id := fun hf =>
    ⟨List.mem_of_find?_eq_some hf, by simpa using List.find?_some hf⟩
  constructor
  · rintro ⟨m', vmas', hd, hclear⟩ y hy hne
    unfold gdr_mr_destroy_all_mappings at hd
    rw [hvma, hmap] at hd
    dsimp only at hd
    cases hf : vmas.find? (fun w => decide (w.id = v.id)) with
    | none => rw [hf] at hd; cases hd
    | some z =>
      rw [hf] at hd
      obtain ⟨-, rfl⟩ := Prod.mk.inj (Except.ok.inj hd)
      obtain ⟨hz, hzid⟩ := find hf
      have hzps : z ∈ ps := by
        rcases (hvmas z).1 hz with hz | hz
        · exact hz
        · have := hold z hz
          omega
      -- The zap goes through `z`; a translation of `y` is gone only if it lies in the range of that zap.
      rw [zap_wraps (zapped hzps)] at hclear
      obtain ⟨p, hp⟩ := List.exists_mem_of_ne_nil _ hne
      have hnil := hclear _ (List.mem_map_of_mem ((hvmas y).2 (.inl hy))) ⟨y, hy, by rw [if_pos (file hy)]⟩
      rw [if_pos (file hy)] at hnil
      have hr := List.filter_eq_nil_iff.1 hnil p hp
      simp only [Bool.not_eq_true', Bool.not_eq_false, Bool.and_eq_true, decide_eq_true_eq] at hr
      obtain ⟨hid, hw⟩ := (zap_range hv h hy hzps hp).1 hr
      exact ⟨hid.trans hzid, hw⟩
  · intro hall
    -- The piece with translations is the one the structure stands for.
    obtain ⟨y0, hy0, hne0⟩ := hsome
    obtain ⟨hid0, -⟩ := hall y0 hy0 hne0
    obtain ⟨z, hf⟩ : ∃ z, vmas.find? (fun w => decide (w.id = v.id)) = some z :=
      Option.isSome_iff_exists.1 (List.find?_isSome.2 ⟨y0, (hvmas y0).2 (.inl hy0), by simpa using hid0⟩)
    obtain ⟨hz, hzid⟩ := find hf
    obtain rfl := piece hz hy0 (hzid.trans hid0.symm)
    refine ⟨{ m with cpu_mapping_type := .NONE }, gdrdrv_zap_vma P f z vmas, ?_, fun w hw => ?_⟩
    · unfold gdr_mr_destroy_all_mappings
      rw [hvma, hmap]
      dsimp only
      rw [hf]
    · rintro ⟨y, hy, he⟩
      rw [zap_wraps (zapped hy0)] at hw
      obtain ⟨w0, hw0, rfl⟩ := List.mem_map.1 hw
      have hw0y : w0 = y := piece hw0 hy (by rw [he]; split <;> rfl)
      subst hw0y
      rw [if_pos (file hy)]
      refine List.filter_eq_nil_iff.2 fun p hp => ?_
      have hne : w0.ptes ≠ [] := fun hnil => by rw [hnil] at hp; cases hp
      obtain ⟨hyid, hw⟩ := hall w0 hy hne
      have hr := (zap_range hv h hy hy0 hp).2 ⟨hyid.trans hid0.symm, hw⟩
      simp [hr.1, hr.2]

/-! ## Tracking through a sequence of unmaps -/

/-- The driver, and the pieces of the VMA that are left. -/
structure Splitting where
  kernel : Kernel
  pieces : List Vma

/-- One `munmap` of some pages of the pieces. -/
inductive UnmapStep (P : Platform) : Splitting → List Cut → Splitting → Prop
  | unmap {t : Splitting} {cs : List Cut} : Cuts P cs t.pieces →
    UnmapStep P t cs ⟨sysMunmapRange P t.kernel cs, cutAll P cs t.kernel.fresh t.pieces⟩

/-- `m` is marked mapped: another `mmap` of it is refused, and invalidating it takes the translations away. -/
structure Marked (P : Platform) (t : Splitting) (m : Mr) : Prop where
  cpu_mapping_type : m.cpu_mapping_type ≠ .NONE
  vma : m.vma ≠ none
  refused : ∀ env f w, mmapLocked P env f m w = .ok (-EINVAL, mmapFail m, w)
  zaps : Zaps P t.kernel.vmas t.pieces m

/-- The mrs of a file other than the one at `ptr`. -/
def othersOf (ptr : Nat) (x : Option Info) : Option (List Mr) :=
  x.map fun info => info.mr_list.filter fun m => m.ptr ≠ ptr

/-- The mr at `ptr` of file `f` follows the pieces, and the other mrs are as in `s`. -/
structure Tracked (P : Platform) (s : Kernel) (f ptr : Nat) (t : Splitting) : Prop where
  marked : (∃ w ∈ t.pieces, w.ptes ≠ []) → ∃ info m, t.kernel.files f = some info ∧ m ∈ info.mr_list ∧
    m.ptr = ptr ∧ Marked P t m
  gone : t.pieces = [] → ∃ info m, t.kernel.files f = some info ∧ m ∈ info.mr_list ∧ m.ptr = ptr ∧
    m.cpu_mapping_type = .NONE ∧ m.vma = none
  others : ∀ g, othersOf ptr (t.kernel.files g) = othersOf ptr (s.files g)

/-- The pieces that go lead to no other mapped mr, and to the mr at `ptr` only when no translations
stay. If they do not lead to it, all that stays is in the structure it points to. -/
structure Leads (P : Platform) (f ptr : Nat) (t : Splitting) (cs : List Cut) : Prop where
  others : ∀ info, t.kernel.files f = some info → ∀ x ∈ info.mr_list, x.ptr ≠ ptr →
    leadsTo info (goneAll P cs t.kernel.fresh) x = true → x.vma = none ∧ x.cpu_mapping_type = .NONE
  led : ∀ info, t.kernel.files f = some info → ∀ m ∈ info.mr_list, m.ptr = ptr →
    leadsTo info (goneAll P cs t.kernel.fresh) m = true → ∀ w ∈ cutAll P cs t.kernel.fresh t.pieces, w.ptes = []
  kept : ∀ info, t.kernel.files f = some info → ∀ m ∈ info.mr_list, m.ptr = ptr →
    leadsTo info (goneAll P cs t.kernel.fresh) m = false →
    (cutAll P cs t.kernel.fresh t.pieces = [] → m.cpu_mapping_type = .NONE) ∧
      ∀ w ∈ cutAll P cs t.kernel.fresh t.pieces, w.ptes ≠ [] → m.vma = some w.id ∧ w.vm_pgoff < handleEnd P

/-- What every sequence of unmaps keeps: the mr is mapped through `v` or marked unmapped, and
the VMAs are the pieces of `v` and the `old` ones. -/
structure Held (P : Platform) (lo f ptr : Nat) (v : Vma) (old : List Vma) (t : Splitting) : Prop where
  filesOk : FilesOk P t.kernel.files t.kernel.fresh
  own : ∃ info m, t.kernel.files f = some info ∧ m ∈ info.mr_list ∧ m.ptr = ptr ∧ m.mapping = some f ∧
    (m.cpu_mapping_type ≠ .NONE ∧ m.vma = some v.id ∨ m.cpu_mapping_type = .NONE ∧ m.vma = none)
  pieces : Pieces P v lo t.kernel.fresh t.pieces
  vmas : ∀ w, w ∈ t.kernel.vmas ↔ w ∈ t.pieces ∨ w ∈ old
  fresh : lo ≤ t.kernel.fresh

theorem closeMr_eq {m : Mr} : closeMr m = m ↔ m.vma = none ∧ m.cpu_mapping_type = .NONE := by
  constructor
  · intro h
    rw [← h]
    exact ⟨rfl, rfl⟩
  · rintro ⟨hv, ht⟩
    cases m
    simp only at hv ht
    subst hv ht
    rfl

theorem refused_of_mapped {m : Mr} (h : m.cpu_mapping_type ≠ .NONE) (env : RemapEnv) (f : Nat) (w : Vma) :
    mmapLocked P env f m w = .ok (-EINVAL, mmapFail m, w) := by
  have hm : gdr_mr_is_mapped m = true := by simpa [gdr_mr_is_mapped] using h
  unfold mmapLocked
  rw [if_pos hm]

section
variable {lo f ptr : Nat} {v : Vma} {old : List Vma} {t t' : Splitting} {cs : List Cut}

/-- The files after one `munmap`. -/
theorem Held.files_unmap (h : Held P lo f ptr v old t) (hv : v.Whole P f) (hcs : Cuts P cs t.pieces) {info : Info}
    (hf : t.kernel.files f = some info) :
    (sysMunmapRange P t.kernel cs).files = Function.update t.kernel.files f (some (info.mapMrs fun m =>
      if leadsTo info (goneAll P cs t.kernel.fresh) m then closeMr m else m)) := by
  have hgone := (h.pieces.cutAll h.fresh hcs).2.1
  have hid : info.mapMrs (fun m => m) = info := by
    unfold Info.mapMrs
    rw [List.map_id']
  unfold sysMunmapRange
  refine closes_files (fun m hm x hx he => (h.filesOk.ptr_inj hf hf hm hx he).2) (by rw [hid]; exact hf)
    (fun m => ⟨rfl, rfl, rfl⟩)
    fun g hg => ?_
  rw [hgone g hg, hv.vm_file]

theorem Held.unmap (h : Held P lo f ptr v old t) (hv : v.Whole P f) (hlo : v.id < lo) (hold : ∀ w ∈ old, w.id < v.id)
    (hstep : UnmapStep P t cs t') : Held P lo f ptr v old t' := by
  cases hstep with
  | unmap hcs =>
    obtain ⟨info, m, hf, hm, hptr, hmap, hown⟩ := h.own
    have hfiles := h.files_unmap hv hcs hf
    have hrest := closes_rest (goneAll P cs t.kernel.fresh)
      { t.kernel with vmas := cutAll P cs t.kernel.fresh t.kernel.vmas, fresh := t.kernel.fresh + 2 * cs.length }
    have hfresh : (sysMunmapRange P t.kernel cs).fresh = t.kernel.fresh + 2 * cs.length := hrest.2
    have hvmas : (sysMunmapRange P t.kernel cs).vmas = cutAll P cs t.kernel.fresh t.kernel.vmas := hrest.1
    constructor
    · have hsys : SysStep P t.kernel (.munmapRange cs) (sysMunmapRange P t.kernel cs) :=
        .munmapRange (fun c hc => ⟨(h.vmas _).2 (.inl (hcs.fits c hc).1), (hcs.fits c hc).2⟩) hcs.nodup
      exact hsys.filesOk h.filesOk
    · refine ⟨_, _, by rw [hfiles, Function.update_self], List.mem_map_of_mem hm, ?_, ?_, ?_⟩
      · split <;> exact hptr
      · split <;> exact hmap
      · split
        · exact .inr ⟨rfl, rfl⟩
        · exact hown
    · rw [hfresh]
      exact (h.pieces.cutAll h.fresh hcs).1
    · intro w
      rw [hvmas]
      refine cutAll_mem hcs h.vmas (fun w hw c hc he => ?_) w
      have h1 := hold w hw
      have h2 := (h.pieces.id _ (hcs.fits c hc).1).2
      omega
    · rw [hfresh]
      exact Nat.le_trans h.fresh (Nat.le_add_right _ _)

/-- Where translations stay, an mr is marked exactly if it points to the structure that has them all. -/
theorem Held.marked_iff (h : Held P lo f ptr v old t) (hv : v.Whole P f) (hlo : v.id < lo)
    (hold : ∀ w ∈ old, w.id < v.id) {m : Mr} (hmap : m.mapping = some f) (ht : m.cpu_mapping_type ≠ .NONE)
    (hvma : m.vma = some v.id) (hsome : ∃ w ∈ t.pieces, w.ptes ≠ []) :
    Marked P t m ↔ ∀ w ∈ t.pieces, w.ptes ≠ [] → m.vma = some w.id ∧ w.vm_pgoff < handleEnd P := by
  have hz := zaps_iff hv h.pieces hlo h.vmas hold hmap hvma hsome
  constructor
  · intro hm w hw hne
    obtain ⟨hid, hpg⟩ := hz.1 hm.zaps w hw hne
    exact ⟨by rw [hvma, hid], hpg⟩
  · intro hall
    refine ⟨ht, by simp [hvma], fun env f w => refused_of_mapped ht env f w, hz.2 fun w hw hne => ?_⟩
    obtain ⟨hid, hpg⟩ := hall w hw hne
    exact ⟨(Option.some.inj (hvma.symm.trans hid)).symm, hpg⟩

/-- The mr at `ptr` after one `munmap`. -/
theorem Held.own_unmap (h : Held P lo f ptr v old t) (hv : v.Whole P f) (hcs : Cuts P cs t.pieces)
    {info : Info} {m : Mr} (hf : t.kernel.files f = some info) (hm : m ∈ info.mr_list) (hptr : m.ptr = ptr) :
    ∃ i x, (sysMunmapRange P t.kernel cs).files f = some i ∧ x ∈ i.mr_list ∧ x.ptr = ptr ∧
      x = (if leadsTo info (goneAll P cs t.kernel.fresh) m then closeMr m else m) ∧
      ∀ i' x', (sysMunmapRange P t.kernel cs).files f = some i' → x' ∈ i'.mr_list → x'.ptr = ptr → x' = x := by
  have hfiles := h.files_unmap hv hcs hf
  refine ⟨_, _, by rw [hfiles, Function.update_self], List.mem_map_of_mem hm, ?_, rfl, fun i' x' hi hx he => ?_⟩
  · split <;> exact hptr
  · rw [hfiles, Function.update_self] at hi
    obtain rfl := Option.some.inj hi
    obtain ⟨y, hy, rfl⟩ := List.mem_map.1 hx
    have hyptr : y.ptr = ptr := by
      rw [← he]
      split <;> rfl
    rw [(h.filesOk.ptr_inj hf hf hy hm (hyptr.trans hptr.symm)).2]

/-- The other mrs are as they were exactly when those that were closed had been unmapped. -/
theorem Held.others_iff (h : Held P lo f ptr v old t) (hv : v.Whole P f) (hcs : Cuts P cs t.pieces)
    {info : Info} {s : Kernel} (hf : t.kernel.files f = some info)
    (hs : ∀ g, othersOf ptr (t.kernel.files g) = othersOf ptr (s.files g)) :
    (∀ g, othersOf ptr ((sysMunmapRange P t.kernel cs).files g) = othersOf ptr (s.files g)) ↔
      ∀ x ∈ info.mr_list, x.ptr ≠ ptr → leadsTo info (goneAll P cs t.kernel.fresh) x = true →
        x.vma = none ∧ x.cpu_mapping_type = .NONE := by
  have hfiles := h.files_unmap hv hcs hf
  generalize hψ : (fun m => if leadsTo info (goneAll P cs t.kernel.fresh) m then closeMr m else m) = ψ at hfiles
  have hfilter : (info.mapMrs ψ).mr_list.filter (fun m => m.ptr ≠ ptr) =
      (info.mr_list.filter fun m => m.ptr ≠ ptr).map ψ := by
    rw [Info.mapMrs, List.filter_map]
    congr 1
    refine List.filter_congr fun x _ => ?_
    rw [← hψ, Function.comp_apply]
    split <;> rfl
  -- An mr is as it was if it was not closed, or if closing it changes nothing.
  have hfixed : ∀ x, ψ x = x ↔ (leadsTo info (goneAll P cs t.kernel.fresh) x = true → x.vma = none ∧
      x.cpu_mapping_type = .NONE) := by
    intro x
    rw [← hψ]
    dsimp only
    by_cases hl : leadsTo info (goneAll P cs t.kernel.fresh) x = true
    · rw [if_pos hl, closeMr_eq]
      exact ⟨fun h _ => h, fun h => h hl⟩
    · rw [if_neg hl]
      exact ⟨fun _ h => absurd h hl, fun _ => rfl⟩
  constructor
  · intro hall x hx hne
    have hg := hall f
    rw [← hs f, hfiles, Function.update_self, hf, othersOf, othersOf, Option.map_some, Option.map_some, hfilter] at hg
    have hmap := List.map_inj_left.1 ((Option.some.inj hg).trans (List.map_id' _).symm)
    exact (hfixed x).1 (hmap x (List.mem_filter.2 ⟨hx, by simpa using hne⟩))
  · intro hall g
    rw [hfiles]
    by_cases hgf : g = f
    · subst hgf
      rw [Function.update_self, ← hs g, hf, othersOf, othersOf, Option.map_some, Option.map_some, hfilter]
      refine congrArg some ((List.map_congr_left fun x hx => ?_).trans (List.map_id' _))
      obtain ⟨hx, hne⟩ := List.mem_filter.1 hx
      exact (hfixed x).2 (hall x hx (by simpa using hne))
    · rw [Function.update_of_ne hgf]
      exact hs g

/-- One `munmap` keeps the tracking exactly when its pieces lead where they should. -/
theorem Held.tracked_iff (h : Held P lo f ptr v old t) (hv : v.Whole P f) (hlo : v.id < lo)
    (hold : ∀ w ∈ old, w.id < v.id) {s : Kernel} (ht : Tracked P s f ptr t) (hstep : UnmapStep P t cs t') :
    Tracked P s f ptr t' ↔ Leads P f ptr t cs := by
  have h' := h.unmap hv hlo hold hstep
  cases hstep with
  | unmap hcs =>
    obtain ⟨info, m, hf, hm, hptr, hmap, hown⟩ := h.own
    have huniq : ∀ x ∈ info.mr_list, x.ptr = ptr → x = m := fun x hx he =>
      (h.filesOk.ptr_inj hf hf hx hm (he.trans hptr.symm)).2
    obtain ⟨info', m', hf', hm', hptr', heq, huniq'⟩ := h.own_unmap hv hcs hf hm hptr
    have hothers := h.others_iff hv hcs hf ht.others
    -- Translations that stay were there before, and so the mr was marked.
    have hbefore : (∃ w ∈ cutAll P cs t.kernel.fresh t.pieces, w.ptes ≠ []) → m.cpu_mapping_type ≠ .NONE ∧
        m.vma = some v.id := by
      intro hw
      obtain ⟨i, x, hi, hx, he, hmark⟩ := ht.marked ((h.pieces.cutAll h.fresh hcs).2.2 hw)
      obtain rfl := Option.some.inj (hf.symm.trans hi)
      obtain rfl := huniq x hx he
      rcases hown with hown | hown
      · exact hown
      · exact absurd hown.1 hmark.cpu_mapping_type
    by_cases hled : leadsTo info (goneAll P cs t.kernel.fresh) m = true
    -- The mr has been closed: no translations may stay.
    · rw [if_pos hled] at heq
      constructor
      · intro ht'
        refine ⟨fun i hi => ?_, fun i hi x hx he _ w hw => ?_, fun i hi x hx he hlx => ?_⟩
        · obtain rfl := Option.some.inj (hf.symm.trans hi)
          exact hothers.1 ht'.others
        · by_contra hne
          obtain ⟨i', x', hi', hx', he', hmark⟩ := ht'.marked ⟨w, hw, hne⟩
          rw [huniq' i' x' hi' hx' he', heq] at hmark
          exact hmark.cpu_mapping_type rfl
        · obtain rfl := Option.some.inj (hf.symm.trans hi)
          rw [huniq x hx he, hled] at hlx
          cases hlx
      · intro hl
        refine ⟨fun hw => ?_, fun _ => ⟨info', m', hf', hm', hptr', ?_⟩, hothers.2 (hl.others info hf)⟩
        · obtain ⟨w, hw, hne⟩ := hw
          exact absurd (hl.led info hf m hm hptr hled w hw) hne
        · rw [heq]
          exact ⟨rfl, rfl⟩
    -- The mr is as it was: what stays must be what it is marked for.
    · rw [if_neg hled] at heq
      constructor
      · intro ht'
        refine ⟨fun i hi => ?_, fun i hi x hx he hlx => ?_, fun i hi x hx he _ =>
          ⟨fun hnil => ?_, fun w hw hne => ?_⟩⟩ <;>
          obtain rfl := Option.some.inj (hf.symm.trans hi)
        · exact hothers.1 ht'.others
        · rw [huniq x hx he] at hlx
          exact absurd hlx hled
        · obtain ⟨i', x', hi', hx', he', hnone, -⟩ := ht'.gone hnil
          rwa [huniq' i' x' hi' hx' he', heq, ← huniq x hx he] at hnone
        · obtain ⟨i', x', hi', hx', he', hmark⟩ := ht'.marked ⟨w, hw, hne⟩
          obtain ⟨htype, hvma⟩ := hbefore ⟨w, hw, hne⟩
          rw [huniq' i' x' hi' hx' he', heq] at hmark
          rw [huniq x hx he]
          exact (h'.marked_iff hv hlo hold hmap htype hvma ⟨w, hw, hne⟩).1 hmark w hw hne
      · intro hl
        obtain ⟨hnil, hall⟩ := hl.kept info hf m hm hptr (Bool.eq_false_of_not_eq_true hled)
        refine ⟨fun hw => ⟨info', m', hf', hm', hptr', ?_⟩, fun hgone => ⟨info', m', hf', hm', hptr', ?_⟩,
          hothers.2 (hl.others info hf)⟩
        · obtain ⟨htype, hvma⟩ := hbefore hw
          rw [heq]
          exact (h'.marked_iff hv hlo hold hmap htype hvma hw).2 hall
        · rw [heq]
          rcases hown with hown | hown
          · exact absurd (hnil hgone) hown.1
          · exact hown

end

/-! ## From the mmap on -/

theorem whole_piece {fresh f : Nat} {pt : PageTable} {v : Vma} (hnew : v.New P fresh f pt) (hlt : v.vm_start < v.vm_end)
    (hbelow : v.vm_end < 2 ^ 64) : v.Whole P f ∧ v.PartOf P v 0 (v.pages P) := by
  obtain ⟨start, pages, hs, he, -⟩ := hnew.bounds
  have hpages : v.pages P = pages := by
    unfold Vma.pages
    rw [hs, he, Nat.add_mul, Nat.add_sub_cancel_left, Nat.mul_div_cancel _ (pageSize_pos P)]
  have hend : v.vm_end = v.vm_start + v.pages P * P.PAGE_SIZE := by rw [hpages, hs, he, Nat.add_mul]
  have h64 : handleEnd P * P.PAGE_SIZE = 2 ^ 64 := by
    have hk : P.PAGE_SHIFT ≤ 16 := P.page_shift_le
    rw [handleEnd, Platform.PAGE_SIZE, ← pow_add, Nat.sub_add_cancel (by omega)]
  refine ⟨⟨hnew.vm_file, hnew.vm_pgoff, ?_⟩, ?_, ?_, Nat.le_refl _⟩
  · have : v.pages P * P.PAGE_SIZE < handleEnd P * P.PAGE_SIZE := by omega
    exact Nat.lt_of_mul_lt_mul_right this
  · have hptes : v.ptes.filter (fun p => v.vm_start + 0 * P.PAGE_SIZE ≤ p.vaddr ∧
        p.vaddr < v.vm_start + v.pages P * P.PAGE_SIZE) = v.ptes := by
      refine List.filter_eq_self.2 fun p hp => ?_
      have := (hnew.ptes p hp).2
      simp only [decide_eq_true_eq]
      omega
    unfold Vma.piece
    rw [hptes, ← hend, Nat.zero_mul, Nat.add_zero, Nat.add_zero]
  · by_contra h0
    rw [Nat.le_zero.1 (Nat.not_lt.1 h0), Nat.zero_mul] at hend
    omega

/-- A successful `mmap` marks the mr its offset finds, and adds the whole VMA. -/
theorem mmap_held {env : RemapEnv} {s0 s1 : Kernel} {os0 : List SysOp} {f cur start len : Nat}
    {off : BitVec 64} {r : Reply} {info : Info} {M : Mr} {v : Vma} (hr : SysRun P s0 os0)
    (hm : sysMmap P env s0 f cur start len off = .ok (r, s1)) (h0 : r.ret = 0)
    (hl : s0.lookup f (off.toNat >>> P.PAGE_SHIFT) = some (info, M)) (hv : s1.vmas = v :: s0.vmas) :
    v.Whole P f ∧ v.id < s1.fresh ∧ (∀ w ∈ s0.vmas, w.id < v.id) ∧ Held P s1.fresh f M.ptr v s0.vmas ⟨s1, [v]⟩ ∧
      Tracked P s1 f M.ptr ⟨s1, [v]⟩ := by
  cases sysMmap_ends hm with
  | same hne _ _ _ => exact absurd h0 hne
  | refused hne _ _ _ => exact absurd h0 hne
  | @mapped info' mr pt v' hr0 hmap hs =>
    have hok : FilesOk P s1.files s1.fresh := SysRun.filesOk (hr.next (.op ⟨r, .mmap hm⟩))
    subst hs
    obtain rfl : v' = v := (List.cons.inj hv).1
    -- The mr that was mapped is the one the offset finds.
    obtain ⟨rfl, rfl⟩ : info' = info ∧ mr = M := by
      unfold Kernel.lookup at hl
      rw [hmap.file, ← hmap.vm_pgoff] at hl
      dsimp only at hl
      rw [hmap.search] at hl
      exact Prod.mk.inj (Option.some.inj hl)
    have hlt : v'.vm_start < v'.vm_end := by
      rw [hmap.vm_start, hmap.vm_end, Nat.add_mul]
      have := Nat.mul_pos hmap.pos (pageSize_pos P)
      omega
    obtain ⟨hwhole, hpart⟩ := whole_piece hmap.new hlt hmap.below
    have hid : v'.id < s0.fresh + 1 := by
      rw [hmap.new.id]
      exact Nat.lt_succ_self _
    have hold : ∀ w ∈ s0.vmas, w.id < v'.id := by
      rw [hmap.new.id]
      exact hr.vma_id
    have hmem : mr.through P f v'.id ∈ (info'.put (mr.through P f v'.id)).mr_list :=
      List.mem_map.2 ⟨mr, search_mem hmap.search, if_pos rfl⟩
    have hheld : Held P (s0.fresh + 1) f mr.ptr v' s0.vmas
        ⟨{ s0.setFile f (some (info'.put (mr.through P f v'.id))) with
          vmas := v' :: s0.vmas, fresh := s0.fresh + 1 }, [v']⟩ := by
      constructor
      · exact hok
      · exact ⟨_, _, Function.update_self .., hmem, rfl, rfl, .inl ⟨hmap.type, rfl⟩⟩
      · refine ⟨fun y hy => ?_, fun y hy z hz hne => ?_, fun y hy z hz _ => ?_, fun y hy => ?_⟩
        · rw [List.mem_singleton.1 hy]
          exact ⟨0, _, hpart⟩
        · rw [List.mem_singleton.1 hy, List.mem_singleton.1 hz] at hne
          exact absurd rfl hne
        · rw [List.mem_singleton.1 hy, List.mem_singleton.1 hz]
        · rw [List.mem_singleton.1 hy]
          exact ⟨hid, .inl rfl⟩
      · intro w
        rw [List.mem_singleton]
        exact List.mem_cons
      · exact Nat.le_refl _
    refine ⟨hwhole, hid, hold, hheld, fun hw => ⟨_, _, Function.update_self .., hmem, rfl, ?_⟩,
      fun hnil => ?_, fun g => rfl⟩
    swap
    · cases hnil
    refine (hheld.marked_iff hwhole hid hold rfl hmap.type rfl hw).2 fun w hw _ => ?_
    rw [List.mem_singleton.1 hw]
    exact ⟨rfl, hwhole.vm_pgoff⟩

/-- After a `mmap`, the unmaps through which the mr stays tracked are those whose pieces lead where
they should. -/
theorem split_tracking {env : RemapEnv} {s0 s1 : Kernel} {os0 : List SysOp} {f cur start len : Nat}
    {off : BitVec 64} {r : Reply} {info : Info} {M : Mr} {v : Vma} (hr : SysRun P s0 os0)
    (hm : sysMmap P env s0 f cur start len off = .ok (r, s1)) (h0 : r.ret = 0)
    (hl : s0.lookup f (off.toNat >>> P.PAGE_SHIFT) = some (info, M)) (hv : s1.vmas = v :: s0.vmas)
    {t : Splitting} {css : List (List Cut)} :
    Runs.Always (Tracked P s1 f M.ptr) (· = ⟨s1, [v]⟩) (UnmapStep P) t css ↔
      Runs.Run (· = ⟨s1, [v]⟩) (Runs.only (Leads P f M.ptr) (UnmapStep P)) t css := by
  obtain ⟨hwhole, hlo, hold, hheld, htracked⟩ := mmap_held hr hm h0 hl hv
  refine Runs.Run.always_iff (fun t => Held P s1.fresh f M.ptr v s0.vmas t ∧ Tracked P s1 f M.ptr t) ?_ ?_
    (fun t h => h.2) ?_
  · rintro t rfl
    exact ⟨hheld, htracked⟩
  · rintro t cs t' ⟨hh, ht⟩ hleads hstep
    exact ⟨hh.unmap hwhole hlo hold hstep, (hh.tracked_iff hwhole hlo hold ht hstep).2 hleads⟩
  · rintro t cs t' ⟨hh, ht⟩ hstep ht'
    exact (hh.tracked_iff hwhole hlo hold ht hstep).1 ht'

set_option synthInstance.maxSize 1000 in
/-- As `Leads` is about finite lists, it can be checked. -/
instance {f ptr : Nat} {t : Splitting} {cs : List Cut} : Decidable (Leads P f ptr t cs) :=
  let gone := goneAll P cs t.kernel.fresh
  let rest := cutAll P cs t.kernel.fresh t.pieces
  decidable_of_iff (∀ info ∈ t.kernel.files f, ∀ m ∈ info.mr_list,
      (m.ptr ≠ ptr → leadsTo info gone m = true → m.vma = none ∧ m.cpu_mapping_type = .NONE) ∧
      (m.ptr = ptr → leadsTo info gone m = true → ∀ w ∈ rest, w.ptes = []) ∧
      (m.ptr = ptr → leadsTo info gone m = false → (rest = [] → m.cpu_mapping_type = .NONE) ∧
        ∀ w ∈ rest, w.ptes ≠ [] → m.vma = some w.id ∧ w.vm_pgoff < handleEnd P))
    ⟨fun h => ⟨fun i hi m hm => (h i hi m hm).1, fun i hi m hm => (h i hi m hm).2.1, fun i hi m hm =>
      (h i hi m hm).2.2⟩, fun h i hi m hm => ⟨h.others i hi m hm, h.led i hi m hm, h.kept i hi m hm⟩⟩

instance {cs : List Cut} {vmas : List Vma} : Decidable (Cuts P cs vmas) :=
  decidable_of_iff ((∀ c ∈ cs, c.vma ∈ vmas ∧ c.a < c.b ∧ c.b ≤ c.vma.pages P) ∧ (cs.map (·.vma.id)).Nodup)
    ⟨fun h => ⟨h.1, h.2⟩, fun h => ⟨h.fits, h.nodup⟩⟩

end

/-- An `mmap` of 16 host pages after the operations `os` of one process, with the VMA it adds and the mr it finds. -/
theorem split_after (os : List Op) (off : BitVec 64) (q : Splitting → Nat → Vma → Bool)
    (h : ((execAll x86Host (fun _ _ => true) init os).any fun s0 =>
      (sysMmap x86Host (fun _ _ _ => 0) s0 0 1 0x1000 0x10000 off).toOption.any fun r =>
        (s0.lookup 0 (off.toNat >>> x86Host.PAGE_SHIFT)).any fun l => r.2.vmas.head?.any fun v =>
          r.1.ret == 0 && r.2.vmas == v :: s0.vmas && q ⟨r.2, [v]⟩ l.2.ptr v) = true) :
    ∃ s0 s1 r info M v, SysRun x86Host s0 (os.map .op) ∧
    sysMmap x86Host (fun _ _ _ => 0) s0 0 1 0x1000 0x10000 off = .ok (r, s1) ∧
      r.ret = 0 ∧ s0.lookup 0 (off.toNat >>> x86Host.PAGE_SHIFT) = some (info, M) ∧ s1.vmas = v :: s0.vmas ∧
      q ⟨s1, [v]⟩ M.ptr v = true := by
  obtain ⟨s0, hs, h⟩ := Option.any_eq_true _ _ |>.1 h
  obtain ⟨r, hr, h⟩ := Option.any_eq_true _ _ |>.1 h
  obtain ⟨l, hl, h⟩ := Option.any_eq_true _ _ |>.1 h
  obtain ⟨v, -, h⟩ := Option.any_eq_true _ _ |>.1 h
  simp only [Bool.and_eq_true, beq_iff_eq] at h
  exact ⟨s0, r.2, r.1, l.1, l.2, v, Run.sysRun (execAll_run hs).of_only, toOption_ok hr, h.1.1, hl, h.1.2, h.2⟩

/-- One process pins two buffers. -/
def pinTwo : List Op := [.openFile 0 1 true, pinOp 0 1 0x10000 0x10000 [0x10000000],
    pinOp 0 1 0x20000 0x10000 [0x20000000]]

/-- The mapping of the second buffer can be unmapped from its end. -/
theorem split_tracking_pinTwo : ∃ s0 s1 r M v t, SysRun x86Host s0 (pinTwo.map .op) ∧
    sysMmap x86Host (fun _ _ _ => 0) s0 0 1 0x1000 0x10000 0x10000 = .ok (r, s1) ∧ t.pieces.length = 1 ∧
      Runs.Always (Tracked x86Host s1 0 M) (· = ⟨s1, [v]⟩) (UnmapStep x86Host) t [[⟨v, 8, 16, false⟩]] := by
  obtain ⟨s0, s1, r, info, M, v, hr, hm, h0, hl, hv, hq⟩ := split_after pinTwo 0x10000
    (fun t ptr v => decide (Cuts x86Host [⟨v, 8, 16, false⟩] t.pieces) &&
      decide (Leads x86Host 0 ptr t [⟨v, 8, 16, false⟩]) &&
      (cutAll x86Host [⟨v, 8, 16, false⟩] t.kernel.fresh t.pieces).length == 1) (by decide +kernel)
  simp only [Bool.and_eq_true, decide_eq_true_eq, beq_iff_eq] at hq
  obtain ⟨⟨hcuts, hleads⟩, hlen⟩ := hq
  have hstep : Runs.only (Leads x86Host 0 M.ptr) (UnmapStep x86Host) ⟨s1, [v]⟩ _ _ := ⟨hleads, .unmap hcuts⟩
  exact ⟨s0, s1, r, M.ptr, v, _, hr, hm, hlen, (split_tracking hr hm h0 hl hv).2 (.one rfl hstep)⟩

/-- Unmapping the first page of a mapping marks the mr unmapped while the other pages stay mapped. -/
theorem head_unmap_untracks : ¬ ∀ P env s0 s1 os0 f cur start len off r info M v, SysRun P s0 os0 →
    sysMmap P env s0 f cur start len off = .ok (r, s1) → r.ret = 0 → s0.lookup f (off.toNat >>> P.PAGE_SHIFT) =
    some (info, M) →
    s1.vmas = v :: s0.vmas → ∀ t css, Runs.Run (· = ⟨s1, [v]⟩) (UnmapStep P) t css → Tracked P s1 f M.ptr t := by
  intro hall
  obtain ⟨s0, s1, r, info, M, v, hr, hm, h0, hl, hv, hq⟩ := split_after pinTwo 0x10000
    (fun t _ v => decide (Cuts x86Host [⟨v, 0, 1, false⟩] t.pieces) &&
      (cutAll x86Host [⟨v, 0, 1, false⟩] t.kernel.fresh t.pieces).any (fun w => !w.ptes.isEmpty) &&
      (((sysMunmapRange x86Host t.kernel [⟨v, 0, 1, false⟩]).files 0).all fun info =>
        info.mr_list.all fun m => m.cpu_mapping_type == .NONE)) (by decide +kernel)
  simp only [Bool.and_eq_true, decide_eq_true_eq, List.any_eq_true] at hq
  obtain ⟨⟨hcuts, w, hw, hne⟩, hnone⟩ := hq
  have ht := hall _ _ s0 s1 _ _ _ _ _ _ r info M v hr hm h0 hl hv _ _ (.one rfl (UnmapStep.unmap hcuts))
  obtain ⟨i, m, hi, hm', -, hmark⟩ := ht.marked ⟨w, hw, by simpa using hne⟩
  have hi : (sysMunmapRange x86Host s1 [⟨v, 0, 1, false⟩]).files 0 = some i := hi
  rw [hi] at hnone
  have hm'' := List.all_eq_true.1 hnone m hm'
  exact hmark.cpu_mapping_type (by simpa using hm'')

end gdrdrv
