import GdrCopy.Threads.Discipline
import GdrCopy.Threads.Races
/-!
# Critical sections

The accesses of `GdrCopy.Threads.Races` are those of the steps: a step writes nothing else
(`Step.writes_only`), and what it does follows from what it reads (`Step.reads_only`). What
a lock guards then stays as it is while a party holds the lock and others run
(`critical_section`).
-/

namespace gdrdrv.Threads

section
variable {P : Platform} {serial : Bool} {s s' t : State} {p q : Party} {f m : Nat}

/-! ## The accesses are those of the steps -/

/-- The memory is there: the file is open, or the mr has been allocated. -/
def State.Has (s : State) : Cell → Prop
  | .info f => (s.files f).isOpen = true
  | .handle m => m < s.fresh
  | .args m => m < s.fresh
  | .rest m => m < s.fresh

theorem content_setFile {file : File} {c : Cell} (h : c = .info f → file.mr_list = (s.files f).mr_list ∧
    file.next_handle = (s.files f).next_handle ∧ file.next_handle_overflow = (s.files f).next_handle_overflow) :
    { s with files := Function.update s.files f file }.content c = s.content c := by
  cases c with
  | info g =>
    by_cases hg : g = f
    · subst hg
      obtain ⟨hl, hn, ho⟩ := h rfl
      simp [State.content, hl, hn, ho]
    · simp [State.content, hg]
  | _ => rfl

theorem content_setLock (o : Option Party) (c : Cell) : (s.setLock f o).content c = s.content c :=
  content_setFile fun _ => ⟨rfl, rfl, rfl⟩

theorem content_setMr {mr : Mr} {c : Cell} (hh : c = .handle m → mr.handle = (s.mrs m).handle)
    (ha : c = .args m → onlyArgs mr = onlyArgs (s.mrs m)) (hr : c = .rest m → onlyRest mr = onlyRest (s.mrs m)) :
    (s.setMr m mr).content c = s.content c := by
  cases c with
  | info g => rfl
  | handle n =>
    by_cases hn : n = m
    · subst hn
      simp [State.content, State.setMr, hh rfl]
    · simp [State.content, State.setMr, hn]
  | args n =>
    by_cases hn : n = m
    · subst hn
      simp [State.content, State.setMr, ha rfl]
    · simp [State.content, State.setMr, hn]
  | rest n =>
    by_cases hn : n = m
    · subst hn
      simp [State.content, State.setMr, hr rfl]
    · simp [State.content, State.setMr, hn]

/-- `a` is `b` but for the rest. -/
def SameButRest (a b : Mr) : Prop := a.handle = b.handle ∧ onlyArgs a = onlyArgs b

theorem content_setRest {mr : Mr} {c : Cell} (h : SameButRest mr (s.mrs m)) (hc : c ≠ .rest m) :
    (s.setMr m mr).content c = s.content c :=
  content_setMr (fun _ => h.1) (fun _ => h.2) fun he => absurd he hc

theorem Use.run_rest {mr mr' : Mr} {u : Use} (h : u.run P f mr = some mr') : SameButRest mr' mr := by
  cases u with
  | read =>
    obtain rfl := Option.some.inj h
    exact ⟨rfl, rfl⟩
  | req t =>
    obtain rfl := Option.some.inj h
    simp only [reqLocked]
    split_ifs <;> exact ⟨rfl, rfl⟩
  | mmap env vma =>
    obtain ⟨⟨ret, mr'', vma'⟩, hr, rfl⟩ := Option.map_eq_some_iff.1 h
    cases hm : mmapLocked P env f mr vma with
    | error e =>
      rw [hm] at hr
      cases hr
    | ok r =>
      rw [hm] at hr
      obtain rfl := Option.some.inj hr
      rcases mmapLocked_cases P hm with ⟨-, rfl⟩ | ⟨-, -, -, -, -, -, rfl, -⟩ <;> exact ⟨rfl, rfl⟩
  | close =>
    obtain rfl := Option.some.inj h
    exact ⟨rfl, rfl⟩

theorem unmapped_rest (mr : Mr) : SameButRest (unmapped mr) mr := by
  unfold unmapped
  split <;> exact ⟨rfl, rfl⟩

theorem tableSet_rest (mr : Mr) (pt : PageTable) : SameButRest (tableSet P mr pt).1 mr := by
  unfold tableSet
  split <;> exact ⟨rfl, rfl⟩

theorem cb_rest (mr : Mr) : SameButRest { mr with cb_flag := true } mr := ⟨rfl, rfl⟩

theorem taken_rest (mr : Mr) : SameButRest { unmapped mr with page_table := none } mr := unmapped_rest mr

/-- The list and the rest of an mr change as it leaves the list. -/
theorem content_unlink {mr : Mr} {c : Cell} (h : SameButRest mr (s.mrs m)) (hl : c ≠ .info f) (hr : c ≠ .rest m) :
    (s.unlink p f m mr).content c = s.content c := by
  have hlist : ((s.setMr m mr).setList f ((s.files f).mr_list.filter (· ≠ m))).content c = (s.setMr m mr).content c :=
    content_setFile (s := s.setMr m mr) fun he => absurd he hl
  exact hlist.trans (content_setRest h hr)

/-- The list and the handle of an mr change as it gets on the list. -/
theorem content_link {file : File} {handle : Nat} {c : Cell} (hl : c ≠ .info f) (hh : c ≠ .handle m) :
    ({ (s.setMr m { s.mrs m with handle := handle }).setPlace m (.listed f) with
      files := Function.update s.files f file } : State).content c = s.content c := by
  have hmr : (s.setMr m { s.mrs m with handle := handle }).content c = s.content c :=
    content_setMr (fun he => absurd he hh) (fun _ => rfl) fun _ => rfl
  exact (content_setFile (s := s.setMr m { s.mrs m with handle := handle }) fun he => absurd he hl).trans hmr

theorem content_close (c : Cell) : ((s.setLock f none).close f).content c = s.content c := by
  have hclose : ((s.setLock f none).close f).content c = (s.setLock f none).content c :=
    content_setFile fun _ => ⟨rfl, rfl, rfl⟩
  exact hclose.trans (content_setLock none c)

theorem content_alloc {mr : Mr} {c : Cell} (hc : s.Has c) : (s.alloc p mr).content c = s.content c := by
  have hne : ∀ {n : Nat}, n < s.fresh → n ≠ s.fresh := fun h => Nat.ne_of_lt h
  refine content_setMr (s := s) (m := s.fresh) (fun he => ?_) (fun he => ?_) fun he => ?_
  · subst he
    exact absurd rfl (hne hc)
  · subst he
    exact absurd rfl (hne hc)
  · subst he
    exact absurd rfl (hne hc)

/-- A step leaves all memory as it is that it does not write, but for what it allocates. -/
theorem Step.writes_only (h : Step P serial s p s') {c : Cell} (hc : c ∉ s.writes p) (hn : s.Has c) :
    s'.content c = s.content c := by
  have out {x : Pc} {d : Cell} (hx : s.pc p = x) (hd : d ∈ x.writes s.files) : c ≠ d := by
    rintro rfl
    exact hc (by rwa [State.writes, hx])
  cases h with
  | @openFile t f h hclosed =>
    refine content_setFile fun he => ?_
    subst he
    have hopen : (s.files f).isOpen = true := hn
    rw [hclosed] at hopen
    cases hopen
  | getLock h _ | getNone h | getUnlock h | unpinUnlock h | pinLock h _ | pinFail h | pinUnlock h | relLock h _ =>
    exact content_setLock _ c
  | @use t f m u mr h hu =>
    cases u with
    | read =>
      refine content_setMr (s := s) (fun _ => ?_) (fun _ => ?_) fun _ => ?_ <;> rw [← Option.some.inj hu]
    | req _ => exact content_setRest (s := s) (Use.run_rest hu) (out h (.head _))
    | mmap _ _ => exact content_setRest (s := s) (Use.run_rest hu) (out h (.head _))
    | close => exact content_setRest (s := s) (Use.run_rest hu) (out h (.head _))
  | @unpinDel t f m h | @relDel t f m h =>
    exact content_unlink (s := s) (p := .thread t) (unmapped_rest _) (out h (.head _)) (out h (.tail _ (.head _)))
  | @pinRefused t _ _ _ _ _ | @pinAlloc t _ _ _ _ _ => exact content_alloc (s := s) (p := .thread t) hn
  | pinInc h => exact content_setRest (s := s) (tableSet_rest _ _) (out h (.head _))
  | pinAdd h _ => exact content_link (s := s) (out h (.head _)) (out h (.tail _ (.head _)))
  | relUnlock h _ => exact content_close c
  | cbTable h _ | cbNone h _ => exact content_setRest (s := s) (cb_rest _) (out h (.head _))
  | cbDec h => exact content_setRest (s := s) (taken_rest _) (out h (.head _))
  | _ => rfl

/-! ## What a step does follows from what it reads -/

/-- `t` has the locks and the parties of `s`, and whatever it has in memory. -/
structure State.Like (s t : State) : Prop where
  pc : t.pc = s.pc
  sem : t.sem = s.sem
  nv : t.nv = s.nv
  fresh : t.fresh = s.fresh
  lock : ∀ f, (t.files f).lock = (s.files f).lock
  isOpen : ∀ f, (t.files f).isOpen = (s.files f).isOpen

namespace State.Like
variable {x : Pc} {o : Option Party} {w : Bool}

theorem go (h : s.Like t) : (s.go p x).Like (t.go p x) :=
  { h with pc := by simp only [State.go, h.pc] }

theorem setFile {a b : File} (h : s.Like t) (hl : b.lock = a.lock) (ho : b.isOpen = a.isOpen) :
    State.Like { s with files := Function.update s.files f a } { t with files := Function.update t.files f b } where
  pc := h.pc
  sem := h.sem
  nv := h.nv
  fresh := h.fresh
  lock g := by
    simp only [Function.update_apply]
    split
    · exact hl
    · exact h.lock g
  isOpen g := by
    simp only [Function.update_apply]
    split
    · exact ho
    · exact h.isOpen g

theorem setLock (h : s.Like t) : (s.setLock f o).Like (t.setLock f o) := h.setFile rfl (h.isOpen f)

theorem down (h : s.Like t) : (s.down m p w).Like (t.down m p w) :=
  { h with sem := by simp only [State.down, h.sem] }

theorem up (h : s.Like t) : (s.up m p w).Like (t.up m p w) :=
  { h with sem := by simp only [State.up, h.sem] }

theorem setNv (h : s.Like t) : (s.setNv o).Like (t.setNv o) := { h with nv := rfl }

theorem setTable {r : Table} (h : s.Like t) : (s.setTable m r).Like (t.setTable m r) := { h with }

theorem setMr {a b : Mr} (h : s.Like t) : (s.setMr m a).Like (t.setMr m b) := { h with }

theorem usable (h : s.Like t) (hu : s.Usable f) : t.Usable f :=
  ⟨(h.isOpen f).trans hu.1, fun q => by rw [h.pc]; exact hu.2 q⟩

end State.Like

/-- What a step did to a piece of memory from `s` to `s'` is what it does from `t` to `t'`. -/
def Follows (s s' t t' : State) : Prop :=
  s'.Like t' ∧ ∀ c, t'.content c = s'.content c ∨ t'.content c = t.content c ∧ s'.content c = s.content c

section
variable {t' : State} {a b a' : Mr}

theorem Follows.quiet (hl : s'.Like t') (hs : ∀ c, s'.content c = s.content c) (ht : ∀ c, t'.content c = t.content c) :
    Follows s s' t t' :=
  ⟨hl, fun c => .inr ⟨ht c, hs c⟩⟩

/-- Mrs with the same arguments and the same rest differ in their handles at most. -/
theorem handle_apart (ha : onlyArgs a = onlyArgs b) (hr : onlyRest a = onlyRest b) :
    b = { a with handle := b.handle } := by
  cases a
  cases b
  simp_all [onlyArgs, onlyRest]

theorem mmapLocked_handle {env : RemapEnv} {vma : Vma} (h : Nat) :
    mmapLocked P env f { a with handle := h } vma =
      (mmapLocked P env f a vma).map fun r => (r.1, { r.2.1 with handle := h }, r.2.2) := by
  have hm : gdr_mr_is_mapped { a with handle := h } = gdr_mr_is_mapped a := rfl
  have hc : chooseType P { a with handle := h } = chooseType P a := rfl
  unfold mmapLocked
  rw [hm, hc]
  generalize gdr_mr_is_mapped a = mapped, chooseType P a = type
  obtain ⟨ptr, handle, offset, p2p_token, va_space, page_size, va, mapped_size, cpu_type, req_type, page_table,
    cb_flag, tm_cycles, tsc_khz, v, mapping, force_pci⟩ := a
  dsimp only
  by_cases hmap : mapped = true
  · rw [if_pos hmap, if_pos hmap]
    rfl
  by_cases hcb : cb_flag = true
  · rw [if_neg hmap, if_neg hmap, if_pos hcb, if_pos hcb]
    rfl
  rw [if_neg hmap, if_neg hmap, if_neg hcb, if_neg hcb]
  cases page_table with
  | none => rfl
  | some pt =>
    dsimp only
    by_cases hent : pt.entries = 0
    · rw [if_pos hent, if_pos hent]
      rfl
    by_cases hoff : offset = 0
    swap
    · rw [if_neg hent, if_neg hent, if_pos hoff, if_pos hoff]
      rfl
    rw [if_neg hent, if_neg hent, if_neg (not_not.2 hoff), if_neg (not_not.2 hoff)]
    by_cases hlt : GPU_PAGE_SIZE * pt.entries < offset
    · rw [if_pos hlt, if_pos hlt]
      rfl
    by_cases hsize : GPU_PAGE_SIZE * pt.entries < u64 (vma.vm_end - vma.vm_start + offset)
    · rw [if_neg hlt, if_neg hlt, if_pos hsize, if_pos hsize]
      rfl
    rw [if_neg hlt, if_neg hlt, if_neg hsize, if_neg hsize]
    cases mmapLoop P env pt type vma 0 vma.vm_start (vma.vm_end - vma.vm_start) with
    | error e => rfl
    | ok r =>
      obtain ⟨ret, v, vaddr⟩ := r
      dsimp only
      generalize (if ret ≠ 0 then ret else if vaddr ≠ v.vm_end then -EINVAL else 0) = e
      by_cases he : e = 0
      · subst he
        rw [if_neg (not_not.2 rfl), if_neg (not_not.2 rfl)]
        by_cases hnone : type = .NONE
        · rw [if_pos hnone, if_pos hnone]
          rfl
        by_cases hforce : (force_pci && type == .CACHING) = true
        · rw [if_neg hnone, if_neg hnone, if_pos hforce, if_pos hforce]
          rfl
        · rw [if_neg hnone, if_neg hnone, if_neg hforce, if_neg hforce]
          rfl
      · rw [if_pos he, if_pos he]
        rfl

/-- No handler reads the handle of the mr it was given. -/
theorem Use.run_handle {u : Use} (h : Nat) (hu : u.run P f a = some a') :
    u.run P f { a with handle := h } = some { a' with handle := h } := by
  cases u with
  | read =>
    obtain rfl := Option.some.inj hu
    rfl
  | req t =>
    obtain rfl := Option.some.inj hu
    have hm : gdr_mr_is_mapped { a with handle := h } = gdr_mr_is_mapped a := rfl
    have ht : typeAllowed P { a with handle := h } t = typeAllowed P a t := by cases t <;> rfl
    simp only [Use.run, reqLocked, hm, ht]
    split_ifs <;> rfl
  | mmap env vma =>
    obtain ⟨r, hr, rfl⟩ := Option.map_eq_some_iff.1 hu
    have hok : mmapLocked P env f a vma = .ok r := by
      cases hm : mmapLocked P env f a vma with
      | error e =>
        rw [hm] at hr
        cases hr
      | ok r' =>
        rw [hm] at hr
        rw [Option.some.inj hr]
    simp [Use.run, mmapLocked_handle, hok, Except.map, Except.toOption]
  | close =>
    obtain rfl := Option.some.inj hu
    rfl

theorem unmapped_follows (hr : onlyRest a = onlyRest b) : onlyRest (unmapped a) = onlyRest (unmapped b) := by
  have hm : (onlyRest a).cpu_mapping_type = (onlyRest b).cpu_mapping_type := by rw [hr]
  have hset : { onlyRest a with cpu_mapping_type := .NONE } =
    { onlyRest b with cpu_mapping_type := .NONE } := by rw [hr]
  have hm : a.cpu_mapping_type = b.cpu_mapping_type := hm
  unfold unmapped gdr_mr_is_mapped
  rw [hm]
  split
  · exact hset
  · exact hr

theorem tableSet_follows {pt : PageTable} (hr : onlyRest a = onlyRest b) :
    onlyRest (tableSet P a pt).1 = onlyRest (tableSet P b pt).1 ∧ (tableSet P a pt).2 = (tableSet P b pt).2 := by
  unfold tableSet
  cases checkPageTable P pt with
  | error e =>
    have hset : { onlyRest a with page_table := some pt } = { onlyRest b with page_table := some pt } := by rw [hr]
    exact ⟨hset, rfl⟩
  | ok page_size =>
    have hset : { onlyRest a with page_table := some pt, page_size := page_size } =
        { onlyRest b with page_table := some pt, page_size := page_size } := by rw [hr]
    exact ⟨hset, rfl⟩

/-- The search reads nothing but the handles of the mrs on the list. -/
theorem findLoop_follows {mrs mrs' : Nat → Mr} {handle : Nat} {l : List Nat}
    (h : ∀ m ∈ l, (mrs' m).handle = (mrs m).handle) (mr : Option Nat) :
    findLoop mrs' handle mr l = findLoop mrs handle mr l := by
  induction l generalizing mr with
  | nil => rfl
  | cons m l ih =>
    simp only [findLoop]
    rw [h m (.head _), ih fun n hn => h n (.tail _ hn)]

/-- An mr changes in the rest only, in the same way in both. -/
theorem content_setRest_both {mr mr' : Mr} (h : SameButRest mr (s.mrs m)) (h' : SameButRest mr' (t.mrs m))
    (hr : onlyRest mr' = onlyRest mr) (c : Cell) :
    (t.setMr m mr').content c = (s.setMr m mr).content c ∨
      (t.setMr m mr').content c = t.content c ∧ (s.setMr m mr).content c = s.content c := by
  by_cases hc : c = .rest m
  · subst hc
    exact .inl (by simp [State.content, State.setMr, hr])
  · exact .inr ⟨content_setRest h' hc, content_setRest h hc⟩

theorem content_setMr_both {mr : Mr} (c : Cell) :
    (t.setMr m mr).content c = (s.setMr m mr).content c ∨
      (t.setMr m mr).content c = t.content c ∧ (s.setMr m mr).content c = s.content c := by
  by_cases hc : c = .handle m ∨ c = .args m ∨ c = .rest m
  · rcases hc with rfl | rfl | rfl <;> exact .inl (by simp [State.content, State.setMr])
  · simp only [not_or] at hc
    exact .inr ⟨content_setMr (absurd · hc.1) (absurd · hc.2.1) (absurd · hc.2.2),
      content_setMr (absurd · hc.1) (absurd · hc.2.1) (absurd · hc.2.2)⟩

theorem rest_eq (h : t.content (.rest m) = s.content (.rest m)) : onlyRest (t.mrs m) = onlyRest (s.mrs m) :=
  Content.mr.inj h

theorem args_eq (h : t.content (.args m) = s.content (.args m)) : onlyArgs (t.mrs m) = onlyArgs (s.mrs m) :=
  Content.mr.inj h

theorem page_table_eq (h : t.content (.rest m) = s.content (.rest m)) : (t.mrs m).page_table = (s.mrs m).page_table :=
  show (onlyRest (t.mrs m)).page_table = (onlyRest (s.mrs m)).page_table by rw [rest_eq h]

theorem mapped_eq (h : t.content (.rest m) = s.content (.rest m)) :
    gdr_mr_is_mapped (t.mrs m) = gdr_mr_is_mapped (s.mrs m) :=
  show gdr_mr_is_mapped (onlyRest (t.mrs m)) = gdr_mr_is_mapped (onlyRest (s.mrs m)) by rw [rest_eq h]

theorem cb_follows (hr : onlyRest a = onlyRest b) :
    onlyRest { a with cb_flag := true } = onlyRest { b with cb_flag := true } :=
  show { onlyRest a with cb_flag := true } = { onlyRest b with cb_flag := true } by rw [hr]

theorem taken_follows (hr : onlyRest a = onlyRest b) :
    onlyRest { unmapped a with page_table := none } = onlyRest { unmapped b with page_table := none } :=
  show { onlyRest (unmapped a) with page_table := none } = { onlyRest (unmapped b) with page_table := none } by
    rw [unmapped_follows hr]

theorem newHandle_follows {handle : Nat} {file : File} (hn : newHandle P (s.files f) (s.mrs m) = some (handle, file))
    (hi : t.content (.info f) = s.content (.info f)) (ha : t.content (.args m) = s.content (.args m)) :
    ∃ file', newHandle P (t.files f) (t.mrs m) = some (handle, file') ∧ file'.lock = (t.files f).lock ∧
      file'.isOpen = (t.files f).isOpen ∧ file'.next_handle = file.next_handle ∧
      file'.next_handle_overflow = file.next_handle_overflow := by
  obtain ⟨-, hnext, hover⟩ := Content.info.inj hi
  have hsize : (onlyArgs (t.mrs m)).mapped_size = (onlyArgs (s.mrs m)).mapped_size := by rw [args_eq ha]
  have hsize : (t.mrs m).mapped_size = (s.mrs m).mapped_size := hsize
  obtain ⟨r, hr, he⟩ := Option.map_eq_some_iff.1 hn
  obtain ⟨rfl, rfl⟩ := Prod.mk.inj he
  refine ⟨{ t.files f with next_handle := r.2.next_handle, next_handle_overflow := r.2.next_handle_overflow },
    ?_, rfl, rfl, rfl, rfl⟩
  unfold newHandle
  rw [hnext, hover, hsize, hr]
  rfl

theorem unlink_follows {x : Pc} (hl : s.Like t) (hi : t.content (.info f) = s.content (.info f))
    (hr : t.content (.rest m) = s.content (.rest m)) :
    Follows s ((s.unlink p f m (unmapped (s.mrs m))).go p x) t ((t.unlink p f m (unmapped (t.mrs m))).go p x) := by
  obtain ⟨hlist, hnext, hover⟩ := Content.info.inj hi
  have hlike := (hl.setFile (f := f) (a := { s.files f with mr_list := (s.files f).mr_list.filter (· ≠ m) })
    (b := { t.files f with mr_list := (t.files f).mr_list.filter (· ≠ m) }) (hl.lock f) (hl.isOpen f)).go
      (p := p) (x := x)
  refine ⟨⟨hlike.pc, hlike.sem, hlike.nv, hlike.fresh, hlike.lock, hlike.isOpen⟩, fun c => ?_⟩
  by_cases hcl : c = .info f
  · subst hcl
    refine .inl ?_
    simp [State.content, State.go, State.unlink, State.setPlace, State.setList, State.setMr, hlist, hnext, hover]
  by_cases hcr : c = .rest m
  · subst hcr
    refine .inl ?_
    simp [State.content, State.go, State.unlink, State.setPlace, State.setList, State.setMr,
      unmapped_follows (rest_eq hr)]
  · exact .inr ⟨content_unlink (s := t) (p := p) (unmapped_rest _) hcl hcr,
      content_unlink (s := s) (p := p) (unmapped_rest _) hcl hcr⟩

theorem alloc_follows {mr : Mr} {x : Pc} (hl : s.Like t) :
    Follows s ((s.alloc p mr).go p x) t ((t.alloc p mr).go p x) := by
  have hfresh : t.fresh = s.fresh := hl.fresh
  refine ⟨⟨?_, ?_, hl.nv, congrArg (· + 1) hfresh, hl.lock, hl.isOpen⟩, fun c => ?_⟩
  · exact hl.go.pc
  · show Function.update t.sem t.fresh .unlocked = Function.update s.sem s.fresh .unlocked
    rw [hl.sem, hfresh]
  · show (t.setMr t.fresh mr).content c = (s.setMr s.fresh mr).content c ∨
      (t.setMr t.fresh mr).content c = t.content c ∧ (s.setMr s.fresh mr).content c = s.content c
    rw [hfresh]
    exact content_setMr_both c

/-- What a step did follows from the locks, from where the parties stand and from what it reads: in
any memory that agrees there, the same step is there to make and writes the same. -/
theorem Step.reads_only (h : Step P serial s p s') (hl : s.Like t) (hr : ∀ c ∈ s.reads p, t.content c = s.content c) :
    ∃ t', Step P serial t p t' ∧ Follows s s' t t' := by
  have pc {q : Party} {x : Pc} (hx : s.pc q = x) : t.pc q = x := by rw [hl.pc, hx]
  have reads {x : Pc} {c : Cell} (hx : s.pc p = x) (hc : c ∈ x.reads s.files) : t.content c = s.content c :=
    hr c (by rwa [State.reads, hx])
  have lock {f : Nat} (hf : (s.files f).lock = none) : (t.files f).lock = none := (hl.lock f).trans hf
  have sem {m : Nat} {w : Bool} (hm : (s.sem m).Free w) : (t.sem m).Free w := by rwa [hl.sem]
  have nv (hn : s.NvFree serial) : t.NvFree serial := fun he => hl.nv.trans (hn he)
  have same (u : State) (c : Cell) : u.content c = u.content c := rfl
  have list {f : Nat} (hf : t.content (.info f) = s.content (.info f)) : (t.files f).mr_list = (s.files f).mr_list :=
    (Content.info.inj hf).1
  have search {f handle : Nat} {g : Goal} (hx : s.pc p = .getFind f handle g) :
      findLoop t.mrs handle none (t.files f).mr_list = findLoop s.mrs handle none (s.files f).mr_list := by
    rw [list (reads hx (.head _))]
    exact findLoop_follows (fun m hm => Content.handle.inj (reads hx (.tail _ (List.mem_map_of_mem hm)))) none
  cases h with
  | @openFile u f h hc =>
    have hlike := hl.setFile (f := f) (a := ⟨true, none, [], 0, false⟩) rfl rfl
    refine ⟨_, .openFile (pc h) ((hl.isOpen f).trans hc), hlike, fun c => ?_⟩
    by_cases hcf : c = .info f
    · subst hcf
      exact .inl (by simp [State.content])
    · exact .inr ⟨content_setFile fun he => absurd he hcf, content_setFile fun he => absurd he hcf⟩
  | get h hu => exact ⟨_, .get (pc h) (hl.usable hu), .quiet hl.go (same s) (same t)⟩
  | getLock h hf => exact ⟨_, .getLock (pc h) (lock hf), .quiet hl.setLock.go (content_setLock _) (content_setLock _)⟩
  | found h hm => exact ⟨_, .found (pc h) ((search h).trans hm), .quiet hl.go (same s) (same t)⟩
  | notFound h hm => exact ⟨_, .notFound (pc h) ((search h).trans hm), .quiet hl.go (same s) (same t)⟩
  | getNone h => exact ⟨_, .getNone (pc h), .quiet hl.setLock.go (content_setLock _) (content_setLock _)⟩
  | getDown h hm => exact ⟨_, .getDown (pc h) (sem hm), .quiet hl.down.go (same s) (same t)⟩
  | getUnlock h => exact ⟨_, .getUnlock (pc h), .quiet hl.setLock.go (content_setLock _) (content_setLock _)⟩
  | @use u f m v mr h hu =>
    have hargs := args_eq (reads h (.head _))
    have hrest := rest_eq (reads h (.tail _ (.head _)))
    have hrun : v.run P f (t.mrs m) = some { mr with handle := (t.mrs m).handle } := by
      rw [handle_apart hargs.symm hrest.symm]
      exact Use.run_handle _ hu
    exact ⟨_, .use (pc h) hrun, hl.setMr.go, content_setRest_both (Use.run_rest hu) (Use.run_rest hrun) rfl⟩
  | put h => exact ⟨_, .put (pc h), .quiet hl.up.go (same s) (same t)⟩
  | unpinDown h hm => exact ⟨_, .unpinDown (pc h) (sem hm), .quiet hl.down.go (same s) (same t)⟩
  | unpinDel h => exact ⟨_, .unpinDel (pc h), unlink_follows hl (reads h (.head _)) (reads h (.tail _ (.head _)))⟩
  | unpinUnlock h => exact ⟨_, .unpinUnlock (pc h), .quiet hl.setLock.go (content_setLock _) (content_setLock _)⟩
  | freeTable h hm hp =>
    have hrest := reads h (.head _)
    exact ⟨_, .freeTable (pc h) ((mapped_eq hrest).trans hm) (by rwa [page_table_eq hrest]),
      .quiet hl.up.go (same s) (same t)⟩
  | freeNone h hm hp =>
    have hrest := reads h (.head _)
    exact ⟨_, .freeNone (pc h) ((mapped_eq hrest).trans hm) ((page_table_eq hrest).trans hp),
      .quiet hl.up.go (same s) (same t)⟩
  | putCall h hn => exact ⟨_, .putCall (pc h) (nv hn), .quiet hl.setNv.go (same s) (same t)⟩
  | putReturn h hc => exact ⟨_, .putReturn (pc h) (pc hc), .quiet hl.setNv.setTable.go.go (same s) (same t)⟩
  | putPersistent h hc => exact ⟨_, .putPersistent (pc h) (pc hc), .quiet hl.setNv.setTable.go (same s) (same t)⟩
  | putLate h hc => exact ⟨_, .putLate (pc h) (pc hc), .quiet hl.setNv.go (same s) (same t)⟩
  | @putFails u m r h hc =>
    have hlike : ({ s.setNv none with failed := Function.update s.failed m true } : State).Like
        { t.setNv none with failed := Function.update t.failed m true } := { hl.setNv (o := none) with }
    exact ⟨_, .putFails (pc h) (hc.imp pc pc), .quiet hlike.go.go (same s) (same t)⟩
  | @putDec u m r h =>
    have hlike : (s.dec m).Like (t.dec m) := { hl with }
    exact ⟨_, .putDec (pc h), .quiet hlike.go (same s) (same t)⟩
  | @kfree u m r h =>
    have hlike : ({ s.setPlace m .freed with kfrees := Function.update s.kfrees m (s.kfrees m + 1) } : State).Like
        { t.setPlace m .freed with kfrees := Function.update t.kfrees m (t.kfrees m + 1) } := { hl with }
    exact ⟨_, .kfree (pc h), .quiet hlike.go (same s) (same t)⟩
  | pin h hu => exact ⟨_, .pin (pc h) (hl.usable hu), .quiet hl.go (same s) (same t)⟩
  | pinNoMem h => exact ⟨_, .pinNoMem (pc h), .quiet hl.go (same s) (same t)⟩
  | @pinRefused u f q ret h ha =>
    have hstep := @Step.pinRefused P serial t u f q ret (pc h) ha
    rw [hl.fresh] at hstep
    exact ⟨_, hstep, alloc_follows hl⟩
  | @pinAlloc u f q a h ha =>
    have hstep := @Step.pinAlloc P serial t u f q a (pc h) ha
    rw [hl.fresh] at hstep
    exact ⟨_, hstep, alloc_follows hl⟩
  | pinDown h hm => exact ⟨_, .pinDown (pc h) (sem hm), .quiet hl.down.go (same s) (same t)⟩
  | pinGet h hn => exact ⟨_, .pinGet (pc h) (nv hn), .quiet hl.setNv.go (same s) (same t)⟩
  | pinGot h => exact ⟨_, .pinGot (pc h), .quiet hl.setNv.setTable.go.go (same s) (same t)⟩
  | pinGetFails h => exact ⟨_, .pinGetFails (pc h), .quiet hl.setNv.go (same s) (same t)⟩
  | @pinInc u f m pt h =>
    have hrest := rest_eq (reads h (.head _))
    obtain ⟨hset, haccepted⟩ : onlyRest (tableSet P (t.mrs m) pt).1 = onlyRest (tableSet P (s.mrs m) pt).1 ∧
        (tableSet P (t.mrs m) pt).2 = (tableSet P (s.mrs m) pt).2 := tableSet_follows hrest
    have hlike : ((s.inc m).setMr m (tableSet P (s.mrs m) pt).1).Like
      ((t.inc m).setMr m (tableSet P (t.mrs m) pt).1) := { hl with }
    have hstep := @Step.pinInc P serial t u f m pt (pc h)
    rw [haccepted] at hstep
    exact ⟨_, hstep, hlike.go, content_setRest_both (tableSet_rest _ _) (tableSet_rest _ _) hset⟩
  | pinLock h hf => exact ⟨_, .pinLock (pc h) (lock hf), .quiet hl.setLock.go (content_setLock _) (content_setLock _)⟩
  | @pinAdd u f m handle file h hn =>
    have hinfo := reads h (.head _)
    obtain ⟨file', hn', hlock, hopen, hnext, hover⟩ := newHandle_follows hn hinfo (reads h (.tail _ (.head _)))
    obtain ⟨hlock', hopen', -⟩ := newHandle_file hn
    have hlike := hl.setFile (f := f) (a := { file with mr_list := m :: (s.files f).mr_list })
      (b := { file' with mr_list := m :: (t.files f).mr_list }) (hlock.trans ((hl.lock f).trans hlock'.symm))
      (hopen.trans ((hl.isOpen f).trans hopen'.symm))
    have hlike' := hlike.go (p := .thread u) (x := .pinUp f m handle)
    refine ⟨_, .pinAdd (pc h) hn', ⟨hlike'.pc, hlike'.sem, hlike'.nv, hlike'.fresh, hlike'.lock,
      hlike'.isOpen⟩, fun c => ?_⟩
    by_cases hcl : c = .info f
    · subst hcl
      exact .inl (by simp [State.content, State.go, list hinfo, hnext, hover])
    by_cases hch : c = .handle m
    · subst hch
      exact .inl (by simp [State.content, State.go, State.setPlace, State.setMr])
    · exact .inr ⟨content_link (s := t) hcl hch, content_link (s := s) hcl hch⟩
  | @pinNoHandle u f m h hn =>
    have hn' : newHandle P (t.files f) (t.mrs m) = none := by
      cases hc : newHandle P (t.files f) (t.mrs m) with
      | none => rfl
      | some r =>
        obtain ⟨file', hs, -⟩ := newHandle_follows (s := t) (t := s) hc (reads h (.head _)).symm
          (reads h (.tail _ (.head _))).symm
        rw [hn] at hs
        cases hs
    exact ⟨_, .pinNoHandle (pc h) hn', .quiet hl.go (same s) (same t)⟩
  | pinFail h => exact ⟨_, .pinFail (pc h), .quiet hl.setLock.go (content_setLock _) (content_setLock _)⟩
  | pinUp h => exact ⟨_, .pinUp (pc h), .quiet hl.up.go (same s) (same t)⟩
  | pinUnlock h => exact ⟨_, .pinUnlock (pc h), .quiet hl.setLock.go (content_setLock _) (content_setLock _)⟩
  | pinDone h => exact ⟨_, .pinDone (pc h), .quiet hl.go (same s) (same t)⟩
  | pinUndo h => exact ⟨_, .pinUndo (pc h), .quiet hl.go (same s) (same t)⟩
  | release h ho hf =>
    exact ⟨_, .release (pc h) ((hl.isOpen _).trans ho) (by rwa [hl.pc]), .quiet hl.go (same s) (same t)⟩
  | relLock h hf => exact ⟨_, .relLock (pc h) (lock hf), .quiet hl.setLock.go (content_setLock _) (content_setLock _)⟩
  | relNext h hm => exact ⟨_, .relNext (pc h) ((list (reads h (.head _))).trans hm), .quiet hl.go (same s) (same t)⟩
  | relDown h hm => exact ⟨_, .relDown (pc h) (sem hm), .quiet hl.down.go (same s) (same t)⟩
  | relDel h => exact ⟨_, .relDel (pc h), unlink_follows hl (reads h (.head _)) (reads h (.tail _ (.head _)))⟩
  | @relUnlock u f h hm =>
    have hunlock : (s.setLock f none).Like (t.setLock f none) := hl.setLock
    have hclose : ((s.setLock f none).close f).Like ((t.setLock f none).close f) := hunlock.setFile (hunlock.lock f) rfl
    exact ⟨_, .relUnlock (pc h) ((list (reads h (.head _))).trans hm), .quiet hclose.go content_close content_close⟩
  | cbStart h hn => exact ⟨_, .cbStart (pc h) (nv hn), .quiet hl.setNv.go (same s) (same t)⟩
  | cbDown h hm => exact ⟨_, .cbDown (pc h) (sem hm), .quiet hl.down.go (same s) (same t)⟩
  | cbTable h hp =>
    have hrest := reads h (.head _)
    exact ⟨_, .cbTable (pc h) (by rwa [page_table_eq hrest]), hl.setMr.setTable.go,
      content_setRest_both (cb_rest _) (cb_rest _) (cb_follows (rest_eq hrest))⟩
  | cbNone h hp =>
    have hrest := reads h (.head _)
    exact ⟨_, .cbNone (pc h) ((page_table_eq hrest).trans hp), hl.setMr.go,
      content_setRest_both (cb_rest _) (cb_rest _) (cb_follows (rest_eq hrest))⟩
  | @cbDec m n h =>
    have hrest := reads h (.head _)
    have hlike : (s.dec n).Like (t.dec n) := { hl with }
    exact ⟨_, .cbDec (pc h), hlike.setMr.go, content_setRest_both (taken_rest _) (taken_rest _)
      (taken_follows (rest_eq hrest))⟩
  | cbUp h => exact ⟨_, .cbUp (pc h), .quiet hl.up.go (same s) (same t)⟩
  | cbRet h => exact ⟨_, .cbRet (pc h), .quiet hl.setNv.go (same s) (same t)⟩

end

end

/-! ## What a lock guards -/

/-- What the locks that a party holds guard. -/
def State.Guards (s : State) (p : Party) : Cell → Prop
  | .info f => (s.pc p).lock = some f
  | .handle m => ∃ f, (s.pc p).lock = some f ∧ m ∈ (s.files f).mr_list
  | .args m => ∃ w, (s.pc p).sem = some (m, w)
  | .rest m => ∃ w, (s.pc p).sem = some (m, w)

section
variable {P : Platform} {serial : Bool} {s s' : State} {p q : Party} {m : Nat} {w : Bool} {c : Cell}

theorem Pc.knows_of_sem {x : Pc} (h : x.sem = some (m, w)) : x.Knows m := by
  by_cases hc : x.OfCallback
  · exact .inr (.inr ⟨hc, by cases x <;> simp_all [Pc.OfCallback, Pc.sem, Pc.touching]⟩)
  · rcases Pc.has_of_sem h hc with ho | hr
    · exact .inl ho
    · exact .inr (.inl hr)

theorem Pc.freeing_of_args {files : Nat → File} {x : Pc} (h : .args m ∈ x.writes files) : x.owns = some (m, .done) := by
  cases x with
  | use g n u => cases u <;> simp_all [Pc.writes]
  | relNext g =>
    simp only [Pc.writes] at h
    split at h <;> simp_all
  | _ => simp_all [Pc.writes, Pc.owns]

/-- What a lock guards nobody else is about to write, whether or not its holder is about to access it. -/
theorem Inv.guarded (hi : Inv s) (hg : s.Guards p c) (hw : c ∈ s.writes q) : p = q := by
  have hq : c ∈ s.accesses q := List.mem_append_right _ hw
  cases c with
  | info f => exact hi.locks.mutex_unique hg (Pc.lock_of_info hq)
  | handle m =>
    obtain ⟨f, -, hl⟩ := hg
    rcases Pc.has_of_handle hq with ho | ⟨hn, -⟩
    · exact absurd hl (hi.owned_not_listed ho)
    · exact absurd hw hn
  | args m =>
    obtain ⟨w, hs⟩ := hg
    exact (hi.alone_at_ends (Pc.freeing_of_args hw) (.inr rfl) (Pc.knows_of_sem hs)).symm
  | rest m =>
    obtain ⟨w, hs⟩ := hg
    rcases Pc.has_of_rest hq with ⟨w', hs', hwrite⟩ | ho | ho
    · obtain rfl := hwrite hw
      exact (hi.locks.writer_alone hs' hs).symm
    · exact (hi.alone_at_ends ho (.inl rfl) (Pc.knows_of_sem hs)).symm
    · exact (hi.alone_at_ends ho (.inr rfl) (Pc.knows_of_sem hs)).symm

/-- What a lock guards is there. -/
theorem Inv.has_guarded (hi : Inv s) (hg : s.Guards p c) : s.Has c := by
  have born {m : Nat} (h : s.places.Live m) : m < s.fresh := (hi.live h).1
  have known {m : Nat} {w : Bool} (hs : (s.pc p).sem = some (m, w)) : m < s.fresh := by
    rcases Pc.knows_of_sem hs with ⟨st, ho⟩ | ⟨f, hr⟩ | ⟨hc, ht⟩
    · exact born (hi.places.live_owned (by show (s.pc p).owned = some m; rw [Pc.owned, ho]; rfl))
    · exact born (hi.places.live_refers hr)
    · cases p with
      | thread t => exact absurd hc (hi.thread t)
      | callback n => exact born (hi.live_callback ht)
  cases c with
  | info f => exact hi.file p f (Pc.file_of_lock hg)
  | handle m =>
    obtain ⟨f, -, hl⟩ := hg
    exact born (hi.places.live_listed hl)
  | args m =>
    obtain ⟨w, hs⟩ := hg
    exact known hs
  | rest m =>
    obtain ⟨w, hs⟩ := hg
    exact known hs

/-- A party that holds a lock stays where it is while others make a step. -/
theorem Step.pc_other (hi : Inv s) (h : Step P serial s q s') (hne : q ≠ p)
    (hp : (s.pc p).lock ≠ none ∨ (s.pc p).sem ≠ none) : s'.pc p = s.pc p := by
  have outside (ho : (s.pc p).Outside) : False := by
    obtain ⟨hl, hs⟩ := ho.holds
    simp [hl, hs] at hp
  cases h with
  | openFile _ _ => rfl
  | @putReturn t m r h hc =>
    have hpm : p ≠ .callback m := by
      rintro rfl
      exact outside (by rw [hc]; trivial)
    exact (Function.update_of_ne hne.symm ..).trans (Function.update_of_ne hpm ..)
  | @putFails t m r h hc =>
    have hpm : p ≠ .callback m := by
      rintro rfl
      rcases hc with hc | hc <;> exact outside (by rw [hc]; trivial)
    exact (Function.update_of_ne hne.symm ..).trans (Function.update_of_ne hpm ..)
  | @pinGot t f m pt h =>
    have hpm : p ≠ .callback m := by
      rintro rfl
      have hc : s.pc (.callback m) = .idle := hi.callback_idle (by rw [h]; rfl)
      exact outside (by rw [hc]; trivial)
    exact (Function.update_of_ne hne.symm ..).trans (Function.update_of_ne hpm ..)
  | _ => exact Function.update_of_ne hne.symm ..

/-- A step of another party leaves what the locks of a party guard, and these locks. -/
theorem Step.guarded (hi : Inv s) (h : Step P serial s q s') (hne : q ≠ p) (hg : s.Guards p c) :
    s'.content c = s.content c ∧ s'.Guards p c := by
  have keeps {d : Cell} (hd : s.Guards p d) : s'.content d = s.content d :=
    h.writes_only (fun hw => hne (hi.guarded hd hw).symm) (hi.has_guarded hd)
  refine ⟨keeps hg, ?_⟩
  cases c with
  | info f =>
    have hl : (s.pc p).lock = some f := hg
    rw [State.Guards, h.pc_other hi hne (.inl (by rw [hl]; nofun)), hl]
  | handle m =>
    obtain ⟨f, hl, hm⟩ := hg
    obtain ⟨hlist, -, -⟩ := Content.info.inj (keeps (d := .info f) hl)
    exact ⟨f, by rw [h.pc_other hi hne (.inl (by rw [hl]; nofun)), hl], by rwa [hlist]⟩
  | args m | rest m =>
    obtain ⟨w, hs⟩ := hg
    exact ⟨w, by rw [h.pc_other hi hne (.inr (by rw [hs]; nofun)), hs]⟩

/-- In every interleaving, what the locks of a party guard stays as it is while others run: the list and
the counters of a file, with the handles of the mrs on it, under `info->lock`, and all else of an mr under its
semaphore, also if that is held for reading. -/
theorem critical_section {os ps : List Party} (h : Run P serial s os)
    (hp : Runs.Path (Step P serial) s ps s') (ho : p ∉ ps) (hg : s.Guards p c) : s'.content c = s.content c ∧
    s'.Guards p c := by
  have hi : Inv s := run_inv h
  clear h
  induction hp with
  | nil => exact ⟨rfl, hg⟩
  | cons ht _ ih =>
    obtain ⟨hne, ho⟩ := List.ne_and_not_mem_of_not_mem_cons ho
    obtain ⟨hc, hg⟩ := ht.guarded hi hne.symm hg
    obtain ⟨hc', hg'⟩ := ih ho hg (hi.step ht)
    exact ⟨hc'.trans hc, hg'⟩

end

/-- While a pin holds the semaphore of its mr the callback is called: the mr stays as the pin has it. -/
theorem critical_section_callback : ∃ (s s' : State) (os : List Party), Run x86Host false s os ∧
    s'.pc (.callback 0) = .cbDown 0 ∧ s'.content (.rest 0) = s.content (.rest 0) ∧ s'.Guards (.thread 0) (.rest 0) := by
  obtain ⟨s, s', os, h, hs, ht, -, hc⟩ := called_early
  have hg : s.Guards (.thread 0) (.rest 0) := ⟨true, by rw [ht]; rfl⟩
  obtain ⟨hcontent, hg'⟩ := critical_section h (.one hs) (by decide) hg
  exact ⟨s, s', os, h, hc, hcontent, hg'⟩

end gdrdrv.Threads
