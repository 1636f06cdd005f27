import GdrCopy.Threads.Lifetime
/-!
# No data races

Parties share the list and the counters of a file, and of each mr its handle, what its pin
asked for and the rest. `info->lock` protects the list with the handles on it, `mr->sem`
the rest of an mr; what a pin asked for is not written again while others know the mr. No
two parties are ever about to make conflicting accesses (`no_data_race`).
-/

namespace gdrdrv.Threads

/-! ## Memory -/

/-- A piece of memory that a step reads or writes as one. -/
inductive Cell where
  /-- `mr_list`, with the links in the mrs on it, and the handle counters of a file. -/
  | info (f : Nat)
  | handle (m : Nat)
  /-- What `__gdrdrv_pin_buffer` sets up from its arguments. -/
  | args (m : Nat)
  /-- The page table, `cb_flag`, the page size, the mapping types, the mapping and the timings. -/
  | rest (m : Nat)
  deriving DecidableEq, Repr

/-- `mr` with nothing but what a pin sets up from its arguments. -/
def onlyArgs (mr : Mr) : Mr :=
  { mr with
    handle := 0, page_size := 0, cpu_mapping_type := .NONE, req_mapping_type := .NONE, page_table := none
    cb_flag := false, tm_cycles := 0, tsc_khz := 0, vma := none, mapping := none }

/-- `mr` without its handle and its arguments. -/
def onlyRest (mr : Mr) : Mr :=
  { mr with ptr := 0, handle := 0, offset := 0, p2p_token := 0, va_space := 0, va := 0, mapped_size := 0, force_pci := false }

inductive Content where
  | info (mr_list : List Nat) (next_handle : Nat) (next_handle_overflow : Bool)
  | handle (handle : Nat)
  | mr (mr : Mr)

def State.content (s : State) : Cell → Content
  | .info f => .info (s.files f).mr_list (s.files f).next_handle (s.files f).next_handle_overflow
  | .handle m => .handle (s.mrs m).handle
  | .args m => .mr (onlyArgs (s.mrs m))
  | .rest m => .mr (onlyRest (s.mrs m))

/-- What the next step of a party reads. A step that writes a part of a piece counts as reading it. -/
def Pc.reads (files : Nat → File) : Pc → List Cell
  | .getFind f _ _ => .info f :: (files f).mr_list.map .handle
  | .use _ m _ => [.args m, .rest m]
  | .unpinDel f m => [.info f, .rest m]
  | .free m _ _ => [.rest m]
  | .putCall m _ => [.args m]
  | .pinGet _ m => [.args m]
  | .pinInc _ m _ => [.rest m]
  | .pinAdd f m => [.info f, .args m]
  | .relNext f => [.info f]
  | .relDel f m => [.info f, .rest m]
  | .cbBody m => [.rest m]
  | .cbDec m => [.rest m]
  | _ => []

/-- What the next step of a party writes. -/
def Pc.writes (files : Nat → File) : Pc → List Cell
  | .use _ _ .read => []
  | .use _ m _ => [.rest m]
  | .unpinDel f m => [.info f, .rest m]
  -- `memset` and `kfree`
  | .kfree m _ => [.handle m, .args m, .rest m]
  | .pinInc _ m _ => [.rest m]
  | .pinAdd f m => [.info f, .handle m]
  -- after the last mr, `kfree(info)`
  | .relNext f => if (files f).mr_list = [] then [.info f] else []
  | .relDel f m => [.info f, .rest m]
  | .cbBody m => [.rest m]
  | .cbDec m => [.rest m]
  | _ => []

def State.reads (s : State) (p : Party) : List Cell := (s.pc p).reads s.files

def State.writes (s : State) (p : Party) : List Cell := (s.pc p).writes s.files

def State.accesses (s : State) (p : Party) : List Cell := s.reads p ++ s.writes p

section
variable {P : Platform} {serial : Bool} {s s' t : State} {p q : Party} {f m : Nat}

/-! ## Who may access what -/

/-- The list of a file is accessed under its lock. -/
theorem Pc.lock_of_info {files : Nat → File} {x : Pc} (h : .info f ∈ x.reads files ++ x.writes files) :
    x.lock = some f := by
  cases x with
  | use g n u => cases u <;> simp_all [Pc.reads, Pc.writes]
  | relNext g =>
    simp only [Pc.reads, Pc.writes] at h
    split at h <;> simp_all [Pc.lock]
  | _ => simp_all [Pc.reads, Pc.writes, Pc.lock]

/-- A handle is read off the list and written by who has the mr. -/
theorem Pc.has_of_handle {files : Nat → File} {x : Pc} (h : .handle m ∈ x.reads files ++ x.writes files) :
    x.owned = some m ∨ .handle m ∉ x.writes files ∧ ∃ f, m ∈ (files f).mr_list := by
  cases x with
  | getFind g _ _ =>
    have hm : m ∈ (files g).mr_list := by simpa [Pc.reads, Pc.writes] using h
    exact .inr ⟨by simp [Pc.writes], g, hm⟩
  | use g n u => cases u <;> simp_all [Pc.reads, Pc.writes]
  | relNext g =>
    simp only [Pc.reads, Pc.writes] at h
    split at h <;> simp_all
  | _ => simp_all [Pc.reads, Pc.writes, Pc.owned, Pc.owns]

/-- What a pin asked for is written by who frees the mr, and else only read. -/
theorem Pc.has_of_args {files : Nat → File} {x : Pc} (h : .args m ∈ x.reads files ++ x.writes files) :
    x.owned = some m ∨ .args m ∉ x.writes files ∧ ∃ f, x.refers = some (f, m) := by
  cases x with
  | use g n u => cases u <;> simp_all [Pc.reads, Pc.writes, Pc.refers]
  | relNext g =>
    simp only [Pc.reads, Pc.writes] at h
    split at h <;> simp_all
  | _ => simp_all [Pc.reads, Pc.writes, Pc.owned, Pc.owns]

/-- The rest of an mr is accessed under its semaphore, but for an mr that nobody knows yet or any more. -/
theorem Pc.has_of_rest {files : Nat → File} {x : Pc} (h : .rest m ∈ x.reads files ++ x.writes files) :
    (∃ w, x.sem = some (m, w) ∧ (.rest m ∈ x.writes files → w = true)) ∨
      x.owns = some (m, .allocated) ∨ x.owns = some (m, .done) := by
  cases x with
  | use g n u => cases u <;> simp_all [Pc.reads, Pc.writes, Pc.sem, Goal.write]
  | free n held r => cases held <;> simp_all [Pc.reads, Pc.writes, Pc.sem, Pc.owns]
  | relNext g =>
    simp only [Pc.reads, Pc.writes] at h
    split at h <;> simp_all
  | _ => simp_all [Pc.reads, Pc.writes, Pc.sem, Pc.owns]

/-- The party has a pointer to the mr, and it is not about to look for it on a list. -/
def Pc.Knows (x : Pc) (m : Nat) : Prop :=
  (∃ st, x.owns = some (m, st)) ∨ (∃ f, x.refers = some (f, m)) ∨ x.OfCallback ∧ x.touching = some m

/-- The rest of an mr is accessed by who has a pointer to it. -/
theorem Pc.knows_of_rest {files : Nat → File} {x : Pc} (h : .rest m ∈ x.reads files ++ x.writes files) : x.Knows m := by
  cases x with
  | use g n u => cases u <;> simp_all [Pc.reads, Pc.writes, Pc.Knows, Pc.refers]
  | free n held r => cases held <;> simp_all [Pc.reads, Pc.writes, Pc.Knows, Pc.owns]
  | relNext g =>
    simp only [Pc.reads, Pc.writes] at h
    split at h <;> simp_all
  | _ => simp_all [Pc.reads, Pc.writes, Pc.Knows, Pc.owns, Pc.refers, Pc.OfCallback, Pc.touching]

/-! ## No conflict -/

theorem Inv.owned_unique (hi : Inv s) (hp : (s.pc p).owned = some m) (hq : (s.pc q).owned = some m) : p = q := by
  have hpm : s.place m = .owned p := (hi.places.owned p m).1 hp
  have hqm : s.place m = .owned q := (hi.places.owned q m).1 hq
  rw [hpm] at hqm
  cases hqm
  rfl

theorem Inv.owned_not_listed (hi : Inv s) (hp : (s.pc p).owned = some m) : m ∉ (s.files f).mr_list := by
  intro hl
  have hpm : s.place m = .owned p := (hi.places.owned p m).1 hp
  have hlm : s.place m = .listed f := (hi.places.listed f m).1 hl
  rw [hpm] at hlm
  cases hlm

theorem Inv.owned_not_referred (hi : Inv s) (hp : (s.pc p).owned = some m) : (s.pc q).refers ≠ some (f, m) := by
  intro hr
  have hpm : s.place m = .owned p := (hi.places.owned p m).1 hp
  have hrm : s.place m = .listed f := hi.places.refers q f m hr
  rw [hpm] at hrm
  cases hrm

/-- An mr that is not yet in `get_pages`, or that is about to be freed, is known to its owner alone. -/
theorem Inv.alone_at_ends (hi : Inv s) {st : Stage} (hp : (s.pc p).owns = some (m, st))
    (hst : st = .allocated ∨ st = .done) (hq : (s.pc q).Knows m) : p = q := by
  have hown : (s.pc p).owned = some m := by rw [Pc.owned, hp]; rfl
  rcases hq with ⟨st', ho⟩ | ⟨g, hr⟩ | ⟨hc, ht⟩
  · exact hi.owned_unique hown (by rw [Pc.owned, ho]; rfl)
  · exact absurd hr (hi.owned_not_referred hown)
  · -- the callback of an mr is at work between the two ends
    cases q with
    | thread u => exact absurd hc (hi.thread u)
    | callback n =>
      obtain ⟨rfl, hstage⟩ := (hi.good n).touching ht
      rw [stage_owned hi.places hp] at hstage
      rcases hst with rfl | rfl <;> simp at hstage

theorem Inv.no_conflict (hi : Inv s) {c : Cell} (hw : c ∈ s.writes p) (ha : c ∈ s.accesses q) : p = q := by
  have hp : c ∈ s.accesses p := List.mem_append_right _ hw
  cases c with
  | info f => exact hi.locks.mutex_unique (Pc.lock_of_info hp) (Pc.lock_of_info ha)
  | handle m =>
    rcases Pc.has_of_handle hp with ho | ⟨hn, -⟩
    · rcases Pc.has_of_handle ha with ho' | ⟨-, g, hl⟩
      · exact hi.owned_unique ho ho'
      · exact absurd hl (hi.owned_not_listed ho)
    · exact absurd hw hn
  | args m =>
    rcases Pc.has_of_args hp with ho | ⟨hn, -⟩
    · rcases Pc.has_of_args ha with ho' | ⟨-, g, hr⟩
      · exact hi.owned_unique ho ho'
      · exact absurd hr (hi.owned_not_referred ho)
    · exact absurd hw hn
  | rest m =>
    rcases Pc.has_of_rest hp with ⟨w, hs, hwrite⟩ | ho | ho
    · obtain rfl := hwrite hw
      rcases Pc.has_of_rest ha with ⟨w', hs', -⟩ | ho' | ho'
      · exact hi.locks.writer_alone hs hs'
      · exact (hi.alone_at_ends ho' (.inl rfl) (Pc.knows_of_rest hp)).symm
      · exact (hi.alone_at_ends ho' (.inr rfl) (Pc.knows_of_rest hp)).symm
    · exact hi.alone_at_ends ho (.inl rfl) (Pc.knows_of_rest ha)
    · exact hi.alone_at_ends ho (.inr rfl) (Pc.knows_of_rest ha)

/-- In every interleaving, what a party is about to write no other party is about to read or write. -/
theorem no_data_race {os : List Party} (h : Run P serial s os) {p q : Party} (hne : p ≠ q) {c : Cell}
    (hc : c ∈ s.writes p) :
    c ∉ s.reads q ∧ c ∉ s.writes q :=
  ⟨fun hr => hne ((run_inv h).no_conflict hc (List.mem_append_left _ hr)),
    fun hw => hne ((run_inv h).no_conflict hc (List.mem_append_right _ hw))⟩

end

/-- A run in which the callback for a page table is called before the pin has stored that page table. -/
theorem called_early : ∃ s s' os, Run x86Host false s os ∧ Step x86Host false s (.callback 0) s' ∧
    s.pc (.thread 0) = .pinInc 0 0 onePage ∧ s'.pc (.thread 0) = .pinInc 0 0 onePage ∧
    s'.pc (.callback 0) = .cbDown 0 := by
  have h0 : Run x86Host false loaded [] := .start loaded_loaded
  have h1 := h0.next (.openFile (t := 0) (f := 0) rfl rfl)
  have h2 := h1.next (.pin (t := 0) (f := 0) (q := ⟨65536, 65536, 0, 0, 0⟩) rfl ⟨rfl, fun p => by exact nofun⟩)
  have h3 := h2.next (.pinAlloc (t := 0) (f := 0) (a := (0, 0, false)) rfl (by decide))
  have h4 := h3.next (.pinDown (t := 0) (f := 0) (m := 0) rfl (by rintro p (h | ⟨-, h⟩) <;> cases h))
  have h5 := h4.next (.pinGet (t := 0) (f := 0) (m := 0) rfl nofun)
  have h6 := h5.next (@Step.pinGot _ _ _ 0 0 0 onePage rfl)
  exact ⟨_, _, _, h6, .cbStart (m := 0) rfl nofun, rfl, rfl, rfl⟩

/-- The pin is about to store the page table, and the callback for it waits. -/
theorem no_data_race_callback : ∃ s os, Run x86Host false s os ∧ s.pc (.callback 0) = .cbDown 0 ∧
    Cell.rest 0 ∈ s.writes (.thread 0) ∧ Cell.rest 0 ∉ s.reads (.callback 0) ∧
    Cell.rest 0 ∉ s.writes (.callback 0) := by
  obtain ⟨s, s', os, h, hs, -, ht, hc⟩ := called_early
  have hw : Cell.rest 0 ∈ s'.writes (.thread 0) := by
    rw [State.writes, ht]
    exact .head _
  obtain ⟨hr, hw'⟩ := no_data_race (h.next hs) (p := .thread 0) (q := .callback 0) nofun hw
  exact ⟨s', _, h.next hs, hc, hw, hr, hw'⟩

end gdrdrv.Threads
