import GdrCopy.Threads.Reach
/-!
# The lifetime of an mr

No party touches an mr after `gdr_free_mr_unlocked` has freed it: what a party is about
to touch it owns, or it found it on a list whose lock or whose semaphore it holds, or it is
the callback of that mr, and `put_pages` waits for that one.
-/

namespace gdrdrv.Threads

/-- The mrs that the next step of a party reads, writes, locks or unlocks. A step that
walks or changes a list touches every mr on it. -/
def Pc.touched (files : Nat → File) : Pc → List Nat
  | .getFind f _ _ => (files f).mr_list
  | .getDown _ m _ => [m]
  | .use _ m _ => [m]
  | .put _ m _ => [m]
  | .unpinDel f m => m :: (files f).mr_list
  | .free m _ _ => [m]
  | .putCall m _ => [m]
  | .kfree m _ => [m]
  | .pinDown _ m => [m]
  | .pinGet _ m => [m]
  | .pinInc _ m _ => [m]
  | .pinAdd f m => m :: (files f).mr_list
  | .pinUp _ m _ => [m]
  | .relNext f => (files f).mr_list
  | .relDown _ m => [m]
  | .relDel f m => m :: (files f).mr_list
  | .cbDown m => [m]
  | .cbBody m => [m]
  | .cbDec m => [m]
  | .cbUp m => [m]
  | _ => []

def State.touched (s : State) (p : Party) : List Nat := (s.pc p).touched s.files

section
variable {P : Platform} {serial : Bool} {s s' : State} {p : Party} {m : Nat}

/-- A step only writes, locks and unlocks the mrs it touches, and the one it allocates. -/
theorem Step.frame (h : Step P serial s p s') (hm : m ∉ s.touched p) (hf : m ≠ s.fresh) :
    s'.mrs m = s.mrs m ∧ s'.sem m = s.sem m ∧ s'.kfrees m = s.kfrees m := by
  have ne {x : Pc} {n : Nat} (h : s.pc p = x) (hn : n ∈ x.touched s.files) : m ≠ n := by
    rintro rfl
    exact hm (by rwa [State.touched, h])
  cases h with
  | getDown h _ | put h | unpinDown h _ | freeTable h _ _ | freeNone h _ _ | pinDown h _ | pinUp h | relDown h _
  | cbDown h _ | cbUp h => exact ⟨rfl, Function.update_of_ne (ne h (by simp [Pc.touched])) .., rfl⟩
  | use h _ | unpinDel h | pinInc h | pinAdd h _ | relDel h | cbTable h _ | cbNone h _ | cbDec h =>
    exact ⟨Function.update_of_ne (ne h (by simp [Pc.touched])) .., rfl, rfl⟩
  | kfree h => exact ⟨rfl, rfl, Function.update_of_ne (ne h (by simp [Pc.touched])) ..⟩
  | pinRefused _ _ | pinAlloc _ _ => exact ⟨Function.update_of_ne hf .., Function.update_of_ne hf .., rfl⟩
  | _ => exact ⟨rfl, rfl, rfl⟩

/-- An mr that exists and is not freed. -/
theorem Inv.live (hi : Inv s) (h : s.places.Live m) : m < s.fresh ∧ s.kfrees m = 0 := by
  obtain ⟨hb, hf⟩ := h
  refine ⟨Nat.lt_of_not_le fun hle => hb ((hi.born m).2 hle), ?_⟩
  have hg := hi.good m
  have hst : s.stage m ≠ .freed := by
    cases hpl : s.place m with
    | unborn => exact absurd hpl hb
    | freed => exact absurd hpl hf
    | listed f => simp [State.stage, hpl]
    | owned q =>
      simp only [State.stage, hpl]
      cases s.pc q with
      | free n held r => cases held <;> simp [Pc.owns]
      | _ => simp [Pc.owns]
  exact hg.kfrees hst

/-- What a party touches it owns or refers to, or it is on a list, or the party is a callback. -/
theorem Pc.touched_cases {files : Nat → File} {x : Pc} (h : m ∈ x.touched files) :
    (∃ st, x.owns = some (m, st)) ∨ (∃ f, x.refers = some (f, m)) ∨ (∃ f, m ∈ (files f).mr_list) ∨
      (x.OfCallback ∧ x.touching = some m) := by
  cases x with
  | free n held r => cases held <;> simp_all [Pc.touched, Pc.owns]
  | getFind f _ _ => exact .inr (.inr (.inl ⟨f, h⟩))
  | relNext f => exact .inr (.inr (.inl ⟨f, h⟩))
  | unpinDel f n =>
    rcases List.mem_cons.1 h with rfl | h
    · exact .inr (.inl ⟨f, rfl⟩)
    · exact .inr (.inr (.inl ⟨f, h⟩))
  | pinAdd f n =>
    rcases List.mem_cons.1 h with rfl | h
    · exact .inl ⟨.main, rfl⟩
    · exact .inr (.inr (.inl ⟨f, h⟩))
  | relDel f n =>
    rcases List.mem_cons.1 h with rfl | h
    · exact .inr (.inl ⟨f, rfl⟩)
    · exact .inr (.inr (.inl ⟨f, h⟩))
  | _ => simp_all [Pc.touched, Pc.owns, Pc.refers, Pc.OfCallback, Pc.touching]

theorem Inv.live_touched (hi : Inv s) (hm : m ∈ s.touched p) : s.places.Live m := by
  rcases Pc.touched_cases hm with ⟨st, ho⟩ | ⟨f, hr⟩ | ⟨f, hl⟩ | ⟨hc, ht⟩
  · exact hi.places.live_owned (by show (s.pc p).owned = some m; rw [Pc.owned, ho]; rfl)
  · exact hi.places.live_refers hr
  · exact hi.places.live_listed hl
  · cases p with
    | thread t => exact absurd hc (hi.thread t)
    | callback n => exact hi.live_callback ht

theorem Inv.kfrees_le (hi : Inv s) (m : Nat) : s.kfrees m ≤ 1 := by
  by_cases hst : s.stage m = .freed
  · have hg := hi.good m
    rw [hst] at hg
    exact Nat.le_of_eq hg.1
  · exact Nat.le_trans (Nat.le_of_eq ((hi.good m).kfrees hst)) (Nat.zero_le 1)

/-- In every interleaving, what a party is about to touch is an mr that exists and has
not been freed, and no mr is freed twice. -/
theorem mr_lifetime {os : List Party} (h : Run P serial s os) :
    (∀ p, ∀ m ∈ s.touched p, m < s.fresh ∧ s.kfrees m = 0) ∧ ∀ m, s.kfrees m ≤ 1 := by
  have hi : Inv s := run_inv h
  exact ⟨fun p m hm => hi.live (hi.live_touched hm), hi.kfrees_le⟩

end

/-- The callback that comes late is about to lock an mr that is still there. -/
theorem mr_lifetime_race : ∃ s os, Run x86Host false s os ∧ 0 ∈ s.touched (.callback 0) ∧
    (∀ p, ∀ m ∈ s.touched p, m < s.fresh ∧ s.kfrees m = 0) ∧ ∀ m, s.kfrees m ≤ 1 := by
  obtain ⟨s, os, -, -, h, -, hc, -⟩ := race
  exact ⟨s, os, h, by rw [State.touched, hc]; exact List.mem_singleton_self 0, mr_lifetime h⟩

end gdrdrv.Threads
