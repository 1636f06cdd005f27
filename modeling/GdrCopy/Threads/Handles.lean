import GdrCopy.Driver.Events
import GdrCopy.Threads.Linear
/-!
# Handles under concurrency

The driver whose operations take effect at once keeps the handles on each list apart and
gives no handle out twice on a file. As `SeenRun.follows` shows that it has the files of the
threads and the results they see, so do all interleavings (`handles_unique`).
-/

namespace gdrdrv.Threads

open Shared (Status Config)

section
variable {P : Platform} {a a' : Files} {e : Entry} {r : Result} {f : Nat}

/-! ## The lists of the object -/

/-- Handles lie above one another, and no mr is twice on a list. -/
structure ListsOk (P : Platform) (a : Files) : Prop where
  spaced : ∀ {f info}, a f = some info → Spaced P info
  inj : ∀ {f info}, a f = some info → ∀ m ∈ info.mr_list, ∀ n ∈ info.mr_list, m.ptr = n.ptr → m = n

theorem SameButRest.mapped_size {a b : Mr} (h : SameButRest a b) : a.mapped_size = b.mapped_size := by
  have hsize : (onlyArgs a).mapped_size = (onlyArgs b).mapped_size := by rw [h.2]
  exact hsize

/-- A list that is fine replaces another. -/
theorem ListsOk.update {info : Info} (h : ListsOk P a) (hs : Spaced P info)
    (hi : ∀ m ∈ info.mr_list, ∀ n ∈ info.mr_list, m.ptr = n.ptr → m = n) :
    ListsOk P (Function.update a f (some info)) := by
  constructor
  · intro g i hg
    rcases get_update hg with ⟨-, he⟩ | ⟨-, hg⟩
    · rwa [← Option.some.inj he]
    · exact h.spaced hg
  · intro g i hg
    rcases get_update hg with ⟨-, he⟩ | ⟨-, hg⟩
    · rwa [← Option.some.inj he]
    · exact h.inj hg

theorem ListsOk.put {info : Info} {mr mr' : Mr} (h : ListsOk P a) (hf : a f = some info) (hm : mr ∈ info.mr_list)
    (hr : SameButRest mr' mr) : ListsOk P (Function.update a f (some (info.put mr'))) := by
  have huniq : ∀ m ∈ info.mr_list, m.ptr = mr'.ptr → m = mr := fun m hm' he => h.inj hf m hm' mr hm (he.trans hr.ptr)
  refine h.update ((h.spaced hf).put fun m hm' he => ?_) fun m hm1 n hn1 he => ?_
  · rw [huniq m hm' he, Mr.stop, Mr.stop, hr.1, hr.mapped_size]
    exact ⟨rfl, rfl⟩
  · rcases mem_put hm1 with ⟨rfl, -⟩ | ⟨hm1, hne⟩ <;> rcases mem_put hn1 with ⟨rfl, -⟩ | ⟨hn1, hne'⟩
    · rfl
    · exact absurd he.symm hne'
    · exact absurd he hne
    · exact h.inj hf m hm1 n hn1 he

theorem ListsOk.list_del {info : Info} (h : ListsOk P a) (hf : a f = some info) (mr : Mr) :
    ListsOk P (Function.update a f (some (info.list_del mr))) :=
  h.update ((h.spaced hf).list_del mr) fun m hm n hn he => h.inj hf m (mem_list_del.1 hm).1 n (mem_list_del.1 hn).1 he

/-- The mr of a pin has a size and an address of its own. -/
theorem setUp_args (ptr : Nat) (q : PinReq) (args : Nat × Nat × Bool) (pt : PageTable) :
    (setUp P ptr q args pt).1.ptr = ptr ∧ (setUp P ptr q args pt).1.mapped_size < 2 ^ 64 := by
  have hr : SameButRest (setUp P ptr q args pt).1 (newMr ptr q.addr q.size args.1 args.2.1 args.2.2) :=
    tableSet_rest _ _
  exact ⟨hr.ptr, by rw [hr.mapped_size]; exact Nat.mod_lt _ (by decide)⟩

theorem Applies.ok (h : Applies P a e r a') (ha : ListsOk P a) : ListsOk P a' := by
  cases h with
  | missed _ _ => exact ha
  | used hf hm hu => exact ha.put hf (search_mem hm) (Use.run_rest hu)
  | unpinned hf _ => exact ha.list_del hf _
  | @pinned f q args ptr pt info info' handle hf _ _ hg hfresh =>
    obtain ⟨hptr, hsize⟩ := setUp_args (P := P) ptr q args pt
    obtain ⟨-, -, hlist, -, -, -⟩ := generate_spec hsize (fun ho => ((ha.spaced hf).next ho).1) hg
    refine ha.update ((ha.spaced hf).list_add hsize hg) fun m hm n hn he => ?_
    simp only [Info.list_add, hlist, List.mem_cons] at hm hn
    rcases hm with rfl | hm <;> rcases hn with rfl | hn
    · rfl
    · exact absurd (he.symm.trans hptr) (hfresh f info hf n hn)
    · exact absurd (he.trans hptr) (hfresh f info hf m hm)
    · exact ha.inj hf m hm n hn he
  | pinFailed => exact ha
  | noMem => exact ha
  | @released f info hf =>
    constructor
    · intro g i hg
      rcases get_update hg with ⟨-, he⟩ | ⟨-, hg⟩
      · cases he
      · exact ha.spaced hg
    · intro g i hg
      rcases get_update hg with ⟨-, he⟩ | ⟨-, hg⟩
      · cases he
      · exact ha.inj hg

theorem Happens.ok (h : Happens a a') (ha : ListsOk P a) : ListsOk P a' := by
  cases h with
  | opened _ =>
    refine ha.update ⟨List.Pairwise.nil, fun _ => ⟨Nat.two_pow_pos _, by simp⟩, by simp⟩ (by simp)
  | @revoked f info mr hf hm hp =>
    have hr : SameButRest (Threads.revoked mr) mr := taken_rest _
    exact ha.put hf hm hr

theorem run_listsOk {x : Config Files Nat Entry Result} {es : Trace}
    (h : Runs.Run (atomicDriver P).Start (atomicDriver P).Step x es) : ListsOk P x.state := by
  refine Runs.Run.inv (fun x => ListsOk P x.state) (fun x hx => ?_) (fun x e x' hx ht => ?_) h
  · obtain rfl : x = _ := hx
    exact ⟨by simp [atomicDriver], by simp [atomicDriver]⟩
  · cases ht with
    | call _ => exact hx
    | effect _ ha => exact Applies.ok ha hx
    | again _ _ => exact hx
    | ret _ => exact hx
    | env ha => exact Happens.ok ha hx

/-! ## The handles given out -/

/-- The handle of file `f` that a return gives to its thread. -/
def given (f : Nat) : Visible → Option Nat
  | .ret _ (.pinned g handle) => if g = f then some handle else none
  | _ => none

/-- The handles of file `f` that threads got. -/
def handles (f : Nat) (es : Trace) : List Nat := es.reduceOption.filterMap (given f)

/-- The counter of the file is past the handle, while it counts. -/
def Past (a : Files) (f handle : Nat) : Prop :=
  ∃ info, a f = some info ∧ (info.next_handle_overflow = false → handle < info.next_handle)

/-- Nobody is about to release the file. What threads have got, or are about to get, is behind the counter and
all different. -/
structure Given (f : Nat) (x : Config Files Nat Entry Result) (l : List Nat) : Prop where
  kept : ∀ t, x.client t ≠ .asked (.release f)
  past : ∀ h ∈ l, Past x.state f h
  nodup : l.Nodup
  pending : ∀ t h, x.client t = .done (.pinned f h) → Past x.state f h ∧ h ∉ l ∧
    ∀ u, x.client u = .done (.pinned f h) → u = t

/-- An operation moves the counter of a file on, if at all. -/
theorem Applies.past (h : Applies P a e r a') (ha : ListsOk P a) (he : e ≠ .release f) {n : Nat}
    (hn : Past a f n) : Past a' f n := by
  obtain ⟨info, hf, hlt⟩ := hn
  have same {g : Nat} {i i' : Info} (hi : a g = some i) (ho : i'.next_handle_overflow = i.next_handle_overflow)
      (hx : i'.next_handle = i.next_handle) : Past (Function.update a g (some i')) f n := by
    by_cases hg : f = g
    · subst hg
      obtain rfl := Option.some.inj (hf.symm.trans hi)
      exact ⟨i', Function.update_self .., by rw [ho, hx]; exact hlt⟩
    · exact ⟨info, by rw [Function.update_of_ne hg, hf], hlt⟩
  cases h with
  | missed _ _ => exact ⟨info, hf, hlt⟩
  | used hi _ _ => exact same hi rfl rfl
  | unpinned hi _ => exact same hi rfl rfl
  | @pinned g q args ptr pt i i' handle hi _ _ hg _ =>
    by_cases hgf : f = g
    · subst hgf
      obtain rfl := Option.some.inj (hf.symm.trans hi)
      obtain ⟨ho, -, -, -, -, hnext⟩ := generate_spec (setUp_args ptr q args pt).2
        (fun ho => ((ha.spaced hf).next ho).1) hg
      refine ⟨_, Function.update_self .., fun ho' => ?_⟩
      have hcount : i'.next_handle = _ := hnext ho'
      have := hlt ho
      show n < i'.next_handle
      omega
    · exact ⟨info, by rw [Function.update_of_ne hgf, hf], hlt⟩
  | pinFailed => exact ⟨info, hf, hlt⟩
  | noMem => exact ⟨info, hf, hlt⟩
  | @released g i hi =>
    have hg : f ≠ g := fun hg => he (by rw [hg])
    exact ⟨info, by rw [Function.update_of_ne hg, hf], hlt⟩

/-- A new handle is in front of the counter, and then behind it. -/
theorem Applies.fresh {handle : Nat} (h : Applies P a e (.pinned f handle) a') (ha : ListsOk P a) :
    Past a' f handle ∧ ¬ Past a f handle := by
  cases h with
  | @pinned _ q args ptr pt i i' _ hi _ _ hg _ =>
    obtain ⟨ho, rfl, -, -, -, hnext⟩ := generate_spec (setUp_args ptr q args pt).2
      (fun ho => ((ha.spaced hi).next ho).1) hg
    constructor
    · refine ⟨_, Function.update_self .., fun ho' => ?_⟩
      have hcount : i'.next_handle = _ := hnext ho'
      have := span_pos P (setUp P ptr q args pt).1.mapped_size
      show i.next_handle < i'.next_handle
      omega
    · rintro ⟨info, hf, hlt⟩
      obtain rfl := Option.some.inj (hf.symm.trans hi)
      exact absurd (hlt ho) (Nat.lt_irrefl _)

theorem Happens.past (h : Happens a a') {n : Nat} (hn : Past a f n) : Past a' f n := by
  obtain ⟨info, hf, hlt⟩ := hn
  cases h with
  | @opened g hg =>
    have hgf : f ≠ g := by
      rintro rfl
      rw [hf] at hg
      cases hg
    exact ⟨info, by rw [Function.update_of_ne hgf, hf], hlt⟩
  | @revoked g i mr hi _ _ =>
    by_cases hgf : f = g
    · subst hgf
      obtain rfl := Option.some.inj (hf.symm.trans hi)
      exact ⟨_, Function.update_self .., hlt⟩
    · exact ⟨info, by rw [Function.update_of_ne hgf, hf], hlt⟩

section
variable {x : Config Files Nat Entry Result} {l : List Nat} {t : Nat} {st : Status Entry Result}

theorem Given.files (h : Given f x l) (hp : ∀ n, Past x.state f n → Past a f n) : Given f { x with state := a } l where
  kept := h.kept
  past n hn := hp n (h.past n hn)
  nodup := h.nodup
  pending t n ht := ⟨hp n (h.pending t n ht).1, (h.pending t n ht).2⟩

/-- A thread goes on, and holds no handle back. -/
theorem Given.set (h : Given f x l) (hk : st ≠ .asked (.release f)) (hp : ∀ n, st ≠ .done (.pinned f n)) :
    Given f (x.set t st) l := by
  have other {u : Nat} {st' : Status Entry Result} (hu : (x.set t st).client u = st') (hne : st ≠ st') :
      x.client u = st' := by
    by_cases hut : u = t
    · rw [hut, Config.set_self] at hu
      exact absurd hu hne
    · rwa [Config.set_other hut] at hu
  refine ⟨fun u hu => h.kept u (other hu hk), h.past, h.nodup, fun u n hu => ?_⟩
  obtain ⟨hpast, hl, huniq⟩ := h.pending u n (other hu (hp n))
  exact ⟨hpast, hl, fun v hv => huniq v (other hv (hp n))⟩

/-- A pin takes a handle that nobody has. -/
theorem Given.take {n : Nat} (h : Given f x l) (hold : ¬ Past x.state f n) (hnew : Past a f n)
    (hp : ∀ k, Past x.state f k → Past a f k) : Given f ({ x with state := a }.set t (.done (.pinned f n))) l := by
  have hfree : ∀ u, x.client u ≠ .done (.pinned f n) := fun u hu => hold (h.pending u n hu).1
  refine ⟨fun u hu => ?_, fun k hk => hp k (h.past k hk), h.nodup, fun u k hu => ?_⟩
  · by_cases hut : u = t
    · rw [hut, Config.set_self] at hu
      cases hu
    · rw [Config.set_other hut] at hu
      exact h.kept u hu
  by_cases hut : u = t
  · subst hut
    rw [Config.set_self] at hu
    cases hu
    refine ⟨hnew, fun hk => hold (h.past n hk), fun v hv => ?_⟩
    by_contra hvu
    rw [Config.set_other hvu] at hv
    exact hfree v hv
  · rw [Config.set_other hut] at hu
    obtain ⟨hpast, hl, huniq⟩ := h.pending u k hu
    refine ⟨hp k hpast, hl, fun v hv => ?_⟩
    by_cases hvt : v = t
    · rw [hvt, Config.set_self] at hv
      cases hv
      exact absurd hu (hfree u)
    · rw [Config.set_other hvt] at hv
      exact huniq v hv

/-- The handle reaches the thread. -/
theorem Given.deliver {n : Nat} (h : Given f x l) (ht : x.client t = .done (.pinned f n)) :
    Given f (x.set t .idle) (l ++ [n]) := by
  obtain ⟨hpast, hl, huniq⟩ := h.pending t n ht
  have hset : Given f (x.set t .idle) l := h.set (by simp) (by simp)
  refine ⟨hset.kept, fun k hk => ?_, ?_, fun u k hu => ?_⟩
  · rcases List.mem_append.1 hk with hk | hk
    · exact h.past k hk
    · obtain rfl := List.mem_singleton.1 hk
      exact hpast
  · rw [List.nodup_append]
    refine ⟨h.nodup, List.nodup_singleton n, fun k hk k' hk' he => ?_⟩
    obtain rfl := List.mem_singleton.1 hk'
    exact hl (he ▸ hk)
  · obtain ⟨hpast', hl', huniq'⟩ := hset.pending u k hu
    refine ⟨hpast', fun hk => ?_, huniq'⟩
    rcases List.mem_append.1 hk with hk | hk
    · exact hl' hk
    · -- only `t` had this handle, and it is idle now
      obtain rfl := List.mem_singleton.1 hk
      by_cases hut : u = t
      · rw [hut, Config.set_self] at hu
        cases hu
      · rw [Config.set_other hut] at hu
        exact hut (huniq u hu)

/-- No step gives a handle to a second thread. -/
theorem Given.step {x' : Config Files Nat Entry Result} {ev : Option Visible} (h : Given f x l) (hx : ListsOk P x.state)
    (ht : (atomicDriver P).Step x ev x') (hr : ∀ u, ev ≠ some (.call u (.release f))) :
    Given f x' (l ++ (ev.toList.filterMap (given f))) := by
  cases ht with
  | @call t o hc =>
    simp only [Option.toList_some, List.filterMap_cons, given, List.filterMap_nil, List.append_nil]
    exact h.set (fun he => hr t (by rw [Status.asked.inj he])) (by simp)
  | @effect t o r a hc ha =>
    simp only [Option.toList_none, List.filterMap_nil, List.append_nil]
    have hne : o ≠ .release f := fun ho => h.kept t (by rw [hc, ho])
    have hpast : ∀ n, Past x.state f n → Past a f n := fun n hn => Applies.past ha hx hne hn
    by_cases hp : ∃ n, r = .pinned f n
    · obtain ⟨n, rfl⟩ := hp
      obtain ⟨hnew, hold⟩ := Applies.fresh ha hx
      exact h.take hold hnew hpast
    · exact (h.files hpast).set (by simp) fun n hn => hp ⟨n, Status.done.inj hn⟩
  | @again t o r hc ha =>
    simp only [Option.toList_none, List.filterMap_nil, List.append_nil]
    obtain ⟨g, n, -, rfl⟩ := ha
    exact h.set (by simp) (by simp)
  | @ret t r hc =>
    simp only [Option.toList_some, List.filterMap_cons, List.filterMap_nil]
    by_cases hp : ∃ n, r = .pinned f n
    · obtain ⟨n, rfl⟩ := hp
      simp only [given, if_true]
      exact h.deliver hc
    · have hnone : given f (.ret t r) = none := by
        cases r with
        | pinned g n =>
          have hg : g ≠ f := fun hg => hp ⟨n, by rw [hg]⟩
          simp [given, hg]
        | _ => rfl
      rw [hnone]
      simp only [List.append_nil]
      exact h.set (by simp) (by simp)
  | env ha =>
    simp only [Option.toList_none, List.filterMap_nil, List.append_nil]
    exact h.files fun n hn => Happens.past ha hn

theorem run_given {es : Trace} (h : Runs.Run (atomicDriver P).Start (atomicDriver P).Step x es)
    (hr : ∀ t, .call t (.release f) ∉ es.reduceOption) : Given f x (handles f es) := by
  induction h with
  | start hx =>
    subst hx
    exact ⟨by simp, by simp [handles], by simp [handles], by simp⟩
  | @next x x' ev es hrun ht ih =>
    simp only [List.reduceOption_append, List.mem_append, not_or] at hr
    have hsplit : handles f (es ++ [ev]) = handles f es ++ ev.toList.filterMap (given f) := by
      rw [handles, handles, List.reduceOption_append, List.filterMap_append]
      cases ev <;> rfl
    rw [hsplit]
    refine (ih fun t => (hr t).1).step (run_listsOk hrun) ht fun u hu => (hr u).2 ?_
    rw [hu]
    exact .head _

end

end

/-! ## Every interleaving -/

section
variable {P : Platform} {serial : Bool} {s : State} {f m n : Nat}

/-- In every interleaving of any number of threads and callbacks, the mrs on the list of a file have page
offsets of their own, so a lookup by the handle of one of them finds that one, and as long as the file is not
released no two pins return the same handle. -/
theorem handles_unique {es : Trace} (h : SeenRun P serial s es) :
    (∀ f, s.Usable f → ∀ m ∈ (s.files f).mr_list, findLoop s.mrs (s.mrs m).handle none (s.files f).mr_list = some m ∧
      ∀ n ∈ (s.files f).mr_list, n ≠ m → (s.mrs m).stop P ≤ (s.mrs n).handle ∨ (s.mrs n).stop P ≤ (s.mrs m).handle) ∧
    ∀ f, (∀ t, .call t (.release f) ∉ es.reduceOption) → (handles f es).Nodup := by
  obtain ⟨a, es', hrun, hes, hrel⟩ := h.follows
  obtain ⟨hi, hn⟩ := h.inv
  constructor
  · intro f hu m hm
    have hfile : a.state f = some (s.info P f) := by rw [hrel.state, atom_usable hu]
    have hspaced : Spaced P (s.info P f) := (run_listsOk hrun).spaced hfile
    have hmem {k : Nat} (hk : k ∈ (s.files f).mr_list) : s.settled P k ∈ (s.info P f).mr_list := List.mem_map_of_mem hk
    have hinj {k k' : Nat} (hk : k ∈ (s.files f).mr_list) (hk' : k' ∈ (s.files f).mr_list)
        (he : s.settled P k = s.settled P k') :
        k = k' := by
      rw [← settled_ptr (P := P) hn (hi.listed_born hk), he, settled_ptr hn (hi.listed_born hk')]
    have hhandle (k : Nat) : (s.settled P k).handle = (s.mrs k).handle := (settled_rest k).1
    have hstop (k : Nat) : (s.settled P k).stop P = (s.mrs k).stop P := by
      rw [Mr.stop, Mr.stop, hhandle k, (settled_rest (P := P) k).mapped_size]
    constructor
    · have hsearch := hspaced.search (hmem hm)
      rw [hhandle, info_find] at hsearch
      obtain ⟨k, hk, he⟩ := Option.map_eq_some_iff.1 hsearch
      have hkl : k ∈ (s.files f).mr_list := (findLoop_mem hk).resolve_right (by simp)
      rw [hk, hinj hkl hm he]
    · intro n hn' hne
      rcases hspaced.disjoint (hmem hm) (hmem hn') with he | hd
      · exact absurd (hinj hm hn' he).symm hne
      · rwa [hstop, hhandle, hstop, hhandle] at hd
  · intro f hr
    have hgiven := run_given hrun (f := f) (by rwa [hes])
    have hsame : handles f es = handles f es' := by rw [handles, handles, hes]
    rw [hsame]
    exact hgiven.nodup

end

end gdrdrv.Threads
