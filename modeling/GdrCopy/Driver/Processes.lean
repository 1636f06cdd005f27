import GdrCopy.Driver.Refine
/-!
# The processes that share a file

A file of the driver is for the process that opened it. `gdrdrv_check_same_process`
compares the address of the caller's `struct pid` with the one recorded by
`gdrdrv_open`, which takes no reference: once the opener has exited, Linux may
create a process with its `struct pid` at the same address. The check holds
as long as that does not happen (`Act.Fresh`).
-/

namespace gdrdrv

/-! ## The processes -/

/-- The processes (thread groups) around the driver. They are numbered as they are
created and a number is never used again, unlike the address of a `struct pid`. -/
structure World where
  kernel : Kernel
  /-- `task_tgid` of each living process. -/
  task_tgid : Nat → Option Nat
  born : Nat
  /-- The processes with a descriptor of each file. -/
  fds : List (Nat × Nat)
  /-- The process that executed `gdrdrv_open`. -/
  opener : Nat → Option Nat

inductive Act where
  | fork (p addr : Nat)
  | exit (p : Nat)
  | send (p q f : Nat)
  | close (p f : Nat)
  | openFile (p minor : Nat) (kzalloc : Bool)
  | ioctl (p f : Nat) (cmd : Cmd)
  | mmap (p f start len : Nat) (off : BitVec 64) (env : RemapEnv)
  | munmap (vma : Nat)
  | callback (f ptr : Nat)
  | release (f : Nat) (env : Nat → PutEnv)

section
variable (P : Platform)

/-- One act. A new process inherits the descriptors of its parent, and its
`struct pid` is at any address where no living process has its own. The
file is released once no descriptor and no VMA is left. -/
inductive Acts : World → Act → World → Prop
  | fork {w p a addr} : w.task_tgid p = some a → (∀ q, w.task_tgid q ≠ some addr) →
    Acts w (.fork p addr) { w with
      task_tgid := Function.update w.task_tgid w.born (some addr), born := w.born + 1,
      fds := w.fds ++ (w.fds.filter (·.1 = p)).map fun d => (w.born, d.2) }
  | exit {w p a} : w.task_tgid p = some a →
    Acts w (.exit p) { w with task_tgid := Function.update w.task_tgid p none, fds := w.fds.filter (·.1 ≠ p) }
  | send {w p q f b} : (p, f) ∈ w.fds → w.task_tgid q = some b → Acts w (.send p q f) { w with fds := (q, f) :: w.fds }
  | close {w p f} : Acts w (.close p f) { w with fds := w.fds.filter (· ≠ (p, f)) }
  | openFile {w p a minor kzalloc} : w.task_tgid p = some a → (gdrdrv_open w.kernel minor a kzalloc).1 = 0 →
    Acts w (.openFile p minor kzalloc) { w with
      kernel := (gdrdrv_open w.kernel minor a kzalloc).2, fds := (p, w.kernel.fresh) :: w.fds,
      opener := Function.update w.opener w.kernel.fresh (some p) }
  | openFails {w p a minor kzalloc} : w.task_tgid p = some a → (gdrdrv_open w.kernel minor a kzalloc).1 ≠ 0 →
    Acts w (.openFile p minor kzalloc) w
  | ioctl {w p a f cmd s'} : w.task_tgid p = some a → (p, f) ∈ w.fds → step P w.kernel (.ioctl f a cmd) s' →
    Acts w (.ioctl p f cmd) { w with kernel := s' }
  | mmap {w p a f start len off env s'} : w.task_tgid p = some a → (p, f) ∈ w.fds →
    step P w.kernel (.mmap f a start len off env) s' → Acts w (.mmap p f start len off env) { w with kernel := s' }
  | munmap {w v s'} : step P w.kernel (.munmap v) s' → Acts w (.munmap v) { w with kernel := s' }
  | callback {w f ptr s'} : step P w.kernel (.callback f ptr) s' → Acts w (.callback f ptr) { w with kernel := s' }
  | release {w f env s'} : (∀ p, (p, f) ∉ w.fds) → (∀ v ∈ w.kernel.vmas, v.vm_file ≠ f) →
    step P w.kernel (.release f env) s' → Acts w (.release f env) { w with kernel := s' }

/-- One process is running when the module is loaded. -/
def boot (addr : Nat) : World := ⟨init, fun p => if p = 0 then some addr else none, 1, [], fun _ => none⟩

def Booted (w : World) : Prop := ∃ addr, w = boot addr

/-- Only the process that opened a file can use it. -/
structure OnlyOpener (w : World) : Prop where
  check : ∀ f info p a, w.kernel.files f = some info → w.task_tgid p = some a →
    gdrdrv_check_same_process info a = true → w.opener f = some p
  ioctl : ∀ f info p a, w.kernel.files f = some info → w.task_tgid p = some a → w.opener f ≠ some p →
    ∀ cmd, cmd ≠ .malformed → gdrdrv_ioctl P w.kernel f a cmd = .ok (.err (-EACCES), w.kernel)
  mmap : ∀ f info p a, w.kernel.files f = some info → w.task_tgid p = some a → w.opener f ≠ some p →
    ∀ env vma, gdrdrv_mmap P env w.kernel f a vma = .ok (-EACCES, vma, w.kernel)

/-- A new process does not get the address that an open file has recorded for its opener. -/
def Act.Fresh (w : World) : Act → Prop
  | .fork _ addr => ∀ f info, w.kernel.files f = some info → info.tgid ≠ addr
  | _ => True

end

/-! ## What the check rests on -/

section
variable {P : Platform}

/-- A file that fails the process check refuses every ioctl. -/
theorem ioctl_denied {s : Kernel} {f cur : Nat} {info : Info} (hf : s.files f = some info)
    (hc : gdrdrv_check_same_process info cur = false) {cmd : Cmd} (hcmd : cmd ≠ .malformed) :
    gdrdrv_ioctl P s f cur cmd = .ok (.err (-EACCES), s) := by
  cases cmd <;> first | exact absurd rfl hcmd | simp [gdrdrv_ioctl, hf, hc]

theorem mmap_denied {s : Kernel} {f cur : Nat} {info : Info} (hf : s.files f = some info)
    (hc : gdrdrv_check_same_process info cur = false) (env : RemapEnv) (vma : Vma) :
    gdrdrv_mmap P env s f cur vma = .ok (-EACCES, vma, s) := by
  simp [gdrdrv_mmap, hf, hc]

theorem Does.tgid {s s' : Kernel} {e : Event} (hd : Does P s e s') (hwf : Wf P s) (he : ∀ f, e ≠ .opened f)
    {f : Nat} {info' : Info} (h : s'.files f = some info') : ∃ info, s.files f = some info ∧
    info.tgid = info'.tgid := by
  have other : ∀ {g i x}, s.files g = some i → (∀ i', x = some i' → i.tgid = i'.tgid) →
      s'.files = Function.update s.files g x → ∃ info, s.files f = some info ∧ info.tgid = info'.tgid := by
    intro g i x hg hx hfiles
    rw [hfiles] at h
    rcases get_update h with ⟨rfl, hx'⟩ | ⟨-, h⟩
    · exact ⟨i, hg, hx _ hx'⟩
    · exact ⟨info', h, rfl⟩
  cases hd with
  | quiet hfiles _ _ => exact ⟨info', by rw [← hfiles]; exact h, rfl⟩
  | opened _ _ _ => exact absurd rfl (he _)
  | linked hg hgen hnew hfiles _ _ =>
    refine other hg (fun i' hi => ?_) hfiles
    obtain rfl := Option.some.inj hi
    exact (generate_spec hnew.mapped_size (fun ho => ((hwf.files.spaced hg).next ho).1) hgen).2.2.2.1.symm
  | unlinked hg _ _ hfiles _ => exact other hg (fun i' hi => by obtain rfl := Option.some.inj hi; rfl) hfiles
  | requested hg _ hfiles _ _ => exact other hg (fun i' hi => by obtain rfl := Option.some.inj hi; rfl) hfiles
  | refused hg _ hfiles _ _ => exact other hg (fun i' hi => by obtain rfl := Option.some.inj hi; rfl) hfiles
  | mapped hg _ _ _ _ _ _ hfiles _ _ => exact other hg (fun i' hi => by obtain rfl := Option.some.inj hi; rfl) hfiles
  | closed _ hfiles _ _ =>
    rename_i vma _ _ _
    cases hlk : s.lookup vma.vm_file vma.vm_pgoff with
    | none => exact ⟨info', by rw [← h, hfiles, hlk], rfl⟩
    | some r =>
      obtain ⟨i, mr⟩ := r
      rw [hlk] at hfiles
      exact other (search_listed hlk).1 (fun i' hi => by obtain rfl := Option.some.inj hi; rfl) hfiles
  | invalidated hg _ _ hfiles _ => exact other hg (fun i' hi => by obtain rfl := Option.some.inj hi; rfl) hfiles
  | shut hg _ hfiles _ _ => exact other hg (fun i' hi => by cases hi) hfiles

theorem path_tgid {s s' : Kernel} {es : List Event} (hp : Runs.Path (Does P) s es s') (hwf : Wf P s)
    (he : ∀ e ∈ es, ∀ f, e ≠ .opened f) {f : Nat} {info' : Info} (h : s'.files f = some info') :
    ∃ info, s.files f = some info ∧ info.tgid = info'.tgid := by
  induction hp with
  | nil => exact ⟨info', h, rfl⟩
  | cons hd _ ih =>
    obtain ⟨i1, h1, ht1⟩ := ih (hd.wf hwf) (fun e he' => he e (List.mem_cons_of_mem _ he')) h
    obtain ⟨i2, h2, ht2⟩ := hd.tgid hwf (he _ List.mem_cons_self) h1
    exact ⟨i2, h2, ht2.trans ht1⟩

/-- Once a file is open, no operation changes the process it records. -/
theorem step_tgid {s s' : Kernel} {o : Op} (hwf : Wf P s) (h : step P s o s')
    (ho : ∀ minor cur k, o ≠ .openFile minor cur k) :
    Wf P s' ∧ ∀ f info', s'.files f = some info' → ∃ info, s.files f = some info ∧ info.tgid = info'.tgid := by
  obtain ⟨es, hp, hes⟩ := step_path hwf.files h
  refine ⟨path_wf hp hwf, fun f info' hf => path_tgid hp hwf (fun e he g hg => ?_) hf⟩
  subst hg
  obtain ⟨-, minor, cur, k, ho'⟩ := hes _ he
  exact ho _ _ _ ho'

/-! ## The invariant -/

variable (P) in
/-- The recorded address is the opener's alone among the living processes. -/
structure Owned (w : World) : Prop where
  wf : Wf P w.kernel
  born : ∀ {p a}, w.task_tgid p = some a → p < w.born
  inj : ∀ {p q a}, w.task_tgid p = some a → w.task_tgid q = some a → p = q
  opener : ∀ {f info}, w.kernel.files f = some info →
    ∃ p, w.opener f = some p ∧ p < w.born ∧ ∀ q, w.task_tgid q = some info.tgid → q = p

theorem Owned.booted {w : World} (h : Booted w) : Owned P w := by
  obtain ⟨addr, rfl⟩ := h
  have h0 : ∀ {p a}, (boot addr).task_tgid p = some a → p = 0 := fun {p a} h => by
    simp only [boot] at h
    split at h
    · assumption
    · cases h
  exact ⟨Reachable.wf ⟨[], .start rfl⟩, fun h => by rw [h0 h]; exact Nat.one_pos, fun h h' => (h0 h).trans (h0 h').symm,
    fun h => by cases h⟩

/-- The driver goes on while the processes stay as they are. -/
theorem Owned.kernel {w : World} {o : Op} {s' : Kernel} (h : Owned P w) (ht : step P w.kernel o s')
    (ho : ∀ minor cur k, o ≠ .openFile minor cur k) : Owned P { w with kernel := s' } := by
  obtain ⟨hwf, hfiles⟩ := step_tgid h.wf ht ho
  refine ⟨hwf, h.born, h.inj, fun {f info'} hf => ?_⟩
  obtain ⟨info, hf0, htgid⟩ := hfiles f info' hf
  obtain ⟨p, hp, hb, hq⟩ := h.opener hf0
  exact ⟨p, hp, hb, fun q hq' => hq q (by rw [htgid]; exact hq')⟩

theorem Owned.fork {w : World} {addr : Nat} (fds : List (Nat × Nat)) (h : Owned P w)
    (hfree : ∀ q, w.task_tgid q ≠ some addr) (hfresh : ∀ f info, w.kernel.files f = some info → info.tgid ≠ addr) :
    Owned P { w with task_tgid := Function.update w.task_tgid w.born (some addr), born := w.born + 1, fds := fds } := by
  have hold : ∀ {q a}, Function.update w.task_tgid w.born (some addr) q = some a →
      q = w.born ∧ a = addr ∨ w.task_tgid q = some a := fun {q a} hq => by
    by_cases he : q = w.born
    · subst he
      rw [Function.update_self] at hq
      exact .inl ⟨rfl, (Option.some.inj hq).symm⟩
    · rw [Function.update_of_ne he] at hq
      exact .inr hq
  refine ⟨h.wf, fun {p a} hp => ?_, fun {p q a} hp hq => ?_, fun {f info} hf => ?_⟩
  · show p < w.born + 1
    rcases hold hp with ⟨rfl, -⟩ | hp
    · exact Nat.lt_succ_self _
    · exact Nat.lt_succ_of_lt (h.born hp)
  · rcases hold hp with ⟨rfl, rfl⟩ | hp' <;> rcases hold hq with ⟨rfl, ha⟩ | hq'
    · rfl
    · exact absurd hq' (hfree q)
    · rw [ha] at hp'
      exact absurd hp' (hfree p)
    · exact h.inj hp' hq'
  · obtain ⟨p, hp, hb, hq⟩ := h.opener hf
    refine ⟨p, hp, Nat.lt_succ_of_lt hb, fun q hq' => ?_⟩
    rcases hold hq' with ⟨-, ha⟩ | hq'
    · exact absurd ha (hfresh f info hf)
    · exact hq q hq'

theorem Owned.exit {w : World} (p : Nat) (fds : List (Nat × Nat)) (h : Owned P w) :
    Owned P { w with task_tgid := Function.update w.task_tgid p none, fds := fds } := by
  have hold : ∀ {q a}, Function.update w.task_tgid p none q = some a → w.task_tgid q = some a := fun {q a} hq => by
    by_cases he : q = p
    · subst he
      rw [Function.update_self] at hq
      cases hq
    · rwa [Function.update_of_ne he] at hq
  refine ⟨h.wf, fun hq => h.born (hold hq), fun hq hq' => h.inj (hold hq) (hold hq'), fun {f info} hf => ?_⟩
  obtain ⟨p0, hp0, hb, hq⟩ := h.opener hf
  exact ⟨p0, hp0, hb, fun q hq' => hq q (hold hq')⟩

theorem Owned.openFile {w : World} {p a minor : Nat} {kzalloc : Bool} (fds : List (Nat × Nat)) (h : Owned P w)
    (hp : w.task_tgid p = some a) (hret : (gdrdrv_open w.kernel minor a kzalloc).1 = 0) :
    Owned P { w with
      kernel := (gdrdrv_open w.kernel minor a kzalloc).2, fds := fds,
      opener := Function.update w.opener w.kernel.fresh (some p) } := by
  obtain ⟨es, hpath, -⟩ := step_path (P := P) h.wf.files ⟨_, @Step.openFile P w.kernel minor a kzalloc⟩
  refine ⟨path_wf hpath h.wf, h.born, h.inj, fun {f info} hf => ?_⟩
  have hfiles : (gdrdrv_open w.kernel minor a kzalloc).2.files =
      Function.update w.kernel.files w.kernel.fresh (some ⟨[], a, 0, false⟩) := by
    unfold gdrdrv_open at hret ⊢
    by_cases hm : 1 ≤ minor
    · rw [if_pos hm] at hret
      cases hret
    rw [if_neg hm] at hret ⊢
    by_cases hk : (!kzalloc) = true
    · rw [if_pos hk] at hret
      cases hret
    rw [if_neg hk]
    rfl
  rw [hfiles] at hf
  show ∃ p0, Function.update w.opener w.kernel.fresh (some p) f = some p0 ∧ _
  rcases get_update hf with ⟨rfl, hi⟩ | ⟨hne, hf⟩
  · obtain rfl := Option.some.inj hi
    exact ⟨p, Function.update_self .., h.born hp, fun q hq => h.inj hq hp⟩
  · rw [Function.update_of_ne hne]
    exact h.opener hf

/-- Every act keeps the invariant when a new process does not get a recorded address. -/
theorem Owned.acts {w w' : World} {act : Act} (h : Owned P w) (hfresh : act.Fresh w) (ht : Acts P w act w') :
    Owned P w' := by
  cases ht with
  | fork _ hfree => exact h.fork _ hfree hfresh
  | exit _ => exact h.exit _ _
  | send _ _ => exact ⟨h.wf, h.born, h.inj, h.opener⟩
  | close => exact ⟨h.wf, h.born, h.inj, h.opener⟩
  | openFile hp hret => exact h.openFile _ hp hret
  | openFails _ _ => exact h
  | ioctl _ _ ht => exact h.kernel ht nofun
  | mmap _ _ ht => exact h.kernel ht nofun
  | munmap ht => exact h.kernel ht nofun
  | callback ht => exact h.kernel ht nofun
  | release _ _ ht => exact h.kernel ht nofun

theorem Owned.onlyOpener {w : World} (h : Owned P w) : OnlyOpener P w := by
  have hcheck : ∀ f info p a, w.kernel.files f = some info → w.task_tgid p = some a →
      gdrdrv_check_same_process info a = true → w.opener f = some p := by
    intro f info p a hf hp hc
    obtain ⟨p0, hp0, -, hq⟩ := h.opener hf
    have ha : info.tgid = a := beq_iff_eq.1 hc
    rw [hq p (by rw [ha]; exact hp)]
    exact hp0
  have hdenied : ∀ f info p a, w.kernel.files f = some info → w.task_tgid p = some a → w.opener f ≠ some p →
      gdrdrv_check_same_process info a = false := fun f info p a hf hp hne =>
    Bool.eq_false_iff.2 fun hc => hne (hcheck f info p a hf hp hc)
  exact ⟨hcheck, fun f info p a hf hp hne cmd hcmd => ioctl_denied hf (hdenied f info p a hf hp hne) hcmd,
    fun f info p a hf hp hne => mmap_denied hf (hdenied f info p a hf hp hne)⟩

/-- A process created at a recorded address would pass the check of a file it did not open. -/
theorem Owned.fresh {w w' : World} {act : Act} (h : Owned P w) (ht : Acts P w act w') (hg : OnlyOpener P w') :
    act.Fresh w := by
  cases ht with
  | fork _ _ =>
    rintro f info hf rfl
    have hp : w.opener f = some w.born := hg.check f info w.born info.tgid hf (Function.update_self ..)
      (beq_self_eq_true _)
    obtain ⟨p0, hp0, hb, -⟩ := h.opener hf
    obtain rfl := Option.some.inj (hp.symm.trans hp0)
    exact Nat.lt_irrefl _ hb
  | _ => trivial

/-! ## The check -/

/-- The runs in every state of which only the opener can use a file are the runs in
which no process is created at an address that an open file has recorded. -/
theorem only_opener {w : World} {acts : List Act} :
    Runs.Always (OnlyOpener P) Booted (Acts P) w acts ↔ Runs.Run Booted (Runs.only Act.Fresh (Acts P)) w acts :=
  Runs.Run.always_iff (Owned P) (fun _ h => .booted h) (fun _ _ _ h hf ht => h.acts hf ht) (fun _ h => h.onlyOpener)
    fun _ _ _ h ht hg => h.fresh ht hg

/-- A process opens the file and has a child, which keeps the file when its parent exits.
The next process is created where the opener was. -/
theorem successor_passes : ¬ ∀ P w acts, Runs.Run Booted (Acts P) w acts → OnlyOpener P w := by
  intro h
  have h0 : Runs.Run Booted (Acts x86Host) (boot 7) [] := .start ⟨7, rfl⟩
  have h1 := h0.next (o := .openFile 0 0 true) (.openFile (a := 7) rfl rfl)
  have free8 : ∀ q, (boot 7).task_tgid q ≠ some 8 := fun q => by simp only [boot]; split <;> simp
  have h2 := h1.next (o := .fork 0 8) (.fork (a := 7) rfl (by exact free8))
  have h3 := h2.next (o := .exit 0) (.exit (a := 7) rfl)
  have free7 : ∀ q, Function.update (Function.update (boot 7).task_tgid 1 (some 8)) 0 none q ≠ some 7 := fun q => by
    simp only [boot, Function.update_apply]
    split_ifs <;> simp
  have h4 := h3.next (o := .fork 1 7) (.fork (a := 8) rfl (by exact free7))
  have := (h _ _ _ h4).check 0 ⟨[], 7, 0, false⟩ 2 7 rfl rfl rfl
  cases this

end

end gdrdrv
