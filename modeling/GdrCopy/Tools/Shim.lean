import GdrCopy.Lib.Runs
import GdrCopy.Tools.Sizes
/-!
# The MLC shim

`mlc_bar_intercept.c`: a library that is preloaded into a benchmark and hands out
slices of a mapped BAR instead of memory. The eight allocation calls and `free` and
`munmap`, each as the C code has it; what the C library would answer is a parameter of
the call, and what the shim finds when it starts is an `Env`.
-/

namespace mlc

open pcibarlat (parse_size_env)

/-- `size_t`, and addresses. -/
abbrev Size := BitVec 64

def MAP_FIXED : Nat := 0x10
def MAP_ANONYMOUS : Nat := 0x20
def ENOMEM : Nat := 12

def DEFAULT_MIN_ALLOC : Nat := 1 <<< 20

def round_up_pow2 (value align : Size) : Size := (value + align - 1) &&& ~~~(align - 1)

/-! ## Calls -/

structure MmapArgs where
  addr : Size
  length : Size
  prot : Nat
  flags : Nat
  fd : Int
  offset : Int

def MmapArgs.anonymous (a : MmapArgs) : Bool := a.flags &&& MAP_ANONYMOUS ≠ 0 || a.fd = -1

inductive Request where
  | mmap (a : MmapArgs)
  | mmap64 (a : MmapArgs)
  | posix_memalign (alignment size : Size)
  | aligned_alloc (alignment size : Size)
  | memalign (alignment size : Size)
  | valloc (size : Size)
  | pvalloc (size : Size)
  | malloc (size : Size)

def Request.size : Request → Size
  | .mmap a => a.length
  | .mmap64 a => a.length
  | .posix_memalign _ size => size
  | .aligned_alloc _ size => size
  | .memalign _ size => size
  | .valloc size => size
  | .pvalloc size => size
  | .malloc size => size

/-- A pointer, or `errno`. `posix_memalign` returns its `errno` and stores its pointer. -/
inductive Ret where
  | ptr (p : Size)
  | fail (errno : Nat)
  deriving DecidableEq, Repr

/-- Where an answer comes from: a slice of the BAR, a refusal, or the C library. A call through
a pointer that is still `NULL` does not return. -/
inductive Answer where
  | bar (ptr : Size)
  | enomem
  | real (r : Ret)
  | crash
  deriving DecidableEq, Repr

def Answer.ret : Answer → Option Ret
  | .bar ptr => some (.ptr ptr)
  | .enomem => some (.fail ENOMEM)
  | .real r => some r
  | .crash => none

/-- What becomes of memory that is given back: the shim keeps it, the C library gets it, or, if that
has no function for it, it is lost or the call does not return. -/
inductive Freed where
  | kept
  | passed
  | lost
  | crash
  deriving DecidableEq, Repr

/-! ## Start -/

/-- The functions of the C library. -/
inductive Symbol where
  | mmap | mmap64 | munmap | malloc | free | posix_memalign | aligned_alloc | memalign | valloc | pvalloc
  deriving DecidableEq, Repr

/-- The order in which `resolve_real_symbols` looks them up. -/
def resolve_real_symbols : List Symbol :=
  [.mmap, .mmap64, .munmap, .malloc, .free, .posix_memalign, .aligned_alloc, .memalign, .valloc, .pvalloc]

/-- The environment variables, the symbols `dlsym` finds, whether `strtoull` knows `0b`, and what `sysconf`,
`open` and the real `mmap` answer. -/
structure Env where
  PCIBAR_MLC_RESOURCE : Option (List Char)
  PCIBAR_MLC_MIN_ALLOC : Option (List Char)
  PCIBAR_MLC_SIZE : Option (List Char)
  PCIBAR_MLC_INTERCEPT : Option (List Char)
  sysconf : Size
  dlsym : Symbol → Bool
  binary : Bool
  open_rdwr : Bool
  open_rdonly : Bool
  mapped : Option Size

namespace Env
variable (env : Env)

def page_size : Size := if env.sysconf = 0 then 4096 else env.sysconf

def min_alloc : Size := BitVec.ofNat 64 (parse_size_env env.binary env.PCIBAR_MLC_MIN_ALLOC DEFAULT_MIN_ALLOC)

def bar_size : Size := BitVec.ofNat 64 (parse_size_env env.binary env.PCIBAR_MLC_SIZE 0)

def intercept_mmap : Bool :=
  match env.PCIBAR_MLC_INTERCEPT with
  | none => true
  | some mode => mode = "mmap".toList || mode = "all".toList

def intercept_alloc : Bool :=
  match env.PCIBAR_MLC_INTERCEPT with
  | none => false
  | some mode => mode = "alloc".toList || mode = "all".toList

end Env

/-- How far `init_once` has come: it still looks up `left`, or it has read the environment. -/
inductive Init where
  | resolving (left : List Symbol)
  | opening
  deriving DecidableEq, Repr

/-- The static variables. `real` tells which of the pointers `real_*_fn` are set, `bar_base` is 0
while no BAR is mapped, and `init` is there while `init_running` is set. -/
structure Shim where
  real : Symbol → Bool
  init_done : Bool
  init : Option Init
  intercept_mmap : Bool
  intercept_alloc : Bool
  bar_base : Size
  bar_size : Size
  bar_next : Size
  page_size : Size
  min_alloc : Size

def Shim.init_running (s : Shim) : Bool := s.init.isSome

def Shim.initial : Shim := ⟨fun _ => false, false, none, true, false, 0, 0, 0, 0, BitVec.ofNat 64 DEFAULT_MIN_ALLOC⟩

namespace Shim
variable (env : Env) (s : Shim)

/-- `init_once` sets `init_running`. -/
def initStart : Shim := { s with init := some (.resolving resolve_real_symbols) }

/-- The next symbol is `x`, with `left` behind it. -/
def initSymbol (x : Symbol) (left : List Symbol) : Shim :=
  { s with real := Function.update s.real x (env.dlsym x), init := some (.resolving left) }

def initSymbols : List Symbol → Shim → Shim
  | [], s => s
  | x :: left, s => initSymbols left (s.initSymbol env x left)

/-- The page size and the environment variables. -/
def initRead : Shim :=
  { s with
    init := some .opening
    page_size := env.page_size
    min_alloc := env.min_alloc
    bar_size := env.bar_size
    intercept_mmap := env.intercept_mmap
    intercept_alloc := env.intercept_alloc }

/-- The rest of it: the BAR is mapped, or the shim stays disabled. -/
def initFinish : Shim :=
  let done := { s with init_done := true, init := none }
  if env.PCIBAR_MLC_RESOURCE.getD [] = [] || s.bar_size = 0 || !s.real .mmap then done
  else if !env.open_rdwr && !env.open_rdonly then done
  else
    match env.mapped with
    | none => done
    | some base => { done with bar_base := base }

/-- A call made while it runs finds `init_running` set and goes on. -/
def init_once : Shim :=
  if s.init_done || s.init_running then s
  else ((initSymbols env resolve_real_symbols s.initStart).initRead env).initFinish env

def is_bar_pointer (ptr : Size) : Bool := s.bar_base ≠ 0 && s.bar_base ≤ ptr && ptr < s.bar_base + s.bar_size

/-! ## The allocator -/

/-- A pointer into the BAR, or 0. -/
def bar_alloc (size align : Size) : Size × Shim :=
  let s := s.init_once env
  if s.bar_base = 0 || size < s.min_alloc then (0, s)
  else
    let align := if align < s.page_size then s.page_size else align
    if align &&& (align - 1) ≠ 0 then (0, s)
    else
      let start := round_up_pow2 s.bar_next align
      let stop := start + size
      if stop ≥ start ∧ stop ≤ s.bar_size then
        (s.bar_base + start, { s with bar_next := round_up_pow2 stop s.page_size })
      else (0, s)

/-- What most of the calls do with what `bar_alloc` returned; `real` is the C library's answer. -/
def redirect (r : Size × Shim) (real : Answer) : Answer × Shim :=
  if r.1 ≠ 0 then (.bar r.1, r.2) else if r.2.bar_base ≠ 0 then (.enomem, r.2) else (real, r.2)

/-- `mmap` and `mmap64`. -/
def mmapVia (real : Answer) (a : MmapArgs) : Answer × Shim :=
  let s := s.init_once env
  if !s.init_running && s.intercept_mmap && a.anonymous && a.flags &&& MAP_FIXED = 0 && a.length ≥ s.min_alloc then
    redirect (s.bar_alloc env a.length s.page_size) real
  else (real, s)

/-- The calls for aligned memory, after `init_once`. -/
def alignedVia (real : Answer) (size align : Size) : Answer × Shim :=
  if s.intercept_alloc then redirect (s.bar_alloc env size align) real else (real, s)

/-- The C library's function at `real_*_fn` is called, and answers `r`. -/
def call (fn : Symbol) (r : Ret) : Answer := if s.real fn then .real r else .crash

variable (real : Request → Ret)

def mmap (a : MmapArgs) : Answer × Shim := s.mmapVia env ((s.init_once env).call .mmap (real (.mmap a))) a

def mmap64 (a : MmapArgs) : Answer × Shim :=
  let s1 := s.init_once env
  s.mmapVia env (if s1.real .mmap64 then s1.call .mmap64 (real (.mmap64 a)) else s1.call .mmap (real (.mmap a))) a

def posix_memalign (alignment size : Size) : Answer × Shim :=
  let s := s.init_once env
  s.alignedVia env (s.call .posix_memalign (real (.posix_memalign alignment size))) size alignment

def aligned_alloc (alignment size : Size) : Answer × Shim :=
  let s := s.init_once env
  s.alignedVia env (s.call .aligned_alloc (real (.aligned_alloc alignment size))) size alignment

def memalign (alignment size : Size) : Answer × Shim :=
  let s := s.init_once env
  s.alignedVia env (s.call .memalign (real (.memalign alignment size))) size alignment

def valloc (size : Size) : Answer × Shim :=
  let s := s.init_once env
  s.alignedVia env (s.call .valloc (real (.valloc size))) size s.page_size

def pvalloc (size : Size) : Answer × Shim :=
  let s := s.init_once env
  s.alignedVia env (s.call .pvalloc (real (.pvalloc size))) (round_up_pow2 size s.page_size) s.page_size

/-- The only one to look at `min_alloc` before it refuses, and at its pointer before it calls. -/
def malloc (size : Size) : Answer × Shim :=
  let s := s.init_once env
  let real : Answer := if !s.real .malloc then .enomem else s.call .malloc (real (.malloc size))
  if !s.init_running && s.intercept_alloc then
    let r := s.bar_alloc env size s.page_size
    if r.1 ≠ 0 then (.bar r.1, r.2) else if r.2.bar_base ≠ 0 && size ≥ r.2.min_alloc then (.enomem, r.2)
      else (real, r.2)
  else (real, s)

def request : Request → Answer × Shim
  | .mmap a => s.mmap env real a
  | .mmap64 a => s.mmap64 env real a
  | .posix_memalign alignment size => s.posix_memalign env real alignment size
  | .aligned_alloc alignment size => s.aligned_alloc env real alignment size
  | .memalign alignment size => s.memalign env real alignment size
  | .valloc size => s.valloc env real size
  | .pvalloc size => s.pvalloc env real size
  | .malloc size => s.malloc env real size

def free (ptr : Size) : Freed × Shim :=
  let s := s.init_once env
  (if s.is_bar_pointer ptr then .kept else if s.real .free then .passed else .lost, s)

def munmap (addr _length : Size) : Freed × Shim :=
  let s := s.init_once env
  (if s.is_bar_pointer addr then .kept else if s.real .munmap then .passed else .crash, s)

end Shim

/-! ## Runs -/

/-- A call with the answers around it, or a part of the first `init_once`. Between two parts the C library may
call back. -/
inductive Op where
  | request (k : Request) (real : Request → Ret) (a : Answer)
  | free (ptr : Size) (r : Freed)
  | munmap (addr length : Size) (r : Freed)
  | initStart
  | initSymbol (x : Symbol) (left : List Symbol)
  | initRead
  | initFinish

/-- A call that crashes has no next state. -/
def Step (env : Env) (s : Shim) (o : Op) (s' : Shim) : Prop :=
  match o with
  | .request k real a => a ≠ .crash ∧ s.request env real k = (a, s')
  | .free ptr r => s.free env ptr = (r, s')
  | .munmap addr length r => r ≠ .crash ∧ s.munmap env addr length = (r, s')
  | .initStart => s.init_done = false ∧ s.init = none ∧ s' = s.initStart
  | .initSymbol x left => s.init = some (.resolving (x :: left)) ∧ s' = s.initSymbol env x left
  | .initRead => s.init = some (.resolving []) ∧ s' = s.initRead env
  | .initFinish => s.init = some .opening ∧ s' = s.initFinish env

abbrev ShimRun (env : Env) := Runs.Run (· = Shim.initial) (Step env)

/-! ## What a call does -/

section
variable {env : Env} {s : Shim}

/-- The size and alignment that a call gives to `bar_alloc`. -/
def Request.carve (s : Shim) : Request → Size × Size
  | .mmap a => (a.length, s.page_size)
  | .mmap64 a => (a.length, s.page_size)
  | .posix_memalign alignment size => (size, alignment)
  | .aligned_alloc alignment size => (size, alignment)
  | .memalign alignment size => (size, alignment)
  | .valloc size => (size, s.page_size)
  | .pvalloc size => (round_up_pow2 size s.page_size, s.page_size)
  | .malloc size => (size, s.page_size)

/-- A call that reaches `bar_alloc`. -/
def Shim.intercepts (s : Shim) : Request → Bool
  | .mmap a => !s.init_running && s.intercept_mmap && a.anonymous && a.flags &&& MAP_FIXED = 0 && a.length ≥ s.min_alloc
  | .mmap64 a =>
    !s.init_running && s.intercept_mmap && a.anonymous && a.flags &&& MAP_FIXED = 0 && a.length ≥ s.min_alloc
  | .malloc _ => !s.init_running && s.intercept_alloc
  | _ => s.intercept_alloc

/-- A call that is refused while a BAR is mapped and `bar_alloc` returned nothing. -/
def Shim.refuses (s : Shim) : Request → Bool
  | .malloc size => size ≥ s.min_alloc
  | _ => true

/-- The pointer that the call goes through. -/
def Request.symbol (s : Shim) : Request → Symbol
  | .mmap _ => .mmap
  | .mmap64 _ => if s.real .mmap64 then .mmap64 else .mmap
  | .posix_memalign _ _ => .posix_memalign
  | .aligned_alloc _ _ => .aligned_alloc
  | .memalign _ _ => .memalign
  | .valloc _ => .valloc
  | .pvalloc _ => .pvalloc
  | .malloc _ => .malloc

/-- The call that the C library gets. -/
def Request.forward (s : Shim) : Request → Request
  | .mmap64 a => if s.real .mmap64 then .mmap64 a else .mmap a
  | k => k

/-- The pointer is set. -/
def Request.known (s : Shim) (k : Request) : Bool := s.real (k.symbol s)

/-- What becomes of a call whose pointer is `NULL`. -/
def Request.unknown : Request → Answer
  | .malloc _ => .enomem
  | _ => .crash

def Request.passed (s : Shim) (real : Request → Ret) (k : Request) : Answer :=
  if k.known s then .real (real (k.forward s)) else k.unknown

/-- A call that is passed on never returns a slice. -/
theorem passed_ne_bar (real : Request → Ret) (k : Request) (ptr : Size) : k.passed s real ≠ .bar ptr := by
  intro he
  unfold Request.passed at he
  split_ifs at he
  cases k <;> cases he

theorem passed_mmap64 (real : Request → Ret) (a : MmapArgs) :
    (if s.real .mmap64 then s.call .mmap64 (real (.mmap64 a)) else s.call .mmap (real (.mmap a))) =
    (Request.mmap64 a).passed s real := by
  by_cases h : s.real .mmap64 = true <;> simp [Request.passed, Request.known, Request.symbol, Request.forward,
    Request.unknown, Shim.call, h]

theorem passed_malloc (real : Request → Ret) (size : Size) :
    (if !s.real .malloc then .enomem else s.call .malloc (real (.malloc size))) =
    (Request.malloc size).passed s real := by
  by_cases h : s.real .malloc = true <;> simp [Request.passed, Request.known, Request.symbol, Request.forward,
    Request.unknown, Shim.call, h]

/-- The eight calls are one: `bar_alloc`, if the call is intercepted, and then a slice, a refusal or the C library. -/
theorem request_eq (env : Env) (s : Shim) (real : Request → Ret) (k : Request) :
    s.request env real k =
      if (s.init_once env).intercepts k = true then
        let r := (s.init_once env).bar_alloc env (k.carve (s.init_once env)).1 (k.carve (s.init_once env)).2
        if r.1 ≠ 0 then (.bar r.1, r.2)
        else if (decide (r.2.bar_base ≠ 0) && r.2.refuses k) = true then (.enomem, r.2)
          else (k.passed (s.init_once env) real, r.2)
      else (k.passed (s.init_once env) real, s.init_once env) := by
  have redirect_eq (r : Size × Shim) (passed : Answer) : Shim.redirect r passed = if r.1 ≠ 0 then (.bar r.1, r.2)
      else if (decide (r.2.bar_base ≠ 0) && true) = true then (.enomem, r.2) else (passed, r.2) := by
    rw [Shim.redirect, Bool.and_true]
    simp only [decide_eq_true_eq]
  have aligned_eq (s : Shim) (passed : Answer) (size align : Size) : s.alignedVia env passed size align =
      if s.intercept_alloc then Shim.redirect (s.bar_alloc env size align) passed else (passed, s) := rfl
  cases k with
  | mmap a =>
    rw [Shim.request, Shim.mmap, Shim.mmapVia, redirect_eq]
    rfl
  | mmap64 a =>
    rw [Shim.request, Shim.mmap64]
    dsimp only
    rw [passed_mmap64, Shim.mmapVia, redirect_eq]
    rfl
  | posix_memalign alignment size =>
    rw [Shim.request, Shim.posix_memalign, aligned_eq, redirect_eq]
    rfl
  | aligned_alloc alignment size =>
    rw [Shim.request, Shim.aligned_alloc, aligned_eq, redirect_eq]
    rfl
  | memalign alignment size =>
    rw [Shim.request, Shim.memalign, aligned_eq, redirect_eq]
    rfl
  | valloc size =>
    rw [Shim.request, Shim.valloc, aligned_eq, redirect_eq]
    rfl
  | pvalloc size =>
    rw [Shim.request, Shim.pvalloc, aligned_eq, redirect_eq]
    rfl
  | malloc size =>
    rw [Shim.request, Shim.malloc]
    dsimp only
    rw [passed_malloc]
    rfl

theorem Shim.init_once_started (h : (s.init_done || s.init_running) = true) : s.init_once env = s := if_pos h

theorem Shim.initFinish_done (env : Env) (s : Shim) : (s.initFinish env).init_done = true := by
  unfold Shim.initFinish
  dsimp only
  split_ifs
  · rfl
  · rfl
  · cases env.mapped <;> rfl

/-- `init_once` is over after the first call of it, or runs already. -/
theorem Shim.started_init_once (env : Env) (s : Shim) :
    ((s.init_once env).init_done || (s.init_once env).init_running) = true := by
  cases h : s.init_done || s.init_running with
  | true => rw [Shim.init_once_started h, h]
  | false => rw [Shim.init_once, if_neg (by simp [h]), Shim.initFinish_done, Bool.true_or]

/-- What `bar_alloc` does once the shim is started: nothing, or it moves `bar_next` over one slice. -/
theorem bar_alloc_cases (env : Env) (h : (s.init_done || s.init_running) = true) (size align : Size) :
    s.bar_alloc env size align = (0, s) ∨
    ∃ a start stop, (a = align ∨ a = s.page_size) ∧ s.page_size ≤ a ∧ align ≤ a ∧ a &&& (a - 1) = 0 ∧
    start = round_up_pow2 s.bar_next a ∧
      stop = start + size ∧ start ≤ stop ∧ stop ≤ s.bar_size ∧ s.bar_base ≠ 0 ∧ s.min_alloc ≤ size ∧
      s.bar_alloc env size align = (s.bar_base + start, { s with bar_next := round_up_pow2 stop s.page_size }) := by
  unfold Shim.bar_alloc
  rw [Shim.init_once_started h]
  dsimp only
  by_cases hoff : (decide (s.bar_base = 0) || decide (size < s.min_alloc)) = true
  · exact .inl (if_pos hoff)
  rw [if_neg hoff]
  simp only [Bool.or_eq_true, decide_eq_true_eq, not_or] at hoff
  obtain ⟨a, ha, hor, hpage, hal⟩ : ∃ a, a = (if align < s.page_size then s.page_size else align) ∧
      (a = align ∨ a = s.page_size) ∧
      s.page_size ≤ a ∧ align ≤ a := by
    refine ⟨_, rfl, ?_⟩
    split_ifs with hlt
    · exact ⟨.inr rfl, BitVec.le_refl _, BitVec.le_of_lt hlt⟩
    · exact ⟨.inl rfl, BitVec.not_lt.1 hlt, BitVec.le_refl _⟩
  rw [← ha]
  by_cases hpow : a &&& (a - 1) ≠ 0
  · exact .inl (if_pos hpow)
  rw [if_neg hpow]
  by_cases hin : round_up_pow2 s.bar_next a + size ≥ round_up_pow2 s.bar_next a ∧
    round_up_pow2 s.bar_next a + size ≤ s.bar_size
  · rw [if_pos hin]
    exact .inr ⟨a, _, _, hor, hpage, hal, not_not.1 hpow, rfl, rfl, hin.1, hin.2, hoff.1, BitVec.not_lt.1 hoff.2, rfl⟩
  · exact .inl (if_neg hin)

/-! ## The started shim -/

/-- The environment has not been read yet, so nothing is intercepted. -/
structure Early (s : Shim) : Prop where
  done : s.init_done = false
  idle : s.init = none → s = Shim.initial
  init : s.init ≠ some .opening
  intercept_alloc : s.intercept_alloc = false
  bar_base : s.bar_base = 0
  bar_next : s.bar_next = 0

/-- What `init_once` fixes when it reads the environment. -/
structure Config (env : Env) (s : Shim) : Prop where
  started : (s.init_done || s.init_running) = true
  page_size : s.page_size = env.page_size
  min_alloc : s.min_alloc = env.min_alloc
  bar_size : s.bar_size = env.bar_size
  intercept_mmap : s.intercept_mmap = env.intercept_mmap
  intercept_alloc : s.intercept_alloc = env.intercept_alloc
  base : s.bar_base ≠ 0 → env.mapped = some s.bar_base
  running : s.init_running = true → s.bar_base = 0

/-- A shim that has the environment's settings or none. -/
def Ready (env : Env) (s : Shim) : Prop := Early s ∨ Config env s

theorem initial_early : Early Shim.initial := by
  constructor <;> simp [Shim.initial]

theorem Early.running (h : Early s) (hs : (s.init_done || s.init_running) = true) : s.init_running = true := by
  simpa [h.done] using hs

theorem Early.intercepts (h : Early s) (hs : (s.init_done || s.init_running) = true) (k : Request) :
    s.intercepts k = false := by
  have hrun := h.running hs
  cases k <;> simp [Shim.intercepts, hrun, h.intercept_alloc]

theorem Ready.config (h : Ready env s) (hs : (s.init_done || s.init_running) = true) {k : Request}
    (hi : s.intercepts k = true) :
    Config env s := by
  rcases h with h | h
  · rw [h.intercepts hs k] at hi
    cases hi
  · exact h

/-- No BAR is mapped before `init_once` is over. -/
theorem Ready.unmapped (h : Ready env s) (hs : s.init_done = false ∨ s.init_running = true) : s.bar_base = 0 := by
  rcases h with h | h
  · exact h.bar_base
  · have hstarted := h.started
    rcases hs with hd | hr
    · apply h.running
      simpa [hd] using hstarted
    · exact h.running hr

theorem Early.initRead (h : Early s) : Config env (s.initRead env) :=
  ⟨Bool.or_true _, rfl, rfl, rfl, rfl, rfl, fun hb => absurd h.bar_base hb, fun _ => h.bar_base⟩

theorem Config.initFinish (h : Config env s) : Config env (s.initFinish env) := by
  have hdone (base : Size) (hbase : base ≠ 0 → env.mapped = some base) :
      Config env { s with init_done := true, init := none, bar_base := base } :=
    ⟨rfl, h.page_size, h.min_alloc, h.bar_size, h.intercept_mmap, h.intercept_alloc, hbase, fun hr => by cases hr⟩
  unfold Shim.initFinish
  dsimp only
  split_ifs
  · exact hdone s.bar_base h.base
  · exact hdone s.bar_base h.base
  · cases hm : env.mapped with
    | none => exact hdone s.bar_base h.base
    | some base => exact hdone base fun _ => hm

theorem initFinish_bar_next (env : Env) (s : Shim) : (s.initFinish env).bar_next = s.bar_next := by
  unfold Shim.initFinish
  dsimp only
  split_ifs
  · rfl
  · rfl
  · cases env.mapped <;> rfl

theorem Early.initSymbol (h : Early s) (x : Symbol) (left : List Symbol) : Early (s.initSymbol env x left) :=
  ⟨h.done, fun hn => absurd hn (Option.some_ne_none _),
    by simp [Shim.initSymbol], h.intercept_alloc, h.bar_base, h.bar_next⟩

theorem Early.initSymbols (h : Early s) (l : List Symbol) : Early (Shim.initSymbols env l s) := by
  induction l generalizing s with
  | nil => exact h
  | cons x left ih => exact ih (h.initSymbol x left)

theorem initStart_early : Early Shim.initial.initStart := by
  constructor <;> simp [Shim.initial, Shim.initStart]

/-- The first call of `init_once` reads the environment; one from within it finds the settings or none. -/
theorem init_once_ready (h : Ready env s) : Ready env (s.init_once env) := by
  cases hs : s.init_done || s.init_running with
  | true =>
    rw [Shim.init_once_started hs]
    exact h
  | false =>
    rw [Shim.init_once, if_neg (by simp [hs])]
    rcases h with h | h
    · obtain ⟨-, hr⟩ := Bool.or_eq_false_iff.1 hs
      rw [h.idle (by simpa [Shim.init_running] using hr)]
      exact .inr (initStart_early.initSymbols _).initRead.initFinish
    · rw [h.started] at hs
      cases hs

theorem init_once_bar_next (h : Ready env s) : (s.init_once env).bar_next = s.bar_next := by
  cases hs : s.init_done || s.init_running with
  | true => rw [Shim.init_once_started hs]
  | false =>
    rw [Shim.init_once, if_neg (by simp [hs]), initFinish_bar_next]
    rcases h with h | h
    · obtain ⟨-, hr⟩ := Bool.or_eq_false_iff.1 hs
      rw [h.idle (by simpa [Shim.init_running] using hr)]
      have hearly : Early (Shim.initSymbols env resolve_real_symbols Shim.initial.initStart) :=
        initStart_early.initSymbols _
      exact hearly.bar_next
    · rw [h.started] at hs
      cases hs

theorem Config.next (h : Config env s) (next : Size) : Config env { s with bar_next := next } :=
  ⟨h.started, h.page_size, h.min_alloc, h.bar_size, h.intercept_mmap, h.intercept_alloc, h.base, h.running⟩

theorem bar_alloc_config (h : Config env s) (size align : Size) : Config env (s.bar_alloc env size align).2 := by
  rcases bar_alloc_cases env h.started size align with he | ⟨a, start, stop, -, -, -, -, -, -, -, -, -, -, he⟩
  · rw [he]
    exact h
  · rw [he]
    exact h.next _

theorem request_ready (h : Ready env s) (real : Request → Ret) (k : Request) : Ready env (s.request env real k).2 := by
  have hr := init_once_ready h
  rw [request_eq]
  dsimp only
  by_cases hi : (s.init_once env).intercepts k = true
  · have hc := hr.config (Shim.started_init_once env s) hi
    split_ifs <;> exact .inr (bar_alloc_config hc _ _)
  · rw [if_neg hi]
    exact hr

theorem step_ready {s' : Shim} {o : Op} (h : Ready env s) (ht : Step env s o s') : Ready env s' := by
  cases o with
  | request k real a =>
    have hr := request_ready h real k
    rwa [show s.request env real k = (a, s') from ht.2] at hr
  | free ptr r =>
    rw [← (Prod.mk.inj ht).2]
    exact init_once_ready h
  | munmap addr length r =>
    rw [← (Prod.mk.inj ht.2).2]
    exact init_once_ready h
  | initStart =>
    obtain ⟨hdone, hinit, rfl⟩ := ht
    rcases h with h | h
    · rw [h.idle hinit]
      exact .inl initStart_early
    · have hstarted := h.started
      simp [hdone, Shim.init_running, hinit] at hstarted
  | initSymbol x left =>
    obtain ⟨hinit, rfl⟩ := ht
    rcases h with h | h
    · exact .inl (h.initSymbol x left)
    · exact .inr ⟨Bool.or_true _, h.page_size, h.min_alloc, h.bar_size, h.intercept_mmap, h.intercept_alloc, h.base,
        fun _ => h.running (by simp [Shim.init_running, hinit])⟩
  | initRead =>
    obtain ⟨hinit, rfl⟩ := ht
    rcases h with h | h
    · exact .inr h.initRead
    · have hbase := h.running (by simp [Shim.init_running, hinit])
      exact .inr ⟨Bool.or_true _, rfl, rfl, rfl, rfl, rfl, fun hb => absurd hbase hb, fun _ => hbase⟩
  | initFinish =>
    obtain ⟨hinit, rfl⟩ := ht
    rcases h with h | h
    · exact absurd hinit h.init
    · exact .inr h.initFinish

/-- In every state of a run the shim has the environment's settings or none. -/
theorem ShimRun.ready {os : List Op} (h : ShimRun env s os) : Ready env s := by
  refine h.inv (Ready env) ?_ fun _ _ _ hi ht => step_ready hi ht
  rintro s rfl
  exact .inl initial_early

end

end mlc
