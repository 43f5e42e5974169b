import LearnXv6.Store.Run

/-! The pipe of `pipe.c`: one action for each stretch of code that holds the lock of the pipe. -/
namespace LearnXv6.Pipe
open Store

def PIPESIZE : ℕ := 512

/-- Where a process is: in no call, about to get the lock in one of the two calls, or asleep in it on
`&p->nwrite` or `&p->nread`. A write keeps its length and the bytes that are not stored yet. -/
inductive Phase where
  | out
  | pipewrite (n : ℕ) (rest : List UInt8)
  | writeSleep (n : ℕ) (rest : List UInt8)
  | piperead (n : ℕ)
  | readSleep (n : ℕ)
  deriving DecidableEq, Repr

/-- `sleep` returns when its process is killed, on whatever channel it waits. -/
def Phase.woken : Phase → Phase
  | .readSleep n => .piperead n
  | .writeSleep n rest => .pipewrite n rest
  | x => x

/-- `struct pipe`, and the processes that use it. -/
structure State (τ : Type) where
  data : ℕ → UInt8
  nread : ℕ
  nwrite : ℕ
  readopen : Bool
  writeopen : Bool
  /-- after `kfree` -/
  freed : Bool
  killed : τ → Bool
  phase : τ → Phase

/-- The bytes that a write stores, those that a read copies, and the value that a call returns. -/
inductive Event where
  | stored (bytes : List UInt8)
  | returned (bytes : List UInt8)
  | result (r : ℤ)
  deriving DecidableEq, Repr

/-- Why an action is not taken: the process is not where the action starts, or the pipe is no more. -/
inductive Stop where
  | disabled
  | freed
  deriving DecidableEq, Repr

section Code

variable {τ : Type}

def State.full (s : State τ) : Prop := s.nwrite = (s.nread + PIPESIZE) % 2 ^ 32

instance (s : State τ) : Decidable s.full := inferInstanceAs (Decidable (_ = _))

def wakeReaders (s : State τ) : State τ :=
  { s with
    phase := fun t =>
      match s.phase t with
      | .readSleep n => .piperead n
      | x => x }

def wakeWriters (s : State τ) : State τ :=
  { s with
    phase := fun t =>
      match s.phase t with
      | .writeSleep n rest => .pipewrite n rest
      | x => x }

/-- `p->data[p->nwrite++ % PIPESIZE] = b` -/
def State.put (s : State τ) (b : UInt8) : State τ :=
  { s with
    data := Function.update s.data (s.nwrite % PIPESIZE) b
    nwrite := (s.nwrite + 1) % 2 ^ 32 }

/-- The loop of `pipewrite` up to the first byte that finds the pipe full: what is stored, and what is
left. -/
def store : List UInt8 → State τ → List UInt8 × List UInt8 × State τ
  | [], s => ([], [], s)
  | b :: rest, s =>
    if s.full then ([], b :: rest, s)
    else
      let (bytes, rest, s) := store rest (s.put b)
      (b :: bytes, rest, s)

/-- The copying loop of `piperead`. -/
def fetch : ℕ → State τ → List UInt8 × State τ
  | 0, s => ([], s)
  | n + 1, s =>
    if s.nread = s.nwrite then ([], s)
    else
      let b := s.data (s.nread % PIPESIZE)
      let (bytes, s) := fetch n { s with nread := (s.nread + 1) % 2 ^ 32 }
      (b :: bytes, s)

/-- `pipealloc`, with any content of the page. -/
def pipealloc (data : ℕ → UInt8) : State τ where
  data := data
  nread := 0
  nwrite := 0
  readopen := true
  writeopen := true
  freed := false
  killed _ := false
  phase _ := .out

def pipeclose (writable : Bool) (s : State τ) : State τ :=
  let s := if writable then wakeReaders { s with writeopen := false }
    else wakeWriters { s with readopen := false }
  { s with freed := s.readopen = false ∧ s.writeopen = false }

variable [DecidableEq τ]

def State.goto (s : State τ) (t : τ) (x : Phase) : State τ :=
  { s with phase := Function.update s.phase t x }

/-- `pipewrite` from `acquire`, or from the end of `sleep`, to `release` or to the next `sleep`. -/
def pipewrite (t : τ) (n : ℕ) (rest : List UInt8) (s : State τ) : State τ × List Event :=
  let (bytes, rest, s) := store rest s
  match rest with
  | [] => ((wakeReaders s).goto t .out, [.stored bytes, .result n])
  | rest =>
    if s.readopen = false ∨ s.killed t then (s.goto t .out, [.stored bytes, .result (-1)])
    else ((wakeReaders s).goto t (.writeSleep n rest), [.stored bytes])

def piperead (t : τ) (n : ℕ) (s : State τ) : State τ × List Event :=
  if s.nread = s.nwrite ∧ s.writeopen then
    if s.killed t then (s.goto t .out, [.result (-1)]) else (s.goto t (.readSleep n), [])
  else
    let (bytes, s) := fetch n s
    ((wakeWriters s).goto t .out, [.returned bytes, .result bytes.length])

/-- What `kill` does to a process that uses the pipe. -/
def kill (t : τ) (s : State τ) : State τ :=
  { s with
    killed := Function.update s.killed t true
    phase := Function.update s.phase t (s.phase t).woken }

inductive Act (τ : Type) where
  /-- a call with the given bytes -/
  | write (t : τ) (bytes : List UInt8)
  /-- a call with the given length -/
  | read (t : τ) (n : ℕ)
  /-- the process gets the lock -/
  | run (t : τ)
  | close (writable : Bool)
  | kill (t : τ)

def step (a : Act τ) (s : State τ) : Except Stop (State τ × List Event) :=
  match a with
  | .write t bytes =>
    if s.phase t = .out then .ok (s.goto t (.pipewrite bytes.length bytes), [])
    else .error .disabled
  | .read t n => if s.phase t = .out then .ok (s.goto t (.piperead n), []) else .error .disabled
  | .run t =>
    if s.freed then .error .freed
    else
      match s.phase t with
      | .pipewrite n rest => .ok (pipewrite t n rest s)
      | .piperead n => .ok (piperead t n s)
      | _ => .error .disabled
  | .close writable => if s.freed then .error .freed else .ok (pipeclose writable s, [])
  | .kill t => .ok (kill t s, [])

/-- What an action does where it is taken. -/
inductive Does (s : State τ) : Act τ → State τ → List Event → Prop
  | write (t : τ) (bytes : List UInt8) :
      Does s (.write t bytes) (s.goto t (.pipewrite bytes.length bytes)) []
  | read (t : τ) (n : ℕ) : Does s (.read t n) (s.goto t (.piperead n)) []
  | pipewrite {t : τ} {n : ℕ} {rest : List UInt8} : s.phase t = .pipewrite n rest →
      Does s (.run t) (pipewrite t n rest s).1 (pipewrite t n rest s).2
  | piperead {t : τ} {n : ℕ} : s.phase t = .piperead n →
      Does s (.run t) (piperead t n s).1 (piperead t n s).2
  | close (writable : Bool) : Does s (.close writable) (pipeclose writable s) []
  | kill (t : τ) : Does s (.kill t) (kill t s) []

lemma step_does {a : Act τ} {s s' : State τ} {es : List Event} (h : step a s = .ok (s', es)) :
    Does s a s' es := by
  cases a with
  | write t bytes =>
    simp only [step] at h
    split at h
    · cases h
      exact .write t bytes
    · cases h
  | read t n =>
    simp only [step] at h
    split at h
    · cases h
      exact .read t n
    · cases h
  | run t =>
    simp only [step] at h
    obtain ⟨-, h⟩ := else_eq_ok.mp h
    split at h
    · rename_i n rest hphase
      have hpair := Except.ok.inj h
      have hdoes := Does.pipewrite hphase
      rwa [hpair] at hdoes
    · rename_i n hphase
      have hpair := Except.ok.inj h
      have hdoes := Does.piperead hphase
      rwa [hpair] at hdoes
    · cases h
  | close writable =>
    simp only [step] at h
    split at h
    · cases h
    · cases h
      exact .close writable
  | kill t =>
    cases h
    exact .kill t

end Code

end LearnXv6.Pipe
