import LearnXv6.Store.Run
import LearnXv6.Store.Wrap

/-! The semaphores of the thread lab: the system calls, step by step between the operations on the locks.
A step that needs a lock which is taken waits. -/
namespace LearnXv6.Semaphore
open Store

/-- The length of `sema`. -/
def NSEMA : ℕ := 32

abbrev Index := Fin NSEMA

instance : NeZero NSEMA := ⟨by decide⟩

/-- `struct semaphore`, with the process that holds its lock. -/
structure Sema (τ : Type) where
  value : ℤ
  active : Bool
  lock : Option τ

/-- A system call with its arguments, which `argint` takes as they are. -/
inductive Call where
  | init (sem value : ℤ)
  | destroy (sem : ℤ)
  | wait (sem count : ℤ)
  | signal (sem count : ℤ)
  deriving DecidableEq, Repr

def Call.sem : Call → ℤ
  | init sem _ | destroy sem | wait sem _ | signal sem _ => sem

/-- How far a process is in a call. -/
inductive Phase where
  | out
  /-- in `acquire` -/
  | acquiring (c : Call)
  /-- with the lock, before anything else -/
  | locked (i : Index) (c : Call)
  /-- `sem_wait` sleeps on the semaphore -/
  | asleep (i : Index) (c : Call)
  /-- `sem_signal` has added its count -/
  | waking (i : Index)
  /-- before `release` -/
  | releasing (i : Index)
  deriving DecidableEq, Repr

structure State (τ : Type) where
  sema : Index → Sema τ
  phase : τ → Phase

inductive Stop where
  | disabled
  /-- an access to `sema[i]` outside of the table -/
  | index (i : ℤ)
  deriving DecidableEq, Repr

inductive Action (τ : Type) where
  | call (t : τ) (c : Call)
  | acquire (t : τ)
  | body (t : τ)
  | wakeup (t : τ)
  | release (t : τ)
  /-- `kill` wakes a process that sleeps -/
  | kill (t : τ)

inductive Event where
  /-- a call has changed the value -/
  | waited (i : Index) (count : ℤ)
  | signaled (i : Index) (count : ℤ)
  | returned (result : ℤ)
  deriving DecidableEq, Repr

/-- `&sema[sem]`, if it is in the table. -/
def slot (sem : ℤ) : Option Index :=
  if h : 0 ≤ sem ∧ sem < NSEMA then some ⟨sem.toNat, by omega⟩ else none

section Step

variable {τ : Type} [DecidableEq τ]

def State.set (s : State τ) (i : Index) (x : Sema τ) : State τ :=
  { s with sema := Function.update s.sema i x }

def State.goto (s : State τ) (t : τ) (p : Phase) : State τ :=
  { s with phase := Function.update s.phase t p }

/-- A process that sleeps on the semaphore goes on to take its lock. -/
def Phase.wake (i : Index) : Phase → Phase
  | asleep j c => if j = i then acquiring c else asleep j c
  | p => p

/-- `wakeup(&sema[i])` -/
def State.wakeup (s : State τ) (i : Index) : State τ :=
  { s with phase := fun u => (s.phase u).wake i }

/-- `sem_init` with the lock. An active semaphore is left as it is, with its lock. -/
def semInit (t : τ) (i : Index) (value : ℤ) (s : State τ) : State τ × List Event :=
  let x := s.sema i
  if x.active = false then
    ((s.set i { x with active := true, value := value }).goto t (.releasing i), [])
  else (s.goto t .out, [.returned (-1)])

def semDestroy (t : τ) (i : Index) (s : State τ) : State τ × List Event :=
  ((s.set i { s.sema i with active := false }).goto t (.releasing i), [])

/-- `sem_wait` with the lock, which `sleep` releases. -/
def semWait (t : τ) (i : Index) (c : Call) (count : ℤ) (s : State τ) : State τ × List Event :=
  let x := s.sema i
  if count ≤ x.value then
    ((s.set i { x with value := wrap (x.value - count) }).goto t (.releasing i), [.waited i count])
  else ((s.set i { x with lock := none }).goto t (.asleep i c), [])

def semSignal (t : τ) (i : Index) (count : ℤ) (s : State τ) : State τ × List Event :=
  let x := s.sema i
  ((s.set i { x with value := wrap (x.value + count) }).goto t (.waking i), [.signaled i count])

def body (t : τ) (i : Index) (c : Call) (s : State τ) : State τ × List Event :=
  match c with
  | .init _ value => semInit t i value s
  | .destroy _ => semDestroy t i s
  | .wait _ count => semWait t i c count s
  | .signal _ count => semSignal t i count s

def step (a : Action τ) (s : State τ) : Except Stop (State τ × List Event) :=
  match a with
  | .call t c =>
    match s.phase t with
    | .out => .ok (s.goto t (.acquiring c), [])
    | _ => .error .disabled
  | .acquire t =>
    match s.phase t with
    | .acquiring c =>
      match slot c.sem with
      | none => .error (.index c.sem)
      | some i =>
        match (s.sema i).lock with
        | some _ => .error .disabled
        | none => .ok ((s.set i { s.sema i with lock := some t }).goto t (.locked i c), [])
    | _ => .error .disabled
  | .body t =>
    match s.phase t with
    | .locked i c => .ok (body t i c s)
    | _ => .error .disabled
  | .wakeup t =>
    match s.phase t with
    | .waking i => .ok ((s.wakeup i).goto t (.releasing i), [])
    | _ => .error .disabled
  | .release t =>
    match s.phase t with
    | .releasing i => .ok ((s.set i { s.sema i with lock := none }).goto t .out, [.returned 0])
    | _ => .error .disabled
  | .kill t =>
    match s.phase t with
    | .asleep _ c => .ok (s.goto t (.acquiring c), [])
    | _ => .ok (s, [])

def boot : State τ := ⟨fun _ => ⟨0, false, none⟩, fun _ => .out⟩

end Step

end LearnXv6.Semaphore
