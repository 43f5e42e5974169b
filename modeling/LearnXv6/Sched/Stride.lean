import LearnXv6.Store.Wrap
import LearnXv6.Sched.Table

/-! The stride scheduler lab: `heap.c`, and what the lab puts into `proc.c`. -/
namespace LearnXv6.Sched.Stride
open Store

def CONST : ℤ := 10000
def DEFAULT : ℤ := 50

structure Fields where
  stride : ℤ
  pass : ℤ
  tickets : ℤ
  position : ℤ
  scheduled : ℤ

/-- `last` and `heap[NPROC+1]`. -/
structure Heap where
  last : ℤ
  heap : ℕ → Option Slot

/-- An index outside `heap`, a null pointer, or a recursion without end. -/
inductive Fault where
  | index (i : ℤ)
  | null
  | stack
  deriving DecidableEq, Repr

abbrev State := Table Fields Heap

/-- An index into `heap`. -/
def index (i : ℤ) : Except Fault ℕ :=
  if 0 ≤ i ∧ i ≤ NPROC then .ok i.toNat else .error (.index i)

/-- The process that `heap[i]` points to. -/
def deref (s : State) (i : ℕ) : Except Fault Slot :=
  if i ≤ NPROC then
    match s.queue.heap i with
    | some p => .ok p
    | none => .error .null
  else .error (.index i)

def pass (s : State) (p : Slot) : ℤ := (s.proc p).lab.pass

def position (s : State) (p : Slot) : ℤ := (s.proc p).lab.position

def setPosition (s : State) (p : Slot) (position : ℤ) : State :=
  s.set p fun x => { x with lab := { x.lab with position := position } }

def setHeap (s : State) (i : ℕ) (p : Slot) : State :=
  { s with queue := { s.queue with heap := Function.update s.queue.heap i (some p) } }

def setLast (s : State) (last : ℤ) : State :=
  { s with queue := { s.queue with last := last } }

/-- `tmp = heap[i]; heap[i] = heap[j]; heap[j] = tmp;` and the three assignments to `position`. -/
def exchange (i j : ℕ) (s : State) : Except Fault State := do
  let tmp ← deref s i
  let other ← deref s j
  let s := setHeap (setHeap s i other) j tmp
  let s := setPosition s tmp (position s other)
  let s := setPosition s other (position s tmp)
  return setPosition s tmp (position s tmp)

/-- `if(valid(child, last) && heap[child]->pass < heap[smallest]->pass) smallest = child` -/
def smaller (last child smallest : ℕ) (s : State) : Except Fault ℕ := do
  if child ≤ last then
    let p ← deref s child
    let q ← deref s smallest
    return if pass s p < pass s q then child else smallest
  else
    return smallest

def checkHeapChild (last : ℕ) : ℕ → ℕ → State → Except Fault State
  | 0, _, _ => .error .stack
  | fuel + 1, i, s => do
    let smallest ← smaller last (2 * i) i s
    let smallest ← smaller last (2 * i + 1) smallest s
    if smallest ≠ i then
      let s ← exchange smallest i s
      checkHeapChild last fuel smallest s
    else
      return s

/-- Goes on to the root whether or not it exchanges. It returns its argument, not the final position. -/
def checkHeapParent : ℕ → ℕ → State → Except Fault (ℕ × State)
  | 0, _, _ => .error .stack
  | fuel + 1, i, s => do
    if i = 1 then
      return (i, s)
    else
      let parent := if i % 2 ≠ 0 then (i - 1) / 2 else i / 2
      let p ← deref s parent
      let q ← deref s i
      let s ← if pass s p > pass s q then exchange parent i s else pure s
      let (_, s) ← checkHeapParent fuel parent s
      return (i, s)

def insert (p : Slot) (last : ℤ) (s : State) : Except Fault (ℕ × State) := do
  let i ← index last
  checkHeapParent (NPROC + 1) i (setHeap s i p)

def extract (target last : ℤ) (s : State) : Except Fault (Slot × State) := do
  let target ← index target
  let last ← index last
  let q ← deref s target
  let m ← deref s last
  let s := setPosition s m (position s q)
  let s := setHeap s target m
  let s ← checkHeapChild last (NPROC + 1) target s
  return (q, s)

/-- `p->position = insert(p, ++last, heap)` -/
def enter (p : Slot) (s : State) : Except Fault State := do
  let last := s.queue.last + 1
  let (i, s) ← insert p last (setLast s last)
  return setPosition s p i

/-- `extract(target, heap, last--)` -/
def leave (target : ℤ) (s : State) : Except Fault (Slot × State) :=
  extract target s.queue.last (setLast s (s.queue.last - 1))

/-- A new process with its tickets. -/
def started (tickets : ℤ) (x : Proc Fields) : Proc Fields :=
  { x with
    state := .RUNNABLE
    lab := { x.lab with pass := 0, tickets := tickets, stride := CONST.tdiv tickets } }

def start (tickets : ℤ) (p : Slot) (s : State) : Except Fault State :=
  enter p (s.set p (started tickets))

def fork (tickets : ℤ) (np : Slot) (s : State) : Except Fault State :=
  start (if tickets ≤ 0 then DEFAULT else tickets) np s

def yield (curproc : Slot) (s : State) : Except Fault State := do
  let s ← enter curproc s
  return s.setState curproc .RUNNABLE

def sleep (p : Slot) (chan : Option Chan) (s : State) : Except Fault State := do
  let s := s.set p fun x => { x with chan := chan }
  let s ←
    if (s.proc p).state = .RUNNABLE then do
      let (_, s) ← leave (position s p) s
      pure s
    else pure s
  return s.setState p .SLEEPING

def wake (p : Slot) (s : State) : Except Fault State :=
  enter p (s.setState p .RUNNABLE)

def kill (p : Slot) (s : State) : Except Fault State := do
  let s := s.set p fun x => { x with killed := true }
  let s ←
    if (s.proc p).state = .RUNNABLE then do
      let (_, s) ← leave (position s p) s
      pure s
    else pure s
  return if (s.proc p).state = .SLEEPING then s.setState p .RUNNABLE else s

/-- The process that the scheduler switches to, its `pass` and `scheduled` moved on. A process that was
asleep clears its `chan` when it goes on. -/
def dispatch (p : Slot) (s : State) : State :=
  s.set p fun x =>
    { x with
      state := .RUNNING
      chan := none
      lab := { x.lab with
        pass := wrap (x.lab.pass + x.lab.stride)
        scheduled := wrap (x.lab.scheduled + 1) } }

def scheduler (s : State) : Except Fault (State × List Slot) :=
  if s.queue.last > 0 then do
    let (p, s) ← leave 1 s
    if (s.proc p).state = .RUNNABLE then
      return (dispatch p s, [p])
    else
      return (s, [])
  else
    return (s, [])

def lab : Lab Fields Heap Fault ℤ Empty Slot where
  found := id
  userinit := start DEFAULT
  fork := fork
  yield := yield
  sleep := sleep
  wake := wake
  kill := kill
  scheduler := scheduler
  call x := x.elim

def init : State := boot ⟨0, 0, 0, 0, 0⟩ ⟨0, fun _ => none⟩

end LearnXv6.Sched.Stride
