import LearnXv6.Store.Wrap
import LearnXv6.Sched.Table

/-! The O(1) scheduler lab: the two containers of priority queues, and what the lab puts into
`proc.c`. -/
namespace LearnXv6.Sched.O1
open Store Function

def MAX_PRIORITY : ℕ := 20

structure Fields where
  priority : ℤ
  ncicle : ℤ

/-- `struct priority_queue`; a pointer to a queue is its place in its container. -/
structure PriorityQueue where
  next : Option ℕ
  last : ℤ
  pos : ℤ
  procs : ℕ → Option Slot
  priority : ℤ

/-- `struct queue_container` -/
structure Container where
  validity : ℕ → Bool
  queue : ℕ → PriorityQueue
  actualQueue : Option ℕ

/-- The pointers `active` and `expired`. -/
inductive Which where
  | active | expired
  deriving DecidableEq, Repr

def Which.other : Which → Which
  | .active => .expired
  | .expired => .active

abbrev Queues := Which → Container

/-- An index outside `validity` and `queue`, or outside `procs`; a remainder by zero; a null pointer;
or a recursion without end. -/
inductive Fault where
  | queue (i : ℤ)
  | procs (i : ℤ)
  | modulo
  | null
  | stack
  deriving DecidableEq, Repr

/-- What `scheduler` does on the way to a process. -/
inductive Event where
  | exchange
  | returned (p : Slot)
  deriving DecidableEq, Repr

abbrev State := Table Fields Queues

def setContainer (s : State) (w : Which) (c : Container) : State :=
  { s with queue := update s.queue w c }

/-- An index into `validity` and `queue`. -/
def queueIndex (i : ℤ) : Except Fault ℕ :=
  if 0 ≤ i ∧ i < MAX_PRIORITY then .ok i.toNat else .error (.queue i)

/-- The index `i % NPROC` into `procs`. -/
def procsIndex (i : ℤ) : Except Fault ℕ :=
  if 0 ≤ i.tmod NPROC then .ok (i.tmod NPROC).toNat else .error (.procs (i.tmod NPROC))

def Container.setQueue (c : Container) (i : ℕ) (q : PriorityQueue) : Container :=
  { c with queue := update c.queue i q }

def initQueue (queue : PriorityQueue) (priority : ℤ) : PriorityQueue :=
  { queue with next := none, last := -1, pos := 0, priority := priority }

/-- The queue that a new one goes behind: the last valid one of a lower priority. -/
def before (c : Container) (i actual : ℕ) : ℕ :=
  ((List.range i).reverse.find? fun j => c.validity j).getD actual

/-- Makes the queue at `i` valid and empty, and links it in. -/
def addQueue (c : Container) (i : ℕ) (priority : ℤ) : Container :=
  let new := initQueue (c.queue i) priority
  let c := { c.setQueue i new with validity := update c.validity i true }
  match c.actualQueue with
  | none => { c with actualQueue := some i }
  | some actual =>
    if (c.queue actual).priority > priority then
      { c.setQueue i { new with next := some actual } with actualQueue := some i }
    else
      let b := before c i actual
      let c := c.setQueue i { c.queue i with next := (c.queue b).next }
      c.setQueue b { c.queue b with next := some i }

def getQueue (c : Container) (priority : ℤ) : Except Fault (ℕ × Container) := do
  let i ← queueIndex priority
  return (i, if c.validity i then c else addQueue c i priority)

def addProcToQueue (p : Slot) (queue : PriorityQueue) : Except Fault PriorityQueue := do
  let last := wrap (queue.last + 1)
  let i ← procsIndex last
  return { queue with last := last, procs := update queue.procs i (some p) }

def insertRunnable (p : Slot) (w : Which) (s : State) : Except Fault State :=
  if (s.proc p).state ≠ .RUNNABLE then .ok s
  else do
    let (i, c) ← getQueue (s.queue w) (s.proc p).lab.priority
    let queue ← addProcToQueue p (c.queue i)
    return setContainer s w (c.setQueue i queue)

def insertActive (p : Slot) (s : State) : Except Fault State := insertRunnable p .active s

/-- `insertExpired`: one time in `priority + 1` the process goes back to the active container. -/
def insertExpired (p : Slot) (s : State) : Except Fault State :=
  let cicle := (s.proc p).lab.ncicle
  let s := s.set p fun x => { x with lab := { x.lab with ncicle := wrap (cicle + 1) } }
  let m := wrap ((s.proc p).lab.priority + 1)
  if m = 0 then .error .modulo
  else insertRunnable p (if cicle.tmod m = 0 then .active else .expired) s

def exchange (s : State) : State := { s with queue := fun w => s.queue w.other }

/-- Also tells whether the containers were exchanged. -/
def setNextQueue (s : State) : Except Fault (State × List Event) :=
  let active := s.queue .active
  match active.actualQueue with
  | none => .error .null
  | some a => do
    let queue := active.queue a
    let i ← queueIndex queue.priority
    let s := setContainer s .active { active with
      validity := update active.validity i false
      actualQueue := queue.next }
    match queue.next with
    | some _ => return (s, [])
    | none => return (exchange s, [.exchange])

/-- The first entry of the active queue `a` and the rest, once `a` is not used up. -/
def takeProc (a : ℕ) (s : State) : Except Fault (Option Slot × State) := do
  let queue := (s.queue .active).queue a
  let i ← procsIndex queue.pos
  let c := (s.queue .active).setQueue a { queue with pos := wrap (queue.pos + 1) }
  return (queue.procs i, setContainer s .active c)

/-- The exchange for an active container without queues. -/
def nonempty (s : State) : State × List Event :=
  match (s.queue .active).actualQueue with
  | some _ => (s, [])
  | none => (exchange s, [.exchange])

/-- What `getNextProc` does with the first valid queue: when it is used up, it goes on to the next one
and calls itself. -/
def fromQueue (again : State → Except Fault (Option Slot × State × List Event)) (a : ℕ) (s : State) :
    Except Fault (Option Slot × State × List Event) :=
  if ((s.queue .active).queue a).pos > ((s.queue .active).queue a).last then do
    let (s, es₁) ← setNextQueue s
    let (p, s, es₂) ← again s
    return (p, s, es₁ ++ es₂)
  else do
    let (p, s) ← takeProc a s
    return (p, s, [])

/-- `getNextProc` with the exchanges that it makes, to a given depth of its recursion. -/
def getNextProcFuel : ℕ → State → Except Fault (Option Slot × State × List Event)
  | 0, _ => .error .stack
  | fuel + 1, s =>
    let (s, es) := nonempty s
    match (s.queue .active).actualQueue with
    | none => .ok (none, s, es)
    | some a => do
      let (p, s, es') ← fromQueue (getNextProcFuel fuel) a s
      return (p, s, es ++ es')

/-- Each call of itself follows the removal of a valid queue, of which there are at most
`2 * MAX_PRIORITY`. -/
def getNextProc (s : State) : Except Fault (Option Slot × State × List Event) :=
  getNextProcFuel (2 * MAX_PRIORITY + 1) s

def userinit (p : Slot) (s : State) : Except Fault State :=
  insertActive p (s.setState p .RUNNABLE)

def fork (_ : Unit) (np : Slot) (s : State) : Except Fault State :=
  insertActive np (s.setState np .RUNNABLE)

def yield (curproc : Slot) (s : State) : Except Fault State :=
  insertExpired curproc (s.setState curproc .RUNNABLE)

def sleep (p : Slot) (chan : Option Chan) (s : State) : Except Fault State :=
  .ok ((s.set p fun x => { x with chan := chan }).setState p .SLEEPING)

def wake (p : Slot) (s : State) : Except Fault State :=
  insertExpired p (s.setState p .RUNNABLE)

def kill (p : Slot) (s : State) : Except Fault State :=
  let s := s.set p fun x => { x with killed := true }
  if (s.proc p).state = .SLEEPING then insertExpired p (s.setState p .RUNNABLE) else .ok s

/-- One pass of the loop of `scheduler`. A process that was asleep clears its `chan` when it goes on. -/
def scheduler (s : State) : Except Fault (State × List Event) := do
  let (p, s, es) ← getNextProc s
  match p with
  | some p => return (s.set p fun x => { x with state := .RUNNING, chan := none }, es ++ [.returned p])
  | none => return (s, es)

/-- `setpriority(pid, priority)`, which the system call passes on as it is. -/
structure SetPriority where
  pid : ℤ
  priority : ℤ

def setpriority (x : SetPriority) (s : State) : Except Fault State :=
  match slots.find? fun p => (s.proc p).pid = x.pid with
  | some p => .ok (s.set p fun y => { y with lab := { y.lab with priority := x.priority } })
  | none => .ok s

def lab : Lab Fields Queues Fault Unit SetPriority Event where
  found x := { x with priority := 10, ncicle := 0 }
  userinit := userinit
  fork := fork
  yield := yield
  sleep := sleep
  wake := wake
  kill := kill
  scheduler := scheduler
  call := setpriority

def initQueueContainer : Container :=
  ⟨fun _ => false, fun _ => ⟨none, 0, 0, fun _ => none, 0⟩, none⟩

/-- The tables after `pinit`. -/
def init : State := boot ⟨0, 0⟩ fun _ => initQueueContainer

end LearnXv6.Sched.O1
