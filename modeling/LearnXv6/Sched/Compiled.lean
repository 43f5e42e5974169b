import LearnXv6.Sched.Policies

/-! The lab with six scheduling policies, one of which is compiled into the kernel. -/
namespace LearnXv6.Sched.Compiled
open Store Policies

def MAX_TICKETS : ℤ := 20

/-- The values of `SCHEDPOLICY`. -/
inductive Policy where
  | DEFAULT | PRIORITY | FCFS | CFS | SML | LOTTERY
  deriving DecidableEq, Repr

/-- The fields that the lab adds to `struct proc`. -/
structure Fields extends Stats where
  ntickets : ℤ
  deriving DecidableEq, Repr

/-- Where a process is in the kernel: in `fork` with the process that it makes, which has a parent
only after `copyuvm`, in the loop of `wait`, or elsewhere. -/
inductive Position where
  | elsewhere
  | fork (np : Slot)
  | parent (np : Slot)
  | wait
  deriving DecidableEq, Repr

/-- `ticks`, the state of `random`, and where the processes are. -/
structure Kernel where
  ticks : ℕ
  generator : Generator
  position : Slot → Position

abbrev State := Table Fields Kernel

/-- `lcg_rand`, in 32 bits. -/
def lcgRand (a : ℕ) : ℕ := (a * 279470273) % 2 ^ 32 % 4294967291

section Lottery

variable (state : Slot → Procstate) (ntickets : Slot → ℤ)

def lotteryTotal : ℤ :=
  slots.foldl (fun total_tickets p =>
    if state p = .RUNNABLE then wrap (total_tickets + ntickets p) else total_tickets) 0

/-- The body of the loop of the lottery, on `chosen` and `pcandidate`. The test at its end only goes
on with the loop. -/
def ticket (c : ℤ × Option Slot) (p : Slot) : ℤ × Option Slot :=
  if state p = .RUNNABLE then (wrap (c.1 - ntickets p), some p) else c

/-- The policy LOTTERY, with the number that was drawn. -/
def lottery (chosen : ℤ) : Option Slot :=
  let total_tickets := lotteryTotal state ntickets
  if total_tickets > 0 then
    let chosen := if total_tickets < chosen then chosen.tmod total_tickets else chosen
    (slots.foldl (ticket state ntickets) (chosen, none)).2
  else none

end Lottery

def readyProcess (pol : Policy) (s : State) : Except Fault (Option Slot × Generator) :=
  let state p := (s.proc p).state
  let stats p := (s.proc p).lab.toStats
  let z := s.queue.generator
  match pol with
  | .DEFAULT => defaultScheduler state z
  | .PRIORITY => .ok (priorityScheduler state stats, z)
  | .FCFS => .ok (fcfsScheduler state stats, z)
  | .CFS => .ok (cfsScheduler state stats, z)
  | .SML => smlScheduler state stats z
  | .LOTTERY =>
    .ok (lottery state (fun p => (s.proc p).lab.ntickets) (wrap (lcgRand (lcgRand s.queue.ticks))), z)

/-- What a step shows: the process that was picked, and the pids of those that fork, exit and wait. -/
inductive Event where
  | picked (p : Option Slot)
  | forked (parent child : ℤ)
  | exited (pid : ℤ)
  | waited (parent child : ℤ)
  deriving DecidableEq, Repr

/-- The process that the scheduler switches to. One that was asleep clears its `chan` when it goes on. -/
def dispatched (x : Proc Fields) : Proc Fields := { x with state := .RUNNING, chan := none }

def scheduler (pol : Policy) (s : State) : Except Fault (State × List Event) := do
  let (p, z) ← readyProcess pol s
  let s := { s with queue := { s.queue with generator := z } }
  match p with
  | some p => return (s.set p dispatched, [.picked (some p)])
  | none => return (s, [.picked none])

/-- `ntickets` of a new process. -/
def newTickets (k : Kernel) : ℤ × Generator :=
  let (n, z) := random ((k.ticks : ℤ) % MAX_TICKETS) k.generator
  (n + 1, z)

/-- The lab without its system calls. -/
def lab (pol : Policy) (k : Kernel) : Lab Fields Kernel Fault Unit Empty Event where
  found _ := { toStats := .found k.ticks, ntickets := (newTickets k).1 }
  userinit := ready
  fork _ := ready
  yield := ready
  sleep := sleep
  wake := ready
  kill := kill
  scheduler := scheduler pol
  call x := x.elim

/-- The entry that `allocproc` takes. -/
def unused (s : State) : Option Slot := slots.find? fun p => (s.proc p).state = .UNUSED

/-- `allocproc`, with the call of `random` where an entry is found. -/
def allocproc (pol : Policy) (s : State) : State :=
  match unused s with
  | some _ =>
    { Sched.allocproc (lab pol s.queue) s with
      queue := { s.queue with generator := (newTickets s.queue).2 } }
  | none => s

def update_statistics (s : State) : State :=
  { s with
    proc := fun p =>
      let x := s.proc p
      { x with lab := { x.lab with toStats := x.lab.toStats.update x.state } } }

def setpriority (pid priority : ℤ) (s : State) : State :=
  setPid s pid fun x => { x with priority := priority }

def settickets (pid tickets : ℤ) (s : State) : State :=
  setPid s pid fun x => { x with ntickets := tickets }

/-- The child that a pass of the loop of `wait` finds. -/
def zombieChild (curproc : Slot) (s : State) : Option Slot :=
  slots.find? fun p => (s.proc p).parent = some curproc ∧ (s.proc p).state = .ZOMBIE

def moveTo (p : Slot) (x : Position) (s : State) : State :=
  { s with queue := { s.queue with position := Function.update s.queue.position p x } }

/-- The stretches of code under `ptable.lock`, and the assignments of `fork` and of the timer without
it, with the process that runs them. -/
inductive Act where
  | scheduler
  /-- `ticks++` -/
  | tick
  | update_statistics
  | yield (curproc : Slot)
  | allocproc (curproc : Slot)
  /-- no kernel stack or no memory for the new process -/
  | noMemory (curproc : Slot)
  /-- `np->parent = curproc` -/
  | parent (curproc : Slot)
  /-- `np->state = RUNNABLE` -/
  | fork (curproc : Slot)
  | exit (curproc : Slot)
  /-- one pass of the loop -/
  | wait (curproc : Slot)
  /-- any `sleep` but the one of `wait` -/
  | sleep (curproc : Slot) (chan : ℕ)
  | wakeup (chan : Chan)
  | kill (pid : ℤ)
  | setpriority (pid priority : ℤ)
  | settickets (pid tickets : ℤ)

/-- A stretch of code of a running process. -/
def asRunning (p : Slot) (s : State) (r : Except (Stop Fault) (State × List Event)) :
    Except (Stop Fault) (State × List Event) :=
  when ((s.proc p).state = .RUNNING) r

variable (pol : Policy)

def step (a : Act) (s : State) : Except (Stop Fault) (State × List Event) :=
  match a with
  | .scheduler =>
    match scheduler pol s with
    | .ok r => .ok r
    | .error f => .error (.fault f)
  | .tick => .ok ({ s with queue := { s.queue with ticks := nextTick s.queue.ticks } }, [])
  | .update_statistics => .ok (update_statistics s, [])
  | .yield p => asRunning p s (.ok (s.setState p .RUNNABLE, []))
  | .allocproc p =>
    asRunning p s <| when (s.queue.position p = .elsewhere) <|
      match unused s with
      | some np => .ok (moveTo p (.fork np) (allocproc pol s), [])
      | none => .ok (allocproc pol s, [])
  | .noMemory p =>
    asRunning p s <|
      match s.queue.position p with
      | .fork np => .ok (moveTo p .elsewhere (s.setState np .UNUSED), [])
      | _ => .error .disabled
  | .parent p =>
    asRunning p s <|
      match s.queue.position p with
      | .fork np => .ok (moveTo p (.parent np) (s.set np fun x => { x with parent := some p }), [])
      | _ => .error .disabled
  | .fork p =>
    asRunning p s <|
      match s.queue.position p with
      | .parent np =>
        .ok (moveTo p .elsewhere (s.setState np .RUNNABLE),
          [.forked (s.proc p).pid (s.proc np).pid])
      | _ => .error .disabled
  | .exit p =>
    asRunning p s <| when (s.queue.position p = .elsewhere) <|
      if s.initproc = some p then .error .panic
      else do
        let (s', _) ← quiet (ω := Event) (Sched.exit (lab pol s.queue) p s)
        return (s', [.exited (s.proc p).pid])
  | .wait p =>
    asRunning p s <| when (s.queue.position p = .elsewhere ∨ s.queue.position p = .wait) do
      let (s', _) ← quiet (ω := Event) (Sched.wait (lab pol s.queue) p s)
      let sleeping := (s'.proc p).state = .SLEEPING
      return (moveTo p (if sleeping then .wait else .elsewhere) s',
        (zombieChild p s).toList.map fun c => .waited (s.proc p).pid (s.proc c).pid)
  | .sleep p chan =>
    asRunning p s <| when (s.queue.position p = .elsewhere) <|
      quiet (Policies.sleep p (some (.addr chan)) s)
  | .wakeup chan => quiet (wakeup1 (lab pol s.queue) (some chan) s)
  | .kill pid =>
    match slots.find? fun p => (s.proc p).pid = pid with
    | some p => quiet (Policies.kill p s)
    | none => .ok (s, [])
  | .setpriority pid priority => .ok (setpriority pid priority s, [])
  | .settickets pid tickets => .ok (settickets pid tickets s, [])

/-- The table before `userinit`. -/
def blank (z : Generator) : State :=
  boot ⟨⟨0, 0, 0, 0, 0⟩, 0⟩ ⟨0, z, fun _ => .elsewhere⟩

/-- The first process, at boot. -/
def userinit (z : Generator) : State :=
  let s := { allocproc pol (blank z) with initproc := unused (blank z) }
  match unused (blank z) with
  | some p => s.setState p .RUNNABLE
  | none => s

end LearnXv6.Sched.Compiled
