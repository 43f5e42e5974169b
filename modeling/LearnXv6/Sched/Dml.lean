import LearnXv6.Sched.Policies

/-! The dynamic multilevel lab: priorities that follow the behaviour of a process, and a quantum of
several timer ticks. -/
namespace LearnXv6.Sched.Dml
open Store Policies

def QUANTA : ℤ := 5

/-- The policies of the compilation flag. -/
inductive Policy where
  | DEFAULT | PRIORITY | FCFS | CFS | SML | DML
  deriving DecidableEq, Repr

structure Fields extends Stats where
  tickcounter : ℤ

/-- `ticks` and the state of `random`. -/
structure Kernel where
  ticks : ℕ
  generator : Generator

abbrev State := Table Fields Kernel

/-- A process that the scheduler switches to, or a timer tick that a process receives. -/
inductive Event where
  | dispatch (p : Slot)
  | tick (p : Slot)
  deriving DecidableEq, Repr

def raised (priority : ℤ) : ℤ :=
  if priority ≤ 7 then if priority = 1 then 1 else wrap (priority - 1)
  else if priority > 7 ∧ priority ≤ 14 then 7
  else 14

def lowered (priority : ℤ) : ℤ :=
  if priority ≤ 7 then 8
  else if priority > 7 ∧ priority ≤ 14 then 15
  else if priority = 20 then 20 else wrap (priority + 1)

def setpriority (pid priority : ℤ) (s : State) : State :=
  setPid s pid fun x => { x with priority := priority }

def incpriority (pid : ℤ) (s : State) : State :=
  setPid s pid fun x => { x with priority := raised x.priority }

def decpriority (pid : ℤ) (s : State) : State :=
  setPid s pid fun x => { x with priority := lowered x.priority }

def inctickcounter (p : Slot) (s : State) : ℤ × State :=
  let res := wrap ((s.proc p).lab.tickcounter + 1)
  (res, s.set p fun x => { x with lab := { x.lab with tickcounter := res } })

variable (pol : Policy)

def readyProcess (s : State) : Except Fault (Option Slot × Generator) :=
  let state p := (s.proc p).state
  let stats p := (s.proc p).lab.toStats
  let z := s.queue.generator
  match pol with
  | .DEFAULT => defaultScheduler state z
  | .PRIORITY => .ok (priorityScheduler state stats, z)
  | .FCFS => .ok (fcfsScheduler state stats, z)
  | .CFS => .ok (cfsScheduler state stats, z)
  | .SML => smlScheduler state stats z
  | .DML => smlScheduler state stats z

/-- The process that the scheduler switches to. A process that was asleep clears its `chan` when it
goes on. -/
def dispatched (x : Proc Fields) : Proc Fields :=
  { x with
    state := .RUNNING
    chan := none
    lab := { x.lab with tickcounter := if pol = .DML then 0 else x.lab.tickcounter } }

def scheduler (s : State) : Except Fault (State × List Event) := do
  let (p, z) ← readyProcess pol s
  let s := { s with queue := { s.queue with generator := z } }
  match p with
  | some p => return (s.set p (dispatched pol), [.dispatch p])
  | none => return (s, [])

def userinit (ticks : ℕ) (p : Slot) (s : State) : Except Fault State :=
  .ok (s.set p fun x =>
    { x with state := .RUNNABLE, lab := { x.lab with ctime := ticks, priority := 10 } })

/-- Returning from the state SLEEPING raises the priority. -/
def wake (p : Slot) (s : State) : Except Fault State :=
  let s := s.setState p .RUNNABLE
  .ok (if pol = .DML then incpriority (s.proc p).pid s else s)

/-- The end of `trap` for a timer interrupt that finds a process running: using up the quantum lowers
the priority. -/
def tick (p : Slot) (s : State) : State :=
  if pol = .FCFS then s
  else
    let (res, s) := inctickcounter p s
    if res = QUANTA then
      let s := if pol = .DML then decpriority (s.proc p).pid s else s
      s.setState p .RUNNABLE
    else s

/-- What a successful `exec` does to the priority. -/
def exec (p : Slot) (s : State) : State :=
  if pol = .DML then s.set p fun x => { x with lab := { x.lab with priority := 10 } } else s

def timer (s : State) : State :=
  { s with
    proc := fun p =>
      let x := s.proc p
      { x with lab := { x.lab with toStats := x.lab.toStats.update x.state } }
    queue := { s.queue with ticks := nextTick s.queue.ticks } }

inductive Call where
  | tick (p : Slot)
  | timer
  | exec (p : Slot)
  | setpriority (pid priority : ℤ)
  | incpriority (pid : ℤ)
  | decpriority (pid : ℤ)
  | inctickcounter (p : Slot)

def call (x : Call) (s : State) : Except Fault State :=
  match x with
  | .tick p => .ok (tick pol p s)
  | .timer => .ok (timer s)
  | .exec p => .ok (exec pol p s)
  | .setpriority pid priority => .ok (setpriority pid priority s)
  | .incpriority pid => .ok (incpriority pid s)
  | .decpriority pid => .ok (decpriority pid s)
  | .inctickcounter p => .ok (inctickcounter p s).2

def lab (ticks : ℕ) : Lab Fields Kernel Fault Unit Call Event where
  found x := { x with toStats := .found ticks }
  userinit := userinit ticks
  fork _ := ready
  yield := ready
  sleep := sleep
  wake := wake pol
  kill := kill
  scheduler := scheduler pol
  call := call pol

abbrev Act := Action Unit Call

/-- The process on whose CPU a call of the lab happens, where that matters. -/
def caller : Act → Option Slot
  | .call (.tick p) => some p
  | .call (.exec p) => some p
  | .call (.inctickcounter p) => some p
  | _ => none

def received : Act → List Event
  | .call (.tick p) => [.tick p]
  | _ => []

def step (a : Act) (s : State) : Except (Stop Fault) (State × List Event) :=
  when (∀ p ∈ caller a, (s.proc p).state = .RUNNING) do
    let (s', es) ← Sched.step (lab pol s.queue.ticks) a s
    return (s', es ++ received a)

def init (z : Generator) : State := boot ⟨⟨0, 0, 0, 0, 0⟩, 0⟩ ⟨0, z⟩

lemma readyProcess_picks (s : State) :
    ∃ o z, readyProcess pol s = .ok (o, z) ∧ Picks (fun p => (s.proc p).state) o := by
  cases pol with
  | DEFAULT =>
    obtain ⟨o, z, h, hpick, -⟩ := defaultScheduler_picks _
    exact ⟨o, z, h, hpick⟩
  | PRIORITY | FCFS | CFS => exact ⟨_, _, rfl, candidate_picks _⟩
  | SML | DML =>
    obtain ⟨o, z, h, hpick, -⟩ := smlScheduler_picks _
    exact ⟨o, z, h, hpick⟩

lemma scheduler_cases {pol : Policy} {s s' : State} {es : List Event}
    (hs : scheduler pol s = .ok (s', es)) : ∃ z,
    (s' = { s with queue := { s.queue with generator := z } } ∧ es = []) ∨
      ∃ p, (s.proc p).state = .RUNNABLE ∧ es = [.dispatch p] ∧
        s' = ({ s with queue := { s.queue with generator := z } } : State).set p (dispatched pol) := by
  obtain ⟨o, z, hready, hpick⟩ := readyProcess_picks pol s
  unfold scheduler at hs
  rw [hready] at hs
  refine ⟨z, ?_⟩
  cases o with
  | none =>
    cases hs
    exact .inl ⟨rfl, rfl⟩
  | some p =>
    cases hs
    exact .inr ⟨p, hpick.runnable p rfl, rfl, rfl⟩

/-- A step is a pass of the scheduler, a call of the lab, or one of the other stretches of code. -/
lemma step_cases {pol : Policy} {a : Act} {s s' : State} {es : List Event}
    (hs : step pol a s = .ok (s', es)) : (a = .scheduler ∧ scheduler pol s = .ok (s', es)) ∨
      (∃ x, a = .call x ∧ (∀ p ∈ caller a, (s.proc p).state = .RUNNING) ∧
        call pol x s = .ok s' ∧ es = received a) ∨ (a ≠ .scheduler ∧ (∀ x, a ≠ .call x) ∧
        Sched.step (lab pol s.queue.ticks) a s = .ok (s', es)) := by
  obtain ⟨hcaller, hret⟩ := when_ok hs
  obtain ⟨⟨s1, es1⟩, hstep, hret⟩ := bind_eq_ok.mp hret
  cases hret
  cases a with
  | scheduler =>
    refine .inl ⟨rfl, ?_⟩
    have hsched : scheduler pol s = .ok (s', es1) := by
      simp only [Sched.step] at hstep
      split at hstep
      · rename_i r hr
        cases hstep
        exact hr
      · cases hstep
    rw [hsched]
    exact congrArg (fun l => Except.ok (s', l)) (List.append_nil es1).symm
  | call x =>
    refine .inr (.inl ⟨x, rfl, hcaller, ?_⟩)
    obtain ⟨hcall, rfl⟩ := quiet_ensures (J := fun u => call pol x s = .ok u)
      (fun u hu => hu) hstep
    exact ⟨hcall, rfl⟩
  | _ =>
    refine .inr (.inr ⟨by simp, by simp, ?_⟩)
    rw [hstep]
    exact congrArg (fun l => Except.ok (s', l)) (List.append_nil es1).symm

end LearnXv6.Sched.Dml
