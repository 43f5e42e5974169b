import LearnXv6.Sched.Policies

/-! The lab in which a system call changes the scheduling policy: `sdh.h`, and the pointer that the
scheduler calls. -/
namespace LearnXv6.Sched.Runtime
open Store Policies

/-- The functions of `sdh.h`. -/
inductive Policy where
  | defaultScheduler | priorityScheduler | fcfsScheduler | cfsScheduler | smlScheduler
  deriving DecidableEq, Repr

def schedulerName : List String := ["DEFAULT", "PRIORITY", "FCFS", "CFS", "SML"]

def schedulerFunction : List Policy :=
  [.defaultScheduler, .priorityScheduler, .fcfsScheduler, .cfsScheduler, .smlScheduler]

/-- `ticks`, the state of `random`, and the two variables of `sdh.h`. A pointer that was read past the
end of `schedulerFunction` is `none`. -/
structure Kernel where
  ticks : ℕ
  generator : Generator
  readyProcess : Option Policy
  schedSelected : ℤ

abbrev State := Table Stats Kernel

def Policy.call (pol : Policy) (s : State) : Except Fault (Option Slot × Generator) :=
  let state p := (s.proc p).state
  let stats p := (s.proc p).lab
  let z := s.queue.generator
  match pol with
  | .defaultScheduler => Policies.defaultScheduler state z
  | .priorityScheduler => .ok (Policies.priorityScheduler state stats, z)
  | .fcfsScheduler => .ok (Policies.fcfsScheduler state stats, z)
  | .cfsScheduler => .ok (Policies.cfsScheduler state stats, z)
  | .smlScheduler => Policies.smlScheduler state stats z

def readyProcess (s : State) : Except Fault (Option Slot × Generator) :=
  match s.queue.readyProcess with
  | some pol => pol.call s
  | none => .error .wild

/-- One pass of the loop of `scheduler`, with the process that was picked. A process that was asleep
clears its `chan` when it goes on. -/
def scheduler (s : State) : Except Fault (State × List (Option Slot)) := do
  let (p, z) ← readyProcess s
  let s := { s with queue := { s.queue with generator := z } }
  match p with
  | some p => return (s.set p fun x => { x with state := .RUNNING, chan := none }, [some p])
  | none => return (s, [none])

def setscheduler (sid : ℤ) (s : State) : State :=
  let max : ℤ := schedulerName.length
  if sid < 0 ∨ sid > max then s
  else
    { s with queue := { s.queue with
        readyProcess := schedulerFunction[sid.toNat]?
        schedSelected := sid } }

def setpriority (pid priority : ℤ) (s : State) : State :=
  setPid s pid fun x => { x with priority := priority }

/-- What the timer interrupt of the first CPU does before `wakeup(&ticks)`. -/
def timer (s : State) : State :=
  { s with
    proc := fun p => { s.proc p with lab := (s.proc p).lab.update (s.proc p).state }
    queue := { s.queue with ticks := nextTick s.queue.ticks } }

inductive Call where
  | setscheduler (sid : ℤ)
  | setpriority (pid priority : ℤ)
  | timer

def call (x : Call) (s : State) : Except Fault State :=
  match x with
  | .setscheduler sid => .ok (setscheduler sid s)
  | .setpriority pid priority => .ok (setpriority pid priority s)
  | .timer => .ok (timer s)

def lab (ticks : ℕ) : Lab Stats Kernel Fault Unit Call (Option Slot) where
  found _ := .found ticks
  userinit := ready
  fork _ := ready
  yield := ready
  sleep := sleep
  wake := ready
  kill := kill
  scheduler := scheduler
  call := call

abbrev Act := Action Unit Call

def step (a : Act) (s : State) : Except (Stop Fault) (State × List (Option Slot)) :=
  Sched.step (lab s.queue.ticks) a s

/-- The tables before `userinit`, with the policy of the compilation. -/
def init (pol : Policy) (z : Generator) : State :=
  boot ⟨0, 0, 0, 0, 0⟩ ⟨0, z, some pol, schedulerFunction.idxOf pol⟩

variable {s s' : State} {a : Act} {es : List (Option Slot)}

lemma Policy.call_picks (pol : Policy) (s : State) :
    ∃ o z, pol.call s = .ok (o, z) ∧ Picks (fun p => (s.proc p).state) o := by
  cases pol with
  | defaultScheduler =>
    obtain ⟨o, z, h, hpick, -⟩ := defaultScheduler_picks _
    exact ⟨o, z, h, hpick⟩
  | priorityScheduler | fcfsScheduler | cfsScheduler => exact ⟨_, _, rfl, candidate_picks _⟩
  | smlScheduler =>
    obtain ⟨o, z, h, hpick, -⟩ := smlScheduler_picks _
    exact ⟨o, z, h, hpick⟩

/-- The pointer is one of the policies. -/
def Installed (s : State) : Prop := ∃ pol, s.queue.readyProcess = some pol

lemma closed (ticks : ℕ) : Closed (lab ticks) Installed where
  initproc _ _ h := h
  parent _ _ _ h := h
  found _ _ h _ := h
  noMemory _ _ h _ := h
  reaped _ _ h _ := h
  userinit _ _ h _ := Ensures.ok h
  fork _ _ _ h _ := Ensures.ok h
  yield _ _ h _ := Ensures.ok h
  sleep _ _ _ h _ := Ensures.ok h
  wakeup _ _ h := wakeup1_ensures _ (fun _ _ hs _ => Ensures.ok hs) h
  kill _ _ h := Ensures.ok (by split <;> exact h)
  exit _ _ h _ := exit_ensures (fun _ _ hs _ => Ensures.ok hs) (fun _ _ _ hs => hs) (fun _ hs => hs) h

/-- A system call does not ask for the number just after the last policy. -/
def Within (_ : State) (a : Act) : Prop :=
  match a with
  | .call (.setscheduler sid) => sid ≠ schedulerName.length
  | _ => True

lemma Installed.setscheduler {sid : ℤ} (h : Installed s) (hsid : sid ≠ schedulerName.length) :
    Installed (setscheduler sid s) := by
  unfold Runtime.setscheduler
  dsimp only
  split
  · exact h
  · rename_i hrange
    have hlt : sid.toNat < schedulerFunction.length := by
      have : schedulerName.length = schedulerFunction.length := rfl
      omega
    exact ⟨_, List.getElem?_eq_getElem hlt⟩

lemma scheduler_picks (h : Installed s) :
    ∃ s' o, scheduler s = .ok (s', [o]) ∧ Picks (fun p => (s.proc p).state) o ∧ Installed s' := by
  obtain ⟨pol, hpol⟩ := h
  obtain ⟨o, z, hcall, hpick⟩ := pol.call_picks s
  have hready : readyProcess s = .ok (o, z) := by
    unfold readyProcess
    rw [hpol]
    exact hcall
  unfold scheduler
  rw [hready]
  cases o with
  | none => exact ⟨_, none, rfl, hpick, pol, hpol⟩
  | some p => exact ⟨_, some p, rfl, hpick, pol, hpol⟩

lemma step_scheduler (h : Installed s) :
    ∃ s' o, step .scheduler s = .ok (s', [o]) ∧ Picks (fun p => (s.proc p).state) o ∧ Installed s' := by
  obtain ⟨s', o, hs, h⟩ := scheduler_picks h
  refine ⟨s', o, ?_, h⟩
  unfold step Sched.step
  rw [show (lab s.queue.ticks).scheduler s = .ok (s', [o]) from hs]

lemma Installed.step (h : Installed s) (hc : Within s a) (hs : step a s = .ok (s', es)) : Installed s' := by
  by_cases hsched : a = .scheduler
  · subst hsched
    obtain ⟨s1, o, hs1, -, hi⟩ := step_scheduler h
    rw [hs1] at hs
    cases hs
    exact hi
  by_cases hcall : ∃ x, a = .call x
  · obtain ⟨x, rfl⟩ := hcall
    cases x with
    | setscheduler sid =>
      cases hs
      exact h.setscheduler hc
    | setpriority pid priority =>
      cases hs
      unfold Installed setpriority setPid
      split <;> exact h
    | timer =>
      cases hs
      exact h
  · exact ((closed _).step h hsched (fun x hx => hcall ⟨x, hx⟩) hs).1

/-- In every run without that number the scheduler calls one of the policies, which picks nothing
exactly when no process is runnable, and otherwise a runnable process. -/
theorem picks_runnable {pol : Policy} {z : Generator} (h : Run step Within (init pol z) es s) :
    Installed s ∧ ∃ s' o, step .scheduler s = .ok (s', [o]) ∧ Picks (fun p => (s.proc p).state) o := by
  have hi := h.invariant (fun _ _ _ _ hi hc hs => Installed.step hi hc hs) ⟨pol, rfl⟩
  obtain ⟨s', o, hs, hpick, -⟩ := step_scheduler hi
  exact ⟨hi, s', o, hs, hpick⟩

instance : ∀ s a, Decidable (Within s a) := by
  intro s a
  unfold Within
  split <;> infer_instance

/-- The policy is changed to the last one while a process is runnable. -/
theorem switched_policy : ∃ s : State, s.queue.readyProcess = some .smlScheduler ∧
    (s.proc 0).state = .RUNNABLE ∧ Installed s ∧ ∃ s' o, step .scheduler s = .ok (s', [o]) ∧
      Picks (fun p => (s.proc p).state) o := by
  obtain ⟨s, hrun, hpol, hstate⟩ : ∃ s, Run step Within (init .defaultScheduler seed) [] s ∧
      s.queue.readyProcess = some .smlScheduler ∧ (s.proc 0).state = .RUNNABLE :=
    Run.of_leads [.allocproc, .userinit 0, .call (.setscheduler 4)] (by decide +kernel)
  exact ⟨s, hpol, hstate, picks_runnable hrun⟩

/-- The number after the last policy passes the test, and the scheduler calls what lies behind the
table. -/
theorem setscheduler_past_end : ∃ s : State, Run step (fun _ _ => True) (init .defaultScheduler seed) [] s ∧
      (s.proc 0).state = .RUNNABLE ∧ ¬ Installed s ∧ step .scheduler s = .error (.fault .wild) := by
  obtain ⟨s, hrun, hpol, hstate⟩ : ∃ s,
      Run step (fun _ _ => True) (init .defaultScheduler seed) [] s ∧
        s.queue.readyProcess = none ∧ (s.proc 0).state = .RUNNABLE :=
    Run.of_leads [.allocproc, .userinit 0, .call (.setscheduler 5)] (by decide +kernel)
  refine ⟨s, hrun, hstate, ?_, ?_⟩
  · rintro ⟨pol, h⟩
    rw [hpol] at h
    cases h
  · have hready : readyProcess s = .error .wild := by
      unfold readyProcess
      rw [hpol]
    have hsched : (lab s.queue.ticks).scheduler s = .error .wild := by
      change scheduler s = _
      unfold scheduler
      rw [hready]
      rfl
    unfold step Sched.step
    rw [hsched]

end LearnXv6.Sched.Runtime
