import LearnXv6.Param
import LearnXv6.Store.Run

/-! The process table of `proc.c`, for any run queue: what the scheduler labs share, one action for
each stretch of code that holds `ptable.lock`. The `int` counter `nextpid` does not wrap: a run creates fewer
than 2^31 processes. -/
namespace LearnXv6.Sched
open Store

/-- An entry of `ptable.proc`. -/
abbrev Slot := Fin NPROC

inductive Procstate where
  | UNUSED | EMBRYO | SLEEPING | RUNNABLE | RUNNING | ZOMBIE
  deriving DecidableEq, Repr

/-- What a process sleeps on: a process, as `wait` does, or any other address. -/
inductive Chan where
  | proc (p : Slot)
  | addr (a : ℕ)
  deriving DecidableEq, Repr

/-- `struct proc`, with the fields `lab` that a lab adds to it. -/
structure Proc (ε : Type) where
  state : Procstate
  pid : ℤ
  parent : Option Slot
  chan : Option Chan
  killed : Bool
  lab : ε

/-- `ptable`, `nextpid`, `initproc` and the run queue of a lab. -/
structure Table (ε κ : Type) where
  proc : Slot → Proc ε
  nextpid : ℤ
  initproc : Option Slot
  queue : κ

/-- Why an action is not taken, or does not end: no process is there to take it, the kernel panics, or
the code does something undefined. -/
inductive Stop (φ : Type) where
  | disabled
  | panic
  | fault (f : φ)
  deriving DecidableEq, Repr

variable {ε κ φ θ χ ω : Type}

def slots : List Slot := List.finRange NPROC

def Table.set (s : Table ε κ) (p : Slot) (f : Proc ε → Proc ε) : Table ε κ :=
  { s with proc := Function.update s.proc p (f (s.proc p)) }

def Table.setState (s : Table ε κ) (p : Slot) (state : Procstate) : Table ε κ :=
  s.set p fun x => { x with state := state }

/-- What a lab puts into `proc.c`, from `acquire` to `release` or `sched`. -/
structure Lab (ε κ φ θ χ ω : Type) where
  /-- the assignments of `allocproc` to the fields of the lab -/
  found : ε → ε
  userinit : Slot → Table ε κ → Except φ (Table ε κ)
  fork : θ → Slot → Table ε κ → Except φ (Table ε κ)
  yield : Slot → Table ε κ → Except φ (Table ε κ)
  sleep : Slot → Option Chan → Table ε κ → Except φ (Table ε κ)
  /-- the body of the loop of `wakeup1` -/
  wake : Slot → Table ε κ → Except φ (Table ε κ)
  /-- what `kill` does to the process that it finds -/
  kill : Slot → Table ε κ → Except φ (Table ε κ)
  scheduler : Table ε κ → Except φ (Table ε κ × List ω)
  /-- the system calls of the lab -/
  call : χ → Table ε κ → Except φ (Table ε κ)

section Functions

variable (L : Lab ε κ φ θ χ ω)

/-- The first half of `fork` and `userinit`. -/
def allocproc (s : Table ε κ) : Table ε κ :=
  match slots.find? fun p => (s.proc p).state = .UNUSED with
  | none => s
  | some p =>
    let s' := s.set p fun x =>
      { x with state := .EMBRYO, lab := L.found x.lab, pid := s.nextpid }
    { s' with nextpid := s.nextpid + 1 }

def wakeup1 (chan : Option Chan) (s : Table ε κ) : Except φ (Table ε κ) :=
  slots.foldlM (fun s p =>
    if (s.proc p).state = .SLEEPING ∧ (s.proc p).chan = chan then L.wake p s else .ok s) s

/-- Pass abandoned children to init. -/
def abandon (curproc : Slot) (s : Table ε κ) : Except φ (Table ε κ) :=
  slots.foldlM (fun s p =>
    if (s.proc p).parent = some curproc then
      let s' := s.set p fun x => { x with parent := s.initproc }
      if (s.proc p).state = .ZOMBIE then wakeup1 L (s.initproc.map .proc) s' else .ok s'
    else .ok s) s

def exit (curproc : Slot) (s : Table ε κ) : Except φ (Table ε κ) := do
  let s ← wakeup1 L ((s.proc curproc).parent.map .proc) s
  let s ← abandon L curproc s
  return s.setState curproc .ZOMBIE

/-- One pass of the loop of `wait`. -/
def wait (curproc : Slot) (s : Table ε κ) : Except φ (Table ε κ) :=
  match slots.find? fun p =>
    (s.proc p).parent = some curproc ∧ (s.proc p).state = .ZOMBIE with
  | some p =>
    .ok (s.set p fun x =>
      { x with pid := 0, parent := none, killed := false, state := .UNUSED })
  | none =>
    if (∀ p, (s.proc p).parent ≠ some curproc) ∨ (s.proc curproc).killed then .ok s
    else L.sleep curproc (some (.proc curproc)) s

end Functions

/-- The stretches of code under `ptable.lock`, with the process that runs them. -/
inductive Action (θ χ : Type) where
  | allocproc
  /-- no kernel stack or no memory for the new process -/
  | noMemory (np : Slot)
  | userinit (p : Slot)
  | fork (curproc np : Slot) (arg : θ)
  | scheduler
  | yield (curproc : Slot)
  | sleep (curproc : Slot) (chan : Chan)
  | wakeup (chan : Chan)
  | kill (pid : ℤ)
  | exit (curproc : Slot)
  | wait (curproc : Slot)
  | call (x : χ)

/-- The outcome of a stretch of code that makes no event. -/
def quiet (r : Except φ (Table ε κ)) : Except (Stop φ) (Table ε κ × List ω) :=
  match r with
  | .ok s => .ok (s, [])
  | .error f => .error (.fault f)

/-- A stretch of code that only a process in the given state runs. -/
def when (c : Prop) [Decidable c] (r : Except (Stop φ) (Table ε κ × List ω)) :
    Except (Stop φ) (Table ε κ × List ω) :=
  if c then r else .error .disabled

def step (L : Lab ε κ φ θ χ ω) (a : Action θ χ) (s : Table ε κ) :
    Except (Stop φ) (Table ε κ × List ω) :=
  match a with
  | .allocproc => .ok (allocproc L s, [])
  | .noMemory np => when ((s.proc np).state = .EMBRYO) (.ok (s.setState np .UNUSED, []))
  | .userinit p =>
    when ((s.proc p).state = .EMBRYO ∧ s.initproc = none)
      (quiet (L.userinit p { s with initproc := some p }))
  | .fork curproc np arg =>
    when ((s.proc curproc).state = .RUNNING ∧ (s.proc np).state = .EMBRYO)
      (quiet (L.fork arg np (s.set np fun x => { x with parent := some curproc })))
  | .scheduler =>
    match L.scheduler s with
    | .ok r => .ok r
    | .error f => .error (.fault f)
  | .yield curproc => when ((s.proc curproc).state = .RUNNING) (quiet (L.yield curproc s))
  | .sleep curproc chan =>
    when ((s.proc curproc).state = .RUNNING) (quiet (L.sleep curproc (some chan) s))
  | .wakeup chan => quiet (wakeup1 L (some chan) s)
  | .kill pid =>
    match slots.find? fun p => (s.proc p).pid = pid with
    | some p => quiet (L.kill p s)
    | none => .ok (s, [])
  | .exit curproc =>
    when ((s.proc curproc).state = .RUNNING)
      (if s.initproc = some curproc then .error .panic else quiet (exit L curproc s))
  | .wait curproc => when ((s.proc curproc).state = .RUNNING) (quiet (wait L curproc s))
  | .call x => quiet (L.call x s)

def boot (lab : ε) (queue : κ) : Table ε κ :=
  ⟨fun _ => ⟨.UNUSED, 0, none, none, false, lab⟩, 1, none, queue⟩

/-! Small facts about the table. -/

section Lemmas

variable {s s' : Table ε κ} {p q : Slot} {f : Proc ε → Proc ε} {state : Procstate}

@[simp] lemma Table.set_queue : (s.set p f).queue = s.queue := rfl

@[simp] lemma Table.set_initproc : (s.set p f).initproc = s.initproc := rfl

@[simp] lemma Table.set_proc_self : (s.set p f).proc p = f (s.proc p) := by simp [Table.set]

lemma Table.set_proc_of_ne (h : q ≠ p) : (s.set p f).proc q = s.proc q := by
  simp [Table.set, Function.update_of_ne h]

@[simp] lemma Table.setState_queue : (s.setState p state).queue = s.queue := rfl

@[simp] lemma Table.setState_self : ((s.setState p state).proc p).state = state := by
  simp [Table.setState]

@[simp] lemma Table.setState_lab : ((s.setState p state).proc q).lab = (s.proc q).lab := by
  by_cases h : q = p
  · subst h
    simp [Table.setState]
  · simp [Table.setState, Table.set_proc_of_ne h]

lemma Table.setState_of_ne (h : q ≠ p) : (s.setState p state).proc q = s.proc q :=
  Table.set_proc_of_ne h

def Table.runnable (s : Table ε κ) : Set Slot := {p | (s.proc p).state = .RUNNABLE}

lemma Table.mem_runnable : p ∈ s.runnable ↔ (s.proc p).state = .RUNNABLE := Iff.rfl

lemma Table.runnable_of_ne (hne : ∀ q, q ≠ p → (s'.proc q).state = (s.proc q).state)
    (h : (s.proc p).state ≠ .RUNNABLE) (h' : (s'.proc p).state ≠ .RUNNABLE) : s'.runnable = s.runnable := by
  ext q
  by_cases hq : q = p
  · subst hq
    simp only [Table.mem_runnable, h, h']
  · simp only [Table.mem_runnable, hne q hq]

lemma Table.setState_runnable (h : (s.proc p).state ≠ .RUNNABLE) (h' : state ≠ .RUNNABLE) :
    (s.setState p state).runnable = s.runnable :=
  Table.runnable_of_ne (fun q hq => by rw [Table.setState_of_ne hq]) h (by simpa using h')

lemma Table.setState_runnable_insert : (s.setState p .RUNNABLE).runnable = insert p s.runnable := by
  ext q
  by_cases hq : q = p
  · subst hq
    simp [Table.mem_runnable]
  · simp [Table.mem_runnable, Table.setState_of_ne hq, hq]

/-- A change that leaves the states, the fields of the lab and the run queue alone. -/
structure Same (s s' : Table ε κ) : Prop where
  queue : s'.queue = s.queue
  state : ∀ p, (s'.proc p).state = (s.proc p).state
  lab : ∀ p, (s'.proc p).lab = (s.proc p).lab

lemma Same.set (hstate : ∀ x, (f x).state = x.state) (hlab : ∀ x, (f x).lab = x.lab) :
    Same s (s.set p f) := by
  refine ⟨rfl, fun q => ?_, fun q => ?_⟩
  all_goals
    by_cases hq : q = p
    · subst hq
      simp [hstate, hlab]
    · simp [Table.set_proc_of_ne hq]

lemma Same.runnable (h : Same s s') : s'.runnable = s.runnable := by
  ext p
  simp only [Table.mem_runnable, h.state]

variable {L : Lab ε κ φ θ χ ω} {J : Table ε κ → Prop} {E : φ → Prop}

section

variable (hwake : ∀ p s, J s → (s.proc p).state = .SLEEPING → Outcome E J (L.wake p s))
include hwake

lemma wakeup1_outcome (chan : Option Chan) (h : J s) : Outcome E J (wakeup1 L chan s) := by
  refine Outcome.foldlM (fun s p hs => ?_) slots h
  split
  · rename_i hp
    exact hwake p s hs hp.1
  · exact hs

lemma abandon_outcome
    (hparent : ∀ p s parent, J s → J (s.set p fun x => { x with parent := parent })) (h : J s) :
    Outcome E J (abandon L p s) := by
  refine Outcome.foldlM (fun s q hs => ?_) slots h
  dsimp only
  split
  · have hset := hparent q s s.initproc hs
    split
    · exact wakeup1_outcome hwake (s.initproc.map .proc) hset
    · exact hset
  · exact hs

lemma exit_outcome
    (hparent : ∀ p s parent, J s → J (s.set p fun x => { x with parent := parent })) (h : J s) :
    Outcome E (fun s' => ∃ u, s' = u.setState p .ZOMBIE ∧ J u) (exit L p s) := by
  refine (wakeup1_outcome hwake _ h).bind fun s1 h1 => ?_
  refine (abandon_outcome hwake hparent h1).bind fun s2 h2 => ?_
  exact ⟨s2, rfl, h2⟩

end

lemma quiet_outcome {r : Except φ (Table ε κ)} (h : Outcome E J r) :
    Outcome (fun e => ∃ f, e = .fault f ∧ E f) (fun x => J x.1 ∧ x.2 = [])
      (quiet r : Except (Stop φ) (Table ε κ × List ω)) := by
  cases r with
  | ok s => exact ⟨h, rfl⟩
  | error f => exact ⟨f, rfl, h⟩

lemma when_outcome {c : Prop} [Decidable c] {r : Except (Stop φ) (Table ε κ × List ω)}
    {F : Stop φ → Prop} {P : Table ε κ × List ω → Prop} (hF : F .disabled) (h : c → Outcome F P r) :
    Outcome F P (when c r) := by
  unfold when
  split
  · rename_i hc
    exact h hc
  · exact hF

lemma when_ok {c : Prop} [Decidable c] {r : Except (Stop φ) (Table ε κ × List ω)} {es : List ω}
    (hs : when c r = .ok (s', es)) : c ∧ r = .ok (s', es) := by
  unfold when at hs
  obtain ⟨hc, hs⟩ := then_eq_ok.mp hs
  exact ⟨hc, hs⟩

lemma find?_slots {c : Slot → Prop} [DecidablePred c]
    (h : (slots.find? fun p => decide (c p)) = some p) : c p := by
  simpa using List.find?_some h

lemma quiet_ensures {r : Except φ (Table ε κ)} {es : List ω} (h : Ensures r J)
    (hs : quiet r = .ok (s', es)) : J s' ∧ es = [] := by
  cases r with
  | ok s =>
    cases hs
    exact ⟨h s' rfl, rfl⟩
  | error f => cases hs

lemma wakeup1_ensures (chan : Option Chan)
    (hwake : ∀ p s, J s → (s.proc p).state = .SLEEPING → Ensures (L.wake p s) J) (h : J s) :
    Ensures (wakeup1 L chan s) J :=
  outcome_true.mp
    (wakeup1_outcome (fun p s hs hp => outcome_true.mpr (hwake p s hs hp)) chan h)

lemma exit_ensures {K : Table ε κ → Prop}
    (hwake : ∀ p s, J s → (s.proc p).state = .SLEEPING → Ensures (L.wake p s) J)
    (hparent : ∀ p s parent, J s → J (s.set p fun x => { x with parent := parent }))
    (hzombie : ∀ s, J s → K (s.setState p .ZOMBIE)) (h : J s) : Ensures (exit L p s) K := by
  have hexit := exit_outcome (p := p) (fun p s hs hp => outcome_true.mpr (hwake p s hs hp)) hparent h
  intro s' hs'
  obtain ⟨u, rfl, hu⟩ := outcome_true.mp hexit s' hs'
  exact hzombie u hu

/-- What a lab keeps with each stretch of code except its `scheduler` and its system calls. -/
structure Closed (L : Lab ε κ φ θ χ ω) (J : Table ε κ → Prop) : Prop where
  initproc : ∀ s p, J s → J { s with initproc := some p }
  parent : ∀ s p parent, J s → J (s.set p fun x => { x with parent := parent })
  found : ∀ s p, J s → (s.proc p).state = .UNUSED →
    J { s.set p (fun x => { x with state := .EMBRYO, lab := L.found x.lab, pid := s.nextpid }) with
      nextpid := s.nextpid + 1 }
  noMemory : ∀ s p, J s → (s.proc p).state = .EMBRYO → J (s.setState p .UNUSED)
  reaped : ∀ s p, J s → (s.proc p).state = .ZOMBIE →
    J (s.set p fun x => { x with pid := 0, parent := none, killed := false, state := .UNUSED })
  userinit : ∀ s p, J s → (s.proc p).state = .EMBRYO → Ensures (L.userinit p s) J
  fork : ∀ s arg p, J s → (s.proc p).state = .EMBRYO → Ensures (L.fork arg p s) J
  yield : ∀ s p, J s → (s.proc p).state = .RUNNING → Ensures (L.yield p s) J
  sleep : ∀ s p chan, J s → (s.proc p).state = .RUNNING → Ensures (L.sleep p chan s) J
  wakeup : ∀ s chan, J s → Ensures (wakeup1 L chan s) J
  kill : ∀ s p, J s → Ensures (L.kill p s) J
  exit : ∀ s p, J s → (s.proc p).state = .RUNNING → Ensures (exit L p s) J

lemma Closed.step {a : Action θ χ} {es : List ω} (h : Closed L J) (hJ : J s)
    (hsched : a ≠ .scheduler) (hcall : ∀ x, a ≠ .call x) (hs : step L a s = .ok (s', es)) :
    J s' ∧ es = [] := by
  cases a with
  | allocproc =>
    cases hs
    refine ⟨?_, rfl⟩
    unfold allocproc
    split
    · exact hJ
    · rename_i p hp
      exact h.found s p hJ (find?_slots hp)
  | noMemory np =>
    obtain ⟨hnp, hs⟩ := when_ok hs
    cases hs
    exact ⟨h.noMemory s np hJ hnp, rfl⟩
  | userinit p =>
    obtain ⟨⟨hp, -⟩, hs⟩ := when_ok hs
    exact quiet_ensures (h.userinit _ p (h.initproc s p hJ) hp) hs
  | fork curproc np arg =>
    obtain ⟨⟨-, hnp⟩, hs⟩ := when_ok hs
    exact quiet_ensures (h.fork _ arg np (h.parent s np _ hJ) (by simpa using hnp)) hs
  | scheduler => exact absurd rfl hsched
  | yield curproc =>
    obtain ⟨hp, hs⟩ := when_ok hs
    exact quiet_ensures (h.yield s curproc hJ hp) hs
  | sleep curproc chan =>
    obtain ⟨hp, hs⟩ := when_ok hs
    exact quiet_ensures (h.sleep s curproc _ hJ hp) hs
  | wakeup chan => exact quiet_ensures (h.wakeup s _ hJ) hs
  | kill pid =>
    simp only [Sched.step] at hs
    split at hs
    · rename_i p hp
      exact quiet_ensures (h.kill s p hJ) hs
    · cases hs
      exact ⟨hJ, rfl⟩
  | exit curproc =>
    obtain ⟨hp, hs⟩ := when_ok hs
    split at hs
    · cases hs
    · exact quiet_ensures (h.exit s curproc hJ hp) hs
  | wait curproc =>
    obtain ⟨hp, hs⟩ := when_ok hs
    refine quiet_ensures ?_ hs
    unfold wait
    split
    · rename_i p hfound
      exact Ensures.ok (h.reaped s p hJ (find?_slots hfound).2)
    · split
      · exact Ensures.ok hJ
      · exact h.sleep s curproc _ hJ hp
  | call x => exact absurd rfl (hcall x)

end Lemmas

end LearnXv6.Sched
