import LearnXv6.Sched.Dml

/-! How many timer ticks a process of the dynamic multilevel lab receives before it yields. -/
namespace LearnXv6.Sched.Dml
open Store Policies Table

variable {pol : Policy} {s s' : State} {a : Act} {p q : Slot} {es es' : List Event} {z : Generator}

/-- The ticks that the process has received since it was last dispatched. -/
def since (p : Slot) (es : List Event) : ℕ :=
  es.foldl (fun n e => if e = .dispatch p then 0 else if e = .tick p then n + 1 else n) 0

lemma since_dispatch : since p (es ++ [.dispatch q]) = if q = p then 0 else since p es := by
  simp [since]

lemma since_tick : since p (es ++ [.tick q]) = if q = p then since p es + 1 else since p es := by
  simp [since]

/-- The counter of a running process bounds its ticks, and is below the quantum. -/
def Counted (es : List Event) (s : State) : Prop :=
  ∀ p, (s.proc p).state = .RUNNING →
    since p es ≤ (s.proc p).lab.tickcounter ∧ (s.proc p).lab.tickcounter < QUANTA

/-- No process starts to run, and the counters of those that go on running stay. -/
def Calm (s s' : State) : Prop :=
  ∀ p, (s'.proc p).state = .RUNNING →
    (s.proc p).state = .RUNNING ∧ (s'.proc p).lab.tickcounter = (s.proc p).lab.tickcounter

lemma Counted.calm (h : Counted es s) (hc : Calm s s') : Counted es s' := by
  intro p hp
  obtain ⟨hrun, hcount⟩ := hc p hp
  rw [hcount]
  exact h p hrun

namespace Calm

lemma refl (s : State) : Calm s s := fun _ hp => ⟨hp, rfl⟩

lemma set {f : Proc Fields → Proc Fields}
    (hf : (f (s.proc p)).state = .RUNNING → (s.proc p).state = .RUNNING ∧
      (f (s.proc p)).lab.tickcounter = (s.proc p).lab.tickcounter) : Calm s (s.set p f) := by
  intro q hq
  by_cases hqp : q = p
  · subst hqp
    rw [set_proc_self] at hq ⊢
    exact hf hq
  · rw [set_proc_of_ne hqp] at hq ⊢
    exact ⟨hq, rfl⟩

lemma setState {state : Procstate} (h : state ≠ .RUNNING) : Calm s (s.setState p state) :=
  set fun hf => absurd hf h

lemma trans {s'' : State} (h : Calm s s') (h' : Calm s' s'') : Calm s s'' := by
  intro p hp
  obtain ⟨hp', hc'⟩ := h' p hp
  obtain ⟨hrun, hc⟩ := h p hp'
  exact ⟨hrun, hc'.trans hc⟩

lemma setPid {f : Fields → Fields} (hf : ∀ x, (f x).tickcounter = x.tickcounter) (pid : ℤ) :
    Calm s (setPid s pid f) := by
  unfold Policies.setPid
  split
  · exact set fun hq => ⟨hq, hf _⟩
  · exact refl s

lemma setpriority (pid priority : ℤ) : Calm s (setpriority pid priority s) := by
  refine setPid ?_ pid
  intro x
  rfl

lemma incpriority (pid : ℤ) : Calm s (incpriority pid s) := by
  refine setPid ?_ pid
  intro x
  rfl

lemma decpriority (pid : ℤ) : Calm s (decpriority pid s) := by
  refine setPid ?_ pid
  intro x
  rfl

lemma nextpid (h : Calm s s') (n : ℤ) : Calm s { s' with nextpid := n } := h

lemma wake (p : Slot) : Ensures (wake pol p s) (Calm s) := by
  refine Ensures.ok ?_
  have hready : Calm s (s.setState p .RUNNABLE) := setState (by decide)
  split
  · exact hready.trans (incpriority _)
  · exact hready

lemma kill (p : Slot) : Ensures (Policies.kill p s : Except Fault State) (Calm s) := by
  refine Ensures.ok ?_
  have hkilled : Calm s (s.set p fun x => { x with killed := true }) := set fun hf => ⟨hf, rfl⟩
  split
  · exact hkilled.trans (setState (by decide))
  · exact hkilled

end Calm

lemma Counted.ensures {r : Except Fault State} (h : Counted es s) (hr : Ensures r (Calm s)) :
    Ensures r (Counted es) := fun s' hs' => h.calm (hr s' hs')

lemma counted_closed (pol : Policy) (ticks : ℕ) (es : List Event) :
    Closed (lab pol ticks) (Counted es) where
  initproc _ _ h := h
  parent _ _ _ h := h.calm (Calm.set fun hf => ⟨hf, rfl⟩)
  found _ _ h _ := h.calm (Calm.nextpid (Calm.set fun hf => by cases hf) _)
  noMemory _ _ h _ := h.calm (Calm.setState (by decide))
  reaped _ _ h _ := h.calm (Calm.set fun hf => by cases hf)
  userinit _ _ h _ := Ensures.ok (h.calm (Calm.set fun hf => by cases hf))
  fork _ _ _ h _ := Ensures.ok (h.calm (Calm.setState (by decide)))
  yield _ _ h _ := Ensures.ok (h.calm (Calm.setState (by decide)))
  sleep _ _ _ h _ := Ensures.ok (h.calm ((Calm.set fun hf => ⟨hf, rfl⟩).trans
    (Calm.setState (by decide))))
  wakeup _ _ h := wakeup1_ensures _ (fun p _ hs _ => hs.ensures (Calm.wake p)) h
  kill _ p h := h.ensures (Calm.kill p)
  exit _ _ h _ := exit_ensures (fun p _ hs _ => hs.ensures (Calm.wake p))
    (fun _ _ _ hs => hs.calm (Calm.set fun hf => ⟨hf, rfl⟩))
    (fun _ hs => hs.calm (Calm.setState (by decide))) h

/-- The counter of a process that the scheduler may choose starts below the quantum, and no system call
takes a counter to it. -/
def Prompt (pol : Policy) (s : State) (a : Act) : Prop :=
  match a with
  | .scheduler => pol = .DML ∨ ∀ p, (s.proc p).state = .RUNNABLE →
      0 ≤ (s.proc p).lab.tickcounter ∧ (s.proc p).lab.tickcounter < QUANTA
  | .call (.inctickcounter p) => (s.proc p).lab.tickcounter + 1 < QUANTA
  | _ => True

lemma inctickcounter_of_ne (h : q ≠ p) : (inctickcounter p s).2.proc q = s.proc q := by
  simp only [inctickcounter, set_proc_of_ne h]

lemma calm_expired (p : Slot) :
    Calm s ((if pol = .DML then decpriority ((inctickcounter p s).2.proc p).pid (inctickcounter p s).2
      else (inctickcounter p s).2).setState p .RUNNABLE) := by
  intro q hq
  have hqp : q ≠ p := by
    rintro rfl
    rw [setState_self] at hq
    cases hq
  rw [setState_of_ne hqp] at hq ⊢
  rw [← inctickcounter_of_ne hqp]
  revert hq
  split
  · exact Calm.decpriority _ q
  · exact Calm.refl _ q

lemma Counted.tick (h : Counted es s) (hpol : pol ≠ .FCFS) (hp : (s.proc p).state = .RUNNING) :
    Counted (es ++ [.tick p]) (tick pol p s) := by
  obtain ⟨hsince, hlt⟩ := h p hp
  have hwrap := wrap_of_lt (x := (s.proc p).lab.tickcounter + 1) (by omega)
    (by unfold QUANTA at hlt; omega)
  unfold Dml.tick
  rw [if_neg hpol]
  dsimp only
  split
  · intro q hq
    have hqp : q ≠ p := by
      rintro rfl
      rw [setState_self] at hq
      cases hq
    rw [since_tick, if_neg (Ne.symm hqp)]
    exact h.calm (calm_expired p) q hq
  · rename_i hres
    have hne : (s.proc p).lab.tickcounter + 1 ≠ QUANTA := by
      rw [← hwrap]
      exact hres
    intro q hq
    rw [since_tick]
    by_cases hqp : p = q
    · subst hqp
      rw [if_pos rfl]
      simp only [Dml.inctickcounter, set_proc_self, hwrap]
      push_cast
      omega
    · rw [if_neg hqp]
      simp only [Dml.inctickcounter, set_proc_of_ne (Ne.symm hqp)] at hq ⊢
      exact h q hq

lemma Counted.inctickcounter (h : Counted es s) (hp : (s.proc p).state = .RUNNING)
    (hc : (s.proc p).lab.tickcounter + 1 < QUANTA) : Counted es (inctickcounter p s).2 := by
  obtain ⟨hsince, hlt⟩ := h p hp
  have hwrap := wrap_of_lt (x := (s.proc p).lab.tickcounter + 1) (by omega)
    (by unfold QUANTA at hlt; omega)
  intro q hq
  by_cases hqp : q = p
  · subst hqp
    simp only [Dml.inctickcounter, set_proc_self, hwrap]
    omega
  · rw [inctickcounter_of_ne hqp] at hq ⊢
    exact h q hq

lemma Counted.scheduler (h : Counted es s) (hc : Prompt pol s .scheduler)
    (hs : scheduler pol s = .ok (s', es')) : Counted (es ++ es') s' := by
  obtain ⟨z, ⟨rfl, rfl⟩ | ⟨p, hp, rfl, rfl⟩⟩ := scheduler_cases hs
  · rwa [List.append_nil]
  · intro q hq
    rw [since_dispatch]
    by_cases hqp : p = q
    · subst hqp
      rw [if_pos rfl]
      simp only [set_proc_self, dispatched]
      split
      · decide
      · rename_i hpol
        exact (hc.resolve_left hpol) p hp
    · rw [if_neg hqp]
      rw [set_proc_of_ne (Ne.symm hqp)] at hq ⊢
      exact h q hq

lemma Calm.call {x : Call} (hx : caller (.call x) = none) : Ensures (call pol x s) (Calm s) := by
  cases x with
  | tick p => cases hx
  | timer => exact Ensures.ok fun q hq => ⟨hq, rfl⟩
  | exec p => cases hx
  | setpriority pid priority => exact Ensures.ok (Calm.setpriority pid priority)
  | incpriority pid => exact Ensures.ok (Calm.incpriority pid)
  | decpriority pid => exact Ensures.ok (Calm.decpriority pid)
  | inctickcounter p => cases hx

lemma Counted.call {x : Call} (h : Counted es s) (hpol : pol ≠ .FCFS)
    (hcaller : ∀ p ∈ caller (.call x), (s.proc p).state = .RUNNING) (hc : Prompt pol s (.call x)) :
    Ensures (call pol x s) (Counted (es ++ received (.call x))) := by
  cases x with
  | tick p => exact Ensures.ok (h.tick hpol (hcaller p rfl))
  | exec p =>
    refine Ensures.ok ?_
    rw [show es ++ received (.call (.exec p)) = es from List.append_nil es]
    unfold exec
    split
    · exact h.calm (Calm.set fun hf => ⟨hf, rfl⟩)
    · exact h
  | inctickcounter p =>
    refine Ensures.ok ?_
    rw [show es ++ received (.call (.inctickcounter p)) = es from List.append_nil es]
    exact h.inctickcounter (hcaller p rfl) hc
  | timer | setpriority pid priority | incpriority pid | decpriority pid =>
    exact (List.append_nil es).symm ▸ h.ensures (Calm.call rfl)

lemma Counted.step (h : Counted es s) (hpol : pol ≠ .FCFS) (hc : Prompt pol s a)
    (hs : step pol a s = .ok (s', es')) : Counted (es ++ es') s' := by
  obtain ⟨rfl, hrun⟩ | ⟨x, rfl, hcaller, hrun, rfl⟩ | ⟨hsched, hcall, hrun⟩ := step_cases hs
  · exact h.scheduler hc hrun
  · exact h.call hpol hcaller hc s' hrun
  · obtain ⟨h', rfl⟩ := (counted_closed pol _ es).step h hsched hcall hrun
    rwa [List.append_nil]

/-- In every run whose dispatches and system calls leave the counters below the quantum, a process that
is still running has received fewer ticks than the quantum since it was dispatched. -/
theorem yields_within_quantum (hpol : pol ≠ .FCFS) (h : Run (step pol) (Prompt pol) (init z) es s)
    (hp : (s.proc p).state = .RUNNING) : since p es < QUANTA := by
  have hcounted :=
    h.history (fun _ _ _ _ _ hi hc hs => Counted.step hi hpol hc hs) fun q hq => by cases hq
  obtain ⟨hsince, hlt⟩ := hcounted p hp
  omega

instance (pol : Policy) : ∀ s a, Decidable (Prompt pol s a) := by
  intro s a
  unfold Prompt
  split <;> infer_instance

/-- The process in the first slot receives some ticks. -/
def ticks (n : ℕ) : List Act := List.replicate n (.call (.tick 0))

/-- A process uses up its quantum, one count of it with a system call, and is dispatched once more. -/
theorem second_quantum_runs : ∃ (es : List Event) (s : State), (s.proc 0).state = .RUNNING ∧
    since 0 es = 2 ∧ since 0 es < QUANTA := by
  obtain ⟨s, hrun, hstate⟩ : ∃ s, Run (step .DML) (Prompt .DML) (init seed)
      [.dispatch 0, .tick 0, .tick 0, .tick 0, .tick 0, .dispatch 0, .tick 0, .tick 0] s ∧
        (s.proc 0).state = .RUNNING :=
    Run.of_leads ([.allocproc, .userinit 0, .scheduler] ++ ticks 3 ++
      [.call (.inctickcounter 0)] ++ ticks 1 ++ [.scheduler] ++ ticks 2) (by decide +kernel)
  exact ⟨_, s, hstate, by decide, yields_within_quantum (by decide) hrun hstate⟩

/-- Without the reset that only one policy compiles in, the second quantum has no end; and with it, a
system call takes the counter to the quantum without a yield. -/
theorem quantum_without_end :
    (∃ (es : List Event) (s : State), Run (step .PRIORITY) (fun _ _ => True) (init seed) es s ∧
      (s.proc 0).state = .RUNNING ∧ since 0 es = 7) ∧
    ∃ (es : List Event) (s : State), Run (step .DML) (fun _ _ => True) (init seed) es s ∧
      (s.proc 0).state = .RUNNING ∧ since 0 es = 7 := by
  constructor
  · obtain ⟨s, hrun, hstate⟩ : ∃ s, Run (step .PRIORITY) (fun _ _ => True) (init seed)
        (.dispatch 0 :: List.replicate 5 (.tick 0) ++ .dispatch 0 :: List.replicate 7 (.tick 0)) s ∧
          (s.proc 0).state = .RUNNING :=
      Run.of_leads ([.allocproc, .userinit 0, .scheduler] ++ ticks 5 ++ [.scheduler] ++ ticks 7)
        (by decide +kernel)
    exact ⟨_, s, hrun, hstate, by decide⟩
  · obtain ⟨s, hrun, hstate⟩ : ∃ s, Run (step .DML) (fun _ _ => True) (init seed)
        (.dispatch 0 :: List.replicate 7 (.tick 0)) s ∧ (s.proc 0).state = .RUNNING :=
      Run.of_leads ([.allocproc, .userinit 0, .scheduler] ++ ticks 4 ++
        [.call (.inctickcounter 0)] ++ ticks 3) (by decide +kernel)
    exact ⟨_, s, hrun, hstate, by decide⟩

end LearnXv6.Sched.Dml
