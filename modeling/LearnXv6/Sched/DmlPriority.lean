import LearnXv6.Sched.Dml

/-! The priorities of the dynamic multilevel lab, and how wake-ups and quantum expirations move a
process between the queues. -/
namespace LearnXv6.Sched.Dml
open Store Policies

variable {pol : Policy} {s s' : State} {a : Act} {p q : Slot} {es : List Event} {z : Generator}
  {r : ℕ → ℕ → Prop} {x : ℤ}

/-- The range of the priorities. -/
def InRange (x : ℤ) : Prop := 1 ≤ x ∧ x ≤ 20

instance : DecidablePred InRange := fun x => inferInstanceAs (Decidable (1 ≤ x ∧ x ≤ 20))

lemma inRange_default : InRange 10 := by decide

/-- The queue of a priority, the best one first. -/
def queueOf (x : ℤ) : ℕ := if x ≤ 7 then 0 else if x ≤ 14 then 1 else 2

lemma raised_inRange (h : InRange x) : InRange (raised x) ∧ queueOf (raised x) ≤ queueOf x := by
  obtain ⟨hlo, hhi⟩ := h
  unfold raised
  split
  · rename_i h7
    split
    · exact ⟨by decide, by simp [queueOf]⟩
    · have hx : InRange (x - 1) := ⟨by omega, by omega⟩
      rw [wrap_of_lt (by omega) (by omega)]
      refine ⟨hx, ?_⟩
      simp only [queueOf, if_pos h7, if_pos (show x - 1 ≤ 7 by omega), le_refl]
  · rename_i h7
    split
    · exact ⟨by decide, by simp [queueOf]⟩
    · refine ⟨by decide, ?_⟩
      simp only [queueOf, if_neg h7, if_neg (show ¬ x ≤ 14 by omega)]
      decide

lemma lowered_inRange (h : InRange x) : InRange (lowered x) ∧ queueOf x ≤ queueOf (lowered x) := by
  obtain ⟨hlo, hhi⟩ := h
  unfold lowered
  split
  · rename_i h7
    exact ⟨by decide, by simp [queueOf, h7]⟩
  · rename_i h7
    split
    · rename_i h14
      exact ⟨by decide, by simp [queueOf, h7, h14.2]⟩
    · have hlow : queueOf x = 2 := by
        simp only [queueOf, if_neg h7, if_neg (show ¬ x ≤ 14 by omega)]
      split
      · exact ⟨by decide, by rw [hlow]; decide⟩
      · have hx : InRange (x + 1) := ⟨by omega, by omega⟩
        rw [wrap_of_lt (by omega) (by omega)]
        refine ⟨hx, ?_⟩
        rw [hlow]
        simp only [queueOf, if_neg (show ¬ x + 1 ≤ 7 by omega),
          if_neg (show ¬ x + 1 ≤ 14 by omega), le_refl]

/-- The priority of every process is in the range. -/
def Bounded (s : State) : Prop :=
  ∀ p, (s.proc p).state ≠ .UNUSED → InRange (s.proc p).lab.priority

namespace Bounded

lemma set {f : Proc Fields → Proc Fields} (h : Bounded s)
    (hf : (f (s.proc p)).state ≠ .UNUSED → InRange (f (s.proc p)).lab.priority) : Bounded (s.set p f) := by
  intro q hq
  by_cases hqp : q = p
  · subst hqp
    rw [Table.set_proc_self] at hq ⊢
    exact hf hq
  · rw [Table.set_proc_of_ne hqp] at hq ⊢
    exact h q hq

lemma setState {state : Procstate} (h : Bounded s) (hp : (s.proc p).state ≠ .UNUSED) :
    Bounded (s.setState p state) := h.set fun _ => h p hp

lemma nextpid (h : Bounded s) (n : ℤ) : Bounded { s with nextpid := n } := h

lemma setPid {f : Fields → Fields} (h : Bounded s)
    (hf : ∀ x, InRange x.priority → InRange (f x).priority) (pid : ℤ) : Bounded (setPid s pid f) := by
  unfold Policies.setPid
  split
  · rename_i p _
    exact h.set fun hq => hf _ (h p hq)
  · exact h

end Bounded

/-- Every process stays, and its queue moves as told. -/
def Moves (r : ℕ → ℕ → Prop) (s s' : State) : Prop :=
  ∀ p, (s.proc p).state ≠ .UNUSED → (s'.proc p).state ≠ .UNUSED ∧
    r (queueOf (s.proc p).lab.priority) (queueOf (s'.proc p).lab.priority)

namespace Moves

variable [Std.Refl r] [IsTrans ℕ r]

omit [IsTrans ℕ r] in
lemma refl (s : State) : Moves r s s := fun _ hp => ⟨hp, Std.Refl.refl _⟩

omit [Std.Refl r] in
lemma trans {s'' : State} (h : Moves r s s') (h' : Moves r s' s'') : Moves r s s'' := by
  intro p hp
  obtain ⟨hp', hr⟩ := h p hp
  obtain ⟨hp'', hr'⟩ := h' p hp'
  exact ⟨hp'', IsTrans.trans _ _ _ hr hr'⟩

omit [IsTrans ℕ r] in
lemma set {f : Proc Fields → Proc Fields}
    (hf : (s.proc p).state ≠ .UNUSED → (f (s.proc p)).state ≠ .UNUSED ∧
      r (queueOf (s.proc p).lab.priority) (queueOf (f (s.proc p)).lab.priority)) : Moves r s (s.set p f) := by
  intro q hq
  by_cases hqp : q = p
  · subst hqp
    rw [Table.set_proc_self]
    exact hf hq
  · rw [Table.set_proc_of_ne hqp]
    exact ⟨hq, Std.Refl.refl _⟩

omit [IsTrans ℕ r] in
lemma setState {state : Procstate} (h : state ≠ .UNUSED) : Moves r s (s.setState p state) :=
  set fun _ => ⟨h, Std.Refl.refl _⟩

omit [IsTrans ℕ r] in
lemma setPid {f : Fields → Fields} (h : Bounded s)
    (hf : ∀ x, InRange x.priority → r (queueOf x.priority) (queueOf (f x).priority)) (pid : ℤ) :
    Moves r s (setPid s pid f) := by
  unfold Policies.setPid
  split
  · rename_i p _
    exact set fun hq => ⟨hq, hf _ (h p hq)⟩
  · exact refl s

end Moves

lemma Bounded.wake (h : Bounded s) (hp : (s.proc p).state ≠ .UNUSED) :
    Ensures (wake pol p s) fun s' => Bounded s' ∧ Moves (· ≥ ·) s s' := by
  refine Ensures.ok ?_
  have hready : Bounded (s.setState p .RUNNABLE) := h.setState hp
  have hmoves : Moves (· ≥ ·) s (s.setState p .RUNNABLE) := Moves.setState (by decide)
  split
  · refine ⟨hready.setPid (fun x hx => (raised_inRange hx).1) _, hmoves.trans ?_⟩
    exact Moves.setPid hready (fun x hx => (raised_inRange hx).2) _
  · exact ⟨hready, hmoves⟩

/-- What holds of a table that wake-ups have led to from `s`. -/
def Woken (s s' : State) : Prop := Bounded s' ∧ Moves (· ≥ ·) s s'

lemma Woken.wake (h : Woken s s') (hp : (s'.proc p).state = .SLEEPING) :
    Ensures (wake pol p s') (Woken s) := by
  intro s'' hs''
  obtain ⟨hb, hm⟩ := h.1.wake (by simp [hp]) s'' hs''
  exact ⟨hb, h.2.trans hm⟩

lemma wakeup1_woken {ticks : ℕ} (h : Bounded s) (chan : Option Chan) :
    Ensures (wakeup1 (lab pol ticks) chan s) (Woken s) :=
  wakeup1_ensures chan (fun _ _ hs hp => hs.wake hp) ⟨h, Moves.refl s⟩

lemma Woken.parent (h : Woken s s') (p : Slot) (parent : Option Slot) :
    Woken s (s'.set p fun x => { x with parent := parent }) :=
  ⟨h.1.set fun hq => h.1 p hq, h.2.trans (Moves.set fun hq => ⟨hq, le_rfl⟩)⟩

lemma exit_woken {ticks : ℕ} (h : Bounded s) (hp : (s.proc p).state = .RUNNING) :
    Ensures (exit (lab pol ticks) p s) (Woken s) := by
  refine exit_ensures (J := Woken s) (fun _ _ hs hp => hs.wake hp) (fun p _ parent hs => hs.parent p parent)
    (fun u hu => ?_) ⟨h, Moves.refl s⟩
  have hused := (hu.2 p (by simp [hp])).1
  exact ⟨hu.1.setState hused, hu.2.trans (Moves.setState (by decide))⟩

lemma bounded_closed (pol : Policy) (ticks : ℕ) : Closed (lab pol ticks) Bounded where
  initproc _ _ h := h
  parent _ p _ h := h.set fun hq => h p hq
  found _ _ h _ := Bounded.nextpid (h.set fun _ => inRange_default) _
  noMemory _ _ h hp := h.setState (by simp [hp])
  reaped _ _ h _ := h.set fun hq => absurd rfl hq
  userinit _ _ h _ := Ensures.ok (h.set fun _ => inRange_default)
  fork _ _ _ h hp := Ensures.ok (h.setState (by simp [hp]))
  yield _ _ h hp := Ensures.ok (h.setState (by simp [hp]))
  sleep _ p _ h hp := Ensures.ok ((h.set fun hq => h p hq).setState (by simp [hp]))
  wakeup _ chan h := fun s' hs' => (wakeup1_woken h chan s' hs').1
  kill s p h := by
    refine Ensures.ok ?_
    have hkilled : Bounded (s.set p fun x => { x with killed := true }) := h.set fun hq => h p hq
    split
    · rename_i hp
      exact hkilled.setState (by rw [hp]; decide)
    · exact hkilled
  exit _ _ h hp := fun s' hs' => (exit_woken h hp s' hs').1

lemma bounded_incpriority (h : Bounded s) (pid : ℤ) : Bounded (incpriority pid s) := by
  refine h.setPid ?_ pid
  intro x hx
  exact (raised_inRange hx).1

lemma bounded_decpriority (h : Bounded s) (pid : ℤ) : Bounded (decpriority pid s) := by
  refine h.setPid ?_ pid
  intro x hx
  exact (lowered_inRange hx).1

lemma bounded_inctickcounter (h : Bounded s) (p : Slot) : Bounded (inctickcounter p s).2 := by
  unfold inctickcounter
  dsimp only
  exact h.set fun hq => h p hq

lemma Bounded.tick (h : Bounded s) (hp : (s.proc p).state = .RUNNING) :
    Bounded (tick pol p s) ∧ Moves (· ≤ ·) s (tick pol p s) := by
  unfold Dml.tick
  split
  · exact ⟨h, Moves.refl s⟩
  have hinc := bounded_inctickcounter h p
  have hmoves : Moves (· ≤ ·) s (inctickcounter p s).2 := by
    unfold inctickcounter
    dsimp only
    exact Moves.set fun hq => ⟨hq, le_rfl⟩
  have hused := (hmoves p (by simp [hp])).1
  dsimp only
  split
  · split
    · have hlow : Moves (· ≤ ·) (inctickcounter p s).2
          (decpriority ((inctickcounter p s).2.proc p).pid (inctickcounter p s).2) := by
        refine Moves.setPid hinc ?_ _
        intro x hx
        exact (lowered_inRange hx).2
      have hdec := bounded_decpriority hinc ((inctickcounter p s).2.proc p).pid
      exact ⟨hdec.setState (hlow p hused).1, (hmoves.trans hlow).trans (Moves.setState (by decide))⟩
    · exact ⟨hinc.setState hused, hmoves.trans (Moves.setState (by decide))⟩
  · exact ⟨hinc, hmoves⟩

/-- A system call gives a process a priority of the range. -/
def Nice (_ : State) (a : Act) : Prop :=
  match a with
  | .call (.setpriority _ priority) => InRange priority
  | _ => True

lemma update_priority (state : Procstate) (x : Stats) : (x.update state).priority = x.priority := by
  cases state <;> rfl

lemma Bounded.call {x : Call} (h : Bounded s)
    (hcaller : ∀ p ∈ caller (.call x), (s.proc p).state = .RUNNING) (hc : Nice s (.call x)) :
    Ensures (call pol x s) Bounded := by
  cases x with
  | tick p => exact Ensures.ok (h.tick (hcaller p rfl)).1
  | timer =>
    refine Ensures.ok fun q hq => ?_
    have : ((timer s).proc q).lab.priority = (s.proc q).lab.priority := update_priority _ _
    rw [this]
    exact h q hq
  | exec p =>
    refine Ensures.ok ?_
    unfold exec
    split
    · exact h.set fun _ => inRange_default
    · exact h
  | setpriority pid priority =>
    refine Ensures.ok (h.setPid ?_ pid)
    intro _ _
    exact hc
  | incpriority pid => exact Ensures.ok (bounded_incpriority h pid)
  | decpriority pid => exact Ensures.ok (bounded_decpriority h pid)
  | inctickcounter p => exact Ensures.ok (bounded_inctickcounter h p)

lemma Bounded.step (h : Bounded s) (hc : Nice s a) (hs : step pol a s = .ok (s', es)) : Bounded s' := by
  obtain ⟨rfl, hrun⟩ | ⟨x, rfl, hcaller, hrun, rfl⟩ | ⟨hsched, hcall, hrun⟩ := step_cases hs
  · obtain ⟨z, ⟨rfl, -⟩ | ⟨p, hp, -, rfl⟩⟩ := scheduler_cases hrun
    · exact h
    · have hb : Bounded { s with queue := { s.queue with generator := z } } := h
      refine hb.set fun _ => ?_
      exact h p (by simp [hp])
  · exact h.call hcaller hc s' hrun
  · exact ((bounded_closed pol _).step h hsched hcall hrun).1

lemma step_tick (hs : step pol (.call (.tick p)) s = .ok (s', es)) :
    (s.proc p).state = .RUNNING ∧ s' = tick pol p s := by
  obtain ⟨h, -⟩ | ⟨x, hx, hcaller, hrun, -⟩ | ⟨-, h, -⟩ := step_cases hs
  · cases h
  · cases hx
    cases hrun
    exact ⟨hcaller p rfl, rfl⟩
  · exact absurd rfl (h _)

/-- The actions that wake sleeping processes. -/
def Wakes (a : Act) : Prop := (∃ chan, a = .wakeup chan) ∨ ∃ p, a = .exit p

lemma Bounded.wakes (h : Bounded s) (ha : Wakes a) (hs : Dml.step pol a s = .ok (s', es)) :
    Moves (· ≥ ·) s s' := by
  obtain ⟨rfl, -⟩ | ⟨x, rfl, -⟩ | ⟨-, -, hrun⟩ := step_cases hs
  · rcases ha with ⟨_, h⟩ | ⟨_, h⟩ <;> cases h
  · rcases ha with ⟨_, h⟩ | ⟨_, h⟩ <;> cases h
  · obtain ⟨chan, rfl⟩ | ⟨p, rfl⟩ := ha
    · exact (quiet_ensures (wakeup1_woken h _) hrun).1.2
    · obtain ⟨hp, hrun⟩ := when_ok hrun
      split at hrun
      · cases hrun
      · exact (quiet_ensures (exit_woken h hp) hrun).1.2

/-- In every run whose `setpriority` calls stay in the range, so do the priorities; no tick moves a
process to a better queue and no wake-up moves one to a worse queue. -/
theorem priorities_in_range (h : Run (step pol) Nice (init z) es s) : (∀ p, (s.proc p).state ≠ .UNUSED →
      1 ≤ (s.proc p).lab.priority ∧ (s.proc p).lab.priority ≤ 20) ∧
    (∀ p s' es', step pol (.call (.tick p)) s = .ok (s', es') → ∀ q, (s.proc q).state ≠ .UNUSED →
        queueOf (s.proc q).lab.priority ≤ queueOf (s'.proc q).lab.priority) ∧
    (∀ a s' es', Wakes a → step pol a s = .ok (s', es') → ∀ q, (s.proc q).state ≠ .UNUSED →
        queueOf (s'.proc q).lab.priority ≤ queueOf (s.proc q).lab.priority) := by
  have hb := h.invariant (fun _ _ _ _ hi hc hs => Bounded.step hi hc hs) fun _ hp => absurd rfl hp
  refine ⟨hb, fun p s' es' hs q hq => ?_, fun a s' es' ha hs q hq => ?_⟩
  · obtain ⟨hp, rfl⟩ := step_tick hs
    exact ((hb.tick hp).2 q hq).2
  · exact (hb.wakes ha hs q hq).2

instance : ∀ s a, Decidable (Nice s a) := by
  intro s a
  unfold Nice
  split <;> infer_instance

/-- A process is given the last priority of the range, uses up its quantum and sleeps. -/
theorem last_priority_kept : ∃ s : State, (s.proc 0).lab.priority = 20 ∧ (s.proc 0).state = .SLEEPING ∧
    (∀ p, (s.proc p).state ≠ .UNUSED → 1 ≤ (s.proc p).lab.priority ∧ (s.proc p).lab.priority ≤ 20) ∧
    (∀ p s' es', step .DML (.call (.tick p)) s = .ok (s', es') → ∀ q, (s.proc q).state ≠ .UNUSED →
        queueOf (s.proc q).lab.priority ≤ queueOf (s'.proc q).lab.priority) ∧
    (∀ a s' es', Wakes a → step .DML a s = .ok (s', es') → ∀ q, (s.proc q).state ≠ .UNUSED →
        queueOf (s'.proc q).lab.priority ≤ queueOf (s.proc q).lab.priority) := by
  obtain ⟨s, hrun, hpriority, hstate⟩ : ∃ s, Run (step .DML) Nice (init seed)
      (.dispatch 0 :: List.replicate 5 (.tick 0) ++ [.dispatch 0]) s ∧
        (s.proc 0).lab.priority = 20 ∧ (s.proc 0).state = .SLEEPING :=
    Run.of_leads ([.allocproc, .userinit 0, .scheduler, .call (.setpriority 1 20)] ++
      List.replicate 5 (.call (.tick 0)) ++ [.scheduler, .sleep 0 (.addr 0)]) (by decide +kernel)
  exact ⟨s, hpriority, hstate, priorities_in_range hrun⟩

/-- The priority 0, which `nice` lets through, leaves the range, and the wake-ups count on downwards. -/
theorem setpriority_out_of_range : ∃ s : State,
    Run (step .DML) (fun _ _ => True) (init seed) [.dispatch 0] s ∧
      (s.proc 0).state = .RUNNABLE ∧ (s.proc 0).lab.priority = -1 :=
  Run.of_leads [.allocproc, .userinit 0, .scheduler, .call (.setpriority 1 0), .sleep 0 (.addr 0),
    .wakeup (.addr 0)] (by decide +kernel)

end LearnXv6.Sched.Dml
