import LearnXv6.Store.Spread
import LearnXv6.Sched.Selection

/-! How far the run times of the processes are apart under the policy CFS, on one CPU and with
processes that only compute. -/
namespace LearnXv6.Sched.Compiled
open Store Policies Table

/-- The processes that run or may run. -/
def members (s : State) : Finset Slot :=
  {p | (s.proc p).state = .RUNNABLE ∨ (s.proc p).state = .RUNNING}

def rutime (s : State) (p : Slot) : ℤ := (s.proc p).lab.rutime

/-- `c->proc`, on a machine with one CPU. -/
def current (s : State) : Option Slot := slots.find? fun p => (s.proc p).state = .RUNNING

def yieldCurrent (s : State) : State :=
  match current s with
  | some p => s.setState p .RUNNABLE
  | none => s

/-- A timer interrupt, where `&ticks` is the address `a`, and the scheduler after it. -/
def timerTick (a : ℕ) (s : State) : Except Fault State := do
  let s := { s with queue := { s.queue with ticks := nextTick s.queue.ticks } }
  let s := update_statistics s
  let s ← wakeup1 (lab .CFS s.queue) (some (.addr a)) s
  let (s, _) ← scheduler .CFS (yieldCurrent s)
  return s

/-- A decision of the scheduler, and a number of timer interrupts after it. -/
def afterTicks (a : ℕ) (s : State) : ℕ → Except Fault State
  | 0 => do
    let (s, _) ← scheduler .CFS s
    return s
  | n + 1 => do
    let s ← afterTicks a s n
    timerTick a s

/-- The processes that the machine has at a decision of the scheduler: nothing runs, nothing waits for
the timer, and the run times are values of an `int`. -/
structure Computing (a : ℕ) (s : State) : Prop where
  decision : ∀ p, (s.proc p).state ≠ .RUNNING
  awake : ∀ p, (s.proc p).state = .SLEEPING → (s.proc p).chan ≠ some (.addr a)
  int : ∀ p, -2 ^ 31 ≤ rutime s p ∧ rutime s p ≤ INT_MAX

/-- A running process whose `rutime` cannot grow is alone. -/
def RoomToCount (s : State) : Prop :=
  ∀ p, (s.proc p).state = .RUNNING → ∀ q ∈ members s, q ≠ p → rutime s p < INT_MAX

variable {a : ℕ} {s s₀ : State} {p : Slot} {D : ℤ} {S : Finset Slot}

lemma mem_members : p ∈ members s ↔ (s.proc p).state = .RUNNABLE ∨ (s.proc p).state = .RUNNING := by
  simp [members]

lemma rutime_set {f : Proc Fields → Proc Fields} (hf : ∀ x, (f x).lab = x.lab) :
    rutime (s.set p f) = rutime s := by
  funext q
  by_cases hq : q = p
  · subst hq
    simp [rutime, hf]
  · simp [rutime, set_proc_of_ne hq]

/-- What holds after a decision: the process that runs has the least run time. -/
structure Chose (a : ℕ) (S : Finset Slot) (D : ℤ) (s : State) : Prop where
  same : members s = S
  awake : ∀ p, (s.proc p).state = .SLEEPING → (s.proc p).chan ≠ some (.addr a)
  int : ∀ p, -2 ^ 31 ≤ rutime s p ∧ rutime s p ≤ INT_MAX
  one : ∀ p q, (s.proc p).state = .RUNNING → (s.proc q).state = .RUNNING → p = q
  least : ∀ p, (s.proc p).state = .RUNNING → ∀ q ∈ S, rutime s p ≤ rutime s q
  close : spread S (rutime s) ≤ D

lemma scheduler_chose (h : Computing a s) (hD : spread (members s) (rutime s) ≤ D) :
    ∃ s' es, scheduler .CFS s = .ok (s', es) ∧ Chose a (members s) D s' := by
  obtain ⟨o, z, hready, hpick, hchosen⟩ := readyProcess_chooses .CFS (by decide) s
  unfold scheduler
  rw [hready]
  cases o with
  | none =>
    exact ⟨_, _, rfl, rfl, h.awake, h.int, fun p q hp => absurd hp (h.decision p),
      fun p hp => absurd hp (h.decision p), hD⟩
  | some p =>
    have hrun := hpick.runnable p rfl
    refine ⟨_, _, rfl, ?_⟩
    generalize hu : ({ s with queue := { s.queue with generator := z } } : State) = u
    have hproc : u.proc = s.proc := by rw [← hu]
    have hrut : rutime (u.set p dispatched) = rutime s := by
      rw [rutime_set (f := dispatched) fun _ => rfl]
      unfold rutime
      rw [hproc]
    have hother : ∀ q, q ≠ p → (u.set p dispatched).proc q = s.proc q := by
      intro q hq
      rw [set_proc_of_ne hq, hproc]
    have honly : ∀ q, ((u.set p dispatched).proc q).state = .RUNNING → q = p := by
      intro q hq
      by_contra hne
      rw [hother q hne] at hq
      exact h.decision q hq
    constructor
    · ext q
      by_cases hq : q = p
      · subst hq
        simp [mem_members, hrun, dispatched]
      · simp [mem_members, hother q hq]
    · intro q hq
      by_cases hqp : q = p
      · subst hqp
        simp [dispatched] at hq
      · rw [hother q hqp] at hq ⊢
        exact h.awake q hq
    · rw [hrut]
      exact h.int
    · intro q r hq hr
      rw [honly q hq, honly r hr]
    · intro q hq r hr
      rw [hrut, honly q hq]
      rcases mem_members.mp hr with hr | hr
      · exact (hchosen p rfl r hr).1
      · exact absurd hr (h.decision r)
    · rw [hrut]
      exact hD

lemma wakeup1_idle (h : ∀ p, (s.proc p).state = .SLEEPING → (s.proc p).chan ≠ some (.addr a))
    (k : Kernel) : wakeup1 (lab .CFS k) (some (.addr a)) s = .ok s := by
  unfold wakeup1
  generalize slots = l
  induction l with
  | nil => rfl
  | cons p l ih =>
    have hp : ¬ ((s.proc p).state = .SLEEPING ∧ (s.proc p).chan = some (.addr a)) :=
      fun hp => h p hp.1 hp.2
    rw [List.foldlM_cons, if_neg hp]
    exact ih

lemma update_statistics_rutime (s : State) (p : Slot) : rutime (update_statistics s) p =
    if (s.proc p).state = .RUNNING then wrap (rutime s p + 1) else rutime s p := by
  simp only [rutime, update_statistics, Stats.update]
  cases (s.proc p).state <;> simp

lemma find?_slots_none {c : Slot → Prop} [DecidablePred c]
    (h : (slots.find? fun p => decide (c p)) = none) : ∀ p, ¬ c p := by
  simpa [slots] using h

lemma Chose.tick (h : Chose a S D s) (hD : 1 ≤ D) (hroom : RoomToCount s) :
    Computing a (yieldCurrent (update_statistics s)) ∧ members (yieldCurrent (update_statistics s)) = S ∧
      spread S (rutime (yieldCurrent (update_statistics s))) ≤ D := by
  have hint : ∀ p, -2 ^ 31 ≤ rutime (update_statistics s) p ∧
      rutime (update_statistics s) p ≤ INT_MAX := by
    intro p
    rw [update_statistics_rutime]
    split
    · exact wrap_bounds _
    · exact h.int p
  unfold yieldCurrent
  split
  · rename_i p hp
    have hp : (s.proc p).state = .RUNNING := find?_slots hp
    have hother : ∀ q, q ≠ p → (s.proc q).state ≠ .RUNNING := fun q hq hq' => hq (h.one q p hq' hp)
    have hrut : rutime ((update_statistics s).setState p .RUNNABLE) =
        rutime (update_statistics s) := rutime_set fun _ => rfl
    refine ⟨⟨fun q => ?_, fun q hq => ?_, ?_⟩, ?_, ?_⟩
    · by_cases hq : q = p
      · subst hq
        simp
      · rw [setState_of_ne hq]
        exact hother q hq
    · by_cases hqp : q = p
      · subst hqp
        simp at hq
      · rw [setState_of_ne hqp] at hq ⊢
        exact h.awake q hq
    · rw [hrut]
      exact hint
    · rw [← h.same]
      ext q
      by_cases hq : q = p
      · subst hq
        simp [mem_members, hp]
      · simp only [mem_members, setState_of_ne hq]
        rfl
    · rw [hrut]
      apply spread_count_least hD (h.least p hp)
      · intro q _ hq
        rw [update_statistics_rutime, if_neg (hother q hq)]
      · rintro ⟨q, hq, hqp⟩
        have hlt := hroom p hp q (h.same ▸ hq) hqp
        have hlo := (h.int p).1
        rw [update_statistics_rutime, if_pos hp]
        exact wrap_eq (by omega) (by omega)
      · exact h.close
  · rename_i hnone
    have hnone : ∀ p, (s.proc p).state ≠ .RUNNING := find?_slots_none hnone
    have hrut : rutime (update_statistics s) = rutime s := by
      funext p
      rw [update_statistics_rutime, if_neg (hnone p)]
    refine ⟨⟨hnone, h.awake, hint⟩, h.same, ?_⟩
    rw [hrut]
    exact h.close

lemma Chose.timerTick (h : Chose a S D s) (hD : 1 ≤ D) (hroom : RoomToCount s) :
    ∃ s', timerTick a s = .ok s' ∧ Chose a S D s' := by
  generalize hu : ({ s with queue := { s.queue with ticks := nextTick s.queue.ticks } } : State) = u
  have hchose : Chose a S D u := by
    rw [← hu]
    exact ⟨h.same, h.awake, h.int, h.one, h.least, h.close⟩
  have hroom' : RoomToCount u := by
    rw [← hu]
    exact hroom
  obtain ⟨hcomp, hsame, hclose⟩ := hchose.tick hD hroom'
  obtain ⟨s', es, hsched, hchose'⟩ := scheduler_chose hcomp (D := D) (by rw [hsame]; exact hclose)
  rw [hsame] at hchose'
  refine ⟨s', ?_, hchose'⟩
  unfold Compiled.timerTick
  simp only [hu]
  rw [wakeup1_idle (s := update_statistics u) hchose.awake]
  simp only [ok_bind, hsched]
  rfl

/-- As long as no counter is full while another process waits, the run times of processes that only
compute are never further apart than they were at the start, or than one tick. -/
theorem cfs_spread (a : ℕ) (s₀ : State) (h : Computing a s₀) (n : ℕ)
    (hroom : ∀ k < n, ∀ s, afterTicks a s₀ k = .ok s → RoomToCount s) :
    ∃ s, afterTicks a s₀ n = .ok s ∧ members s = members s₀ ∧
      spread (members s) (rutime s) ≤ max (spread (members s₀) (rutime s₀)) 1 := by
  obtain ⟨s, hs, hchose⟩ : ∃ s, afterTicks a s₀ n = .ok s ∧
      Chose a (members s₀) (max (spread (members s₀) (rutime s₀)) 1) s := by
    induction n with
    | zero =>
      obtain ⟨s, es, hsched, hchose⟩ := scheduler_chose h (le_max_left _ 1)
      refine ⟨s, ?_, hchose⟩
      unfold afterTicks
      rw [hsched]
      rfl
    | succ n ih =>
      obtain ⟨s, hs, hchose⟩ := ih fun k hk => hroom k (by omega)
      obtain ⟨s', hs', hchose'⟩ := hchose.timerTick (le_max_right _ _) (hroom n (by omega) s hs)
      refine ⟨s', ?_, hchose'⟩
      unfold afterTicks
      rw [hs]
      exact hs'
  exact ⟨s, hs, hchose.same, hchose.same ▸ hchose.close⟩

/-- Two processes that compute, with run times of their own. -/
def pair (rutime₀ rutime₁ : ℤ) : State where
  proc p :=
    if p.val < 2 then ⟨.RUNNABLE, p.val + 1, if p.val = 0 then none else some 0, none, false,
      ⟨⟨10, 0, 0, 0, if p.val = 0 then rutime₀ else rutime₁⟩, 1⟩⟩
    else ⟨.UNUSED, 0, none, none, false, ⟨⟨0, 0, 0, 0, 0⟩, 0⟩⟩
  nextpid := 3
  initproc := some 0
  queue := ⟨0, seed, fun _ => .elsewhere⟩

lemma pair_computing {x y : ℤ} (hx : -2 ^ 31 ≤ x ∧ x ≤ INT_MAX) (hy : -2 ^ 31 ≤ y ∧ y ≤ INT_MAX) :
    Computing a (pair x y) := by
  unfold INT_MAX at *
  refine ⟨fun p => ?_, fun p => ?_, fun p => ?_⟩
  all_goals
    simp only [rutime, pair, INT_MAX]
    split_ifs <;> simp <;> omega

/-- A process that has run for five ticks less than the other. -/
theorem pair_spread : Computing 0 (pair 0 5) ∧ ∃ s, afterTicks 0 (pair 0 5) 1 = .ok s ∧
    members s = members (pair 0 5) ∧
    spread (members s) (rutime s) ≤ max (spread (members (pair 0 5)) (rutime (pair 0 5))) 1 := by
  have hcomp : Computing 0 (pair 0 5) := pair_computing (by decide) (by decide)
  refine ⟨hcomp, cfs_spread 0 (pair 0 5) hcomp 1 fun k hk s hs p _ q _ _ => ?_⟩
  obtain rfl : k = 0 := by omega
  obtain ⟨u, hu, hlt⟩ : ∃ u, afterTicks 0 (pair 0 5) 0 = .ok u ∧ ∀ p, rutime u p < INT_MAX :=
    exists_eq_ok (by decide +kernel)
  rw [hs] at hu
  cases hu
  exact hlt p

/-- With the largest `int` as the run time of both, the one that runs gets the smallest. -/
theorem rutime_overflow : Computing 0 (pair INT_MAX INT_MAX) ∧
    ∃ s, afterTicks 0 (pair INT_MAX INT_MAX) 1 = .ok s ∧
      max (spread (members (pair INT_MAX INT_MAX)) (rutime (pair INT_MAX INT_MAX))) 1 <
        spread (members s) (rutime s) := by
  refine ⟨pair_computing (by decide) (by decide), ?_⟩
  obtain ⟨s, hs, h0, h1, hr0, hr1⟩ : ∃ s, afterTicks 0 (pair INT_MAX INT_MAX) 1 = .ok s ∧
      ((s.proc 0).state = .RUNNABLE ∨ (s.proc 0).state = .RUNNING) ∧
      ((s.proc 1).state = .RUNNABLE ∨ (s.proc 1).state = .RUNNING) ∧
      rutime s 0 = -2 ^ 31 ∧ rutime s 1 = INT_MAX := exists_eq_ok (by decide +kernel)
  have hstart : spread (members (pair INT_MAX INT_MAX)) (rutime (pair INT_MAX INT_MAX)) ≤ 1 := by
    refine (spread_le_iff (by decide)).mpr fun p hp q hq => ?_
    have hfull : ∀ p ∈ members (pair INT_MAX INT_MAX), rutime (pair INT_MAX INT_MAX) p = INT_MAX := by
      decide +kernel
    rw [hfull p hp, hfull q hq]
    decide
  have hend := sub_le_spread (c := rutime s) (mem_members.mpr h1) (mem_members.mpr h0)
  refine ⟨s, hs, ?_⟩
  rw [hr0, hr1] at hend
  unfold INT_MAX at hend
  omega

end LearnXv6.Sched.Compiled
