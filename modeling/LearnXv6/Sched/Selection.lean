import LearnXv6.Sched.Compiled

/-! What the six policies choose. -/
namespace LearnXv6.Sched.Compiled
open Store Policies List

variable {s : State} {p q : Slot} {pol : Policy}

def RunnableIn (s : State) (p : Slot) : Prop := (s.proc p).state = .RUNNABLE

instance (s : State) : DecidablePred (RunnableIn s) :=
  fun p => inferInstanceAs (Decidable ((s.proc p).state = .RUNNABLE))

/-- The tickets of the runnable processes in a list of entries. -/
def ticketsOf (s : State) (l : List Slot) : ℤ :=
  ((l.filter fun p => RunnableIn s p).map fun p => (s.proc p).lab.ntickets).sum

/-- The number that the lottery draws. -/
def draw (s : State) : ℤ := wrap (lcgRand (lcgRand s.queue.ticks))

/-- A process with the least value, and the lowest index of those that have it. -/
def FirstLeast (s : State) (key : Stats → ℤ) (p : Slot) : Prop :=
  ∀ q, RunnableIn s q → key (s.proc p).lab.toStats ≤ key (s.proc q).lab.toStats ∧
    (key (s.proc q).lab.toStats = key (s.proc p).lab.toStats → p ≤ q)

/-- The process that a policy is to choose. -/
def Chosen (pol : Policy) (s : State) (p : Slot) : Prop :=
  match pol with
  | .DEFAULT => ∃ start : Slot, (start.val : ℤ) = (random NPROC s.queue.generator).1 ∧
      FirstFrom (fun q => (s.proc q).state) start p
  | .PRIORITY => FirstLeast s Stats.priority p
  | .FCFS => FirstLeast s (fun x => x.ctime) p
  | .CFS => FirstLeast s Stats.rutime p
  | .SML => ∀ q, RunnableIn s q →
      classOf (s.proc p).lab.priority ≤ classOf (s.proc q).lab.priority
  | .LOTTERY => ticketsOf s (slots.take p) ≤ draw s % ticketsOf s slots ∧
      draw s % ticketsOf s slots < ticketsOf s (slots.take (p + 1))

lemma firstLeast_of_candidate {key : Stats → ℤ}
    (h : candidate (fun p => (s.proc p).state) (fun p => (s.proc p).lab.toStats) key = some p) :
    FirstLeast s key p := by
  intro q hq
  exact ((candidate_least key).least p h).2 q (by simp [slots]) hq

/-- The policies without tickets return a process exactly when there is one that may run, and then the
one that they are to choose. -/
lemma readyProcess_chooses (pol : Policy) (hpol : pol ≠ .LOTTERY) (s : State) :
    ∃ o z, readyProcess pol s = .ok (o, z) ∧ Picks (fun p => (s.proc p).state) o ∧
      ∀ p, o = some p → Chosen pol s p := by
  cases pol with
  | DEFAULT => exact defaultScheduler_picks _
  | PRIORITY | FCFS | CFS =>
    exact ⟨_, _, rfl, candidate_picks _, fun p hp => firstLeast_of_candidate hp⟩
  | SML => exact smlScheduler_picks _
  | LOTTERY => exact absurd rfl hpol

/-- The policies without tickets, and the generator that two of them use. -/
theorem policies_choose (pol : Policy) (hpol : pol ≠ .LOTTERY) (s : State) :
    (∃ o z, readyProcess pol s = .ok (o, z) ∧ (o = none ↔ ∀ p, ¬ RunnableIn s p) ∧
        ∀ p, o = some p → RunnableIn s p ∧ Chosen pol s p) ∧
      ∀ (max : ℤ) (z : Generator), 0 < max → 0 ≤ (random max z).1 ∧ (random max z).1 < max := by
  obtain ⟨o, z, hready, hpick, hchosen⟩ := readyProcess_chooses pol hpol s
  constructor
  · exact ⟨o, z, hready, hpick.nothing, fun p hp => ⟨hpick.runnable p hp, hchosen p hp⟩⟩
  · intro max z hmax
    exact random_bounds hmax z

/-- A table with `n` processes that may run, with the same number of tickets. -/
def crowd (n : ℕ) (ntickets : ℤ) (ticks : ℕ) : State where
  proc p :=
    if p.val < n then ⟨.RUNNABLE, p.val + 1, if p.val = 0 then none else some 0, none, false,
      ⟨.found 0, ntickets⟩⟩
    else ⟨.UNUSED, 0, none, none, false, ⟨⟨0, 0, 0, 0, 0⟩, 0⟩⟩
  nextpid := n + 1
  initproc := some 0
  queue := ⟨ticks, seed, fun _ => .elsewhere⟩

theorem multilevel_chooses : (∃ p, RunnableIn (crowd 3 2 0) p) ∧
    ∃ o z, readyProcess .SML (crowd 3 2 0) = .ok (o, z) ∧ (o = none ↔ ∀ p, ¬ RunnableIn (crowd 3 2 0) p) ∧
      ∀ p, o = some p → RunnableIn (crowd 3 2 0) p ∧ Chosen .SML (crowd 3 2 0) p :=
  ⟨⟨0, by decide⟩, (policies_choose .SML (by decide) (crowd 3 2 0)).1⟩

/-! The lottery. -/

lemma ticketsOf_cons (l : List Slot) : ticketsOf s (p :: l) =
    (if RunnableIn s p then (s.proc p).lab.ntickets else 0) + ticketsOf s l := by
  unfold ticketsOf
  by_cases hp : RunnableIn s p <;> simp [hp]

lemma ticketsOf_append (l l' : List Slot) : ticketsOf s (l ++ l') = ticketsOf s l + ticketsOf s l' := by
  simp [ticketsOf]

lemma ticketsOf_nonneg (hpos : ∀ p, RunnableIn s p → 0 < (s.proc p).lab.ntickets)
    (l : List Slot) : 0 ≤ ticketsOf s l := by
  induction l with
  | nil => simp [ticketsOf]
  | cons p l ih =>
    rw [ticketsOf_cons]
    split
    · rename_i hp
      have := hpos p hp
      omega
    · omega

/-- Positive numbers whose sum is an `int` are added up without an overflow. -/
lemma lotteryTotal_eq (hpos : ∀ p, RunnableIn s p → 0 < (s.proc p).lab.ntickets)
    (hsum : ticketsOf s slots < 2 ^ 31) :
    lotteryTotal (fun p => (s.proc p).state) (fun p => (s.proc p).lab.ntickets) = ticketsOf s slots := by
  have hfold : ∀ (l : List Slot) (total : ℤ), 0 ≤ total → total + ticketsOf s l < 2 ^ 31 →
      l.foldl (fun total_tickets p => if (s.proc p).state = .RUNNABLE
        then wrap (total_tickets + (s.proc p).lab.ntickets) else total_tickets) total =
      total + ticketsOf s l := by
    intro l
    induction l with
    | nil => simp [ticketsOf]
    | cons p l ih =>
      intro total htotal hlt
      have hrest := ticketsOf_nonneg hpos l
      rw [ticketsOf_cons] at hlt ⊢
      rw [foldl_cons]
      by_cases hp : (s.proc p).state = .RUNNABLE
      · have hn := hpos p hp
        rw [if_pos (show RunnableIn s p from hp)] at hlt ⊢
        rw [if_pos hp, wrap_of_lt (by omega) (by omega), ih _ (by omega) (by omega)]
        ring
      · rw [if_neg (show ¬ RunnableIn s p from hp)] at hlt ⊢
        rw [if_neg hp, ih total htotal (by omega)]
        ring
  unfold lotteryTotal
  rw [hfold slots 0 le_rfl (by omega), zero_add]

lemma foldl_ticket (l : List Slot) (hl : l.Pairwise (· < ·)) (chosen : ℤ) :
    let o := (l.foldl (ticket (fun p => (s.proc p).state) fun p => (s.proc p).lab.ntickets)
      (chosen, none)).2
    (o = none ↔ ∀ p ∈ l, ¬ RunnableIn s p) ∧
      ∀ p, o = some p → RunnableIn s p ∧ ∀ q ∈ l, RunnableIn s q → q ≤ p := by
  induction l using reverseRecOn with
  | nil => simp
  | append_singleton l a ih =>
    obtain ⟨hl, -, hla⟩ := pairwise_append.mp hl
    obtain ⟨hnone, hsome⟩ := ih hl
    simp only [foldl_append, foldl_cons, foldl_nil]
    by_cases ha : RunnableIn s a
    · have hticket : ∀ c, (ticket (fun p => (s.proc p).state) (fun p => (s.proc p).lab.ntickets)
          c a).2 = some a := fun c => by
        unfold ticket
        rw [if_pos (show (s.proc a).state = .RUNNABLE from ha)]
      rw [hticket]
      constructor
      · simp [ha]
      · intro p hp
        cases hp
        refine ⟨ha, fun q hq _ => ?_⟩
        rcases mem_append.mp hq with hq | hq
        · exact (hla q hq a (by simp)).le
        · exact (mem_singleton.mp hq).le
    · have hticket : ∀ c, ticket (fun p => (s.proc p).state) (fun p => (s.proc p).lab.ntickets)
          c a = c := fun c => if_neg ha
      rw [hticket]
      constructor
      · simp only [hnone, forall_mem_append, forall_mem_singleton, ha, not_false_eq_true, and_true]
      · intro p hp
        obtain ⟨hrun, hlast⟩ := hsome p hp
        refine ⟨hrun, fun q hq hq' => ?_⟩
        rcases mem_append.mp hq with hq | hq
        · exact hlast q hq hq'
        · rw [mem_singleton.mp hq] at hq'
          exact absurd hq' ha

/-- The last process that may run. -/
def LastRunnable (s : State) (p : Slot) : Prop := RunnableIn s p ∧ ∀ q, RunnableIn s q → q ≤ p

lemma LastRunnable.unique (hp : LastRunnable s p) (hq : LastRunnable s q) : p = q :=
  le_antisymm (hq.2 p hp.1) (hp.2 q hq.1)

lemma lottery_last (hpos : ∀ p, RunnableIn s p → 0 < (s.proc p).lab.ntickets)
    (hT : 0 < ticketsOf s slots ∧ ticketsOf s slots < 2 ^ 31) :
    ∃ p, readyProcess .LOTTERY s = .ok (some p, s.queue.generator) ∧ LastRunnable s p := by
  have htotal := lotteryTotal_eq hpos hT.2
  obtain ⟨o, hready, hnone, hsome⟩ : ∃ o, readyProcess .LOTTERY s = .ok (o, s.queue.generator) ∧
      (o = none ↔ ∀ p ∈ slots, ¬ RunnableIn s p) ∧
      ∀ p, o = some p → RunnableIn s p ∧ ∀ q ∈ slots, RunnableIn s q → q ≤ p := by
    refine ⟨_, ?_, foldl_ticket slots slots_pairwise
      (if ticketsOf s slots < draw s then (draw s).tmod (ticketsOf s slots) else draw s)⟩
    unfold readyProcess lottery
    simp only [htotal, gt_iff_lt, hT.1, if_true, draw]
    rfl
  cases o with
  | none =>
    have hempty : slots.filter (fun p => decide (RunnableIn s p)) = [] :=
      filter_eq_nil_iff.mpr fun p hp => by simpa using hnone.mp rfl p hp
    simp [ticketsOf, hempty] at hT
  | some p =>
    obtain ⟨hrun, hlast⟩ := hsome p rfl
    exact ⟨p, hready, hrun, fun q hq => hlast q (by simp [slots]) hq⟩

lemma take_succ_slots (p : Slot) : slots.take (p + 1) = slots.take p ++ [p] := by
  rw [take_add_one, getElem?_eq_getElem (by simp [slots])]
  simp [slots]

lemma LastRunnable.tickets (h : LastRunnable s p) : ticketsOf s (slots.take (p + 1)) = ticketsOf s slots ∧
      ticketsOf s (slots.take p) = ticketsOf s slots - (s.proc p).lab.ntickets := by
  have hrest : ticketsOf s (slots.drop (p + 1)) = 0 := by
    have hempty : (slots.drop (p + 1)).filter (fun p => decide (RunnableIn s p)) = [] := by
      refine filter_eq_nil_iff.mpr fun q hq => ?_
      obtain ⟨i, hi, rfl⟩ := mem_drop_iff_getElem.mp hq
      intro hrun
      have hle := Fin.le_def.mp (h.2 _ (by simpa using hrun))
      simp [slots] at hle
      omega
    simp [ticketsOf, hempty]
  have hall : ticketsOf s (slots.take (p + 1)) = ticketsOf s slots := by
    conv_rhs => rw [← take_append_drop (p + 1) slots]
    rw [ticketsOf_append, hrest, add_zero]
  have hself : ticketsOf s [p] = (s.proc p).lab.ntickets := by
    simp [ticketsOf, h.1]
  refine ⟨hall, ?_⟩
  rw [← hall, take_succ_slots, ticketsOf_append, hself]
  ring

/-- The lottery returns the process with the drawn ticket exactly when this ticket is one of the last
process that may run. -/
theorem lottery_winner (s : State) (hpos : ∀ p, RunnableIn s p → 0 < (s.proc p).lab.ntickets)
    (hT : 0 < ticketsOf s slots ∧ ticketsOf s slots < 2 ^ 31) :
    (∃ p z, readyProcess .LOTTERY s = .ok (some p, z) ∧ RunnableIn s p ∧ Chosen .LOTTERY s p) ↔
      ∃ p, RunnableIn s p ∧ (∀ q, RunnableIn s q → q ≤ p) ∧
        ticketsOf s slots - (s.proc p).lab.ntickets ≤ draw s % ticketsOf s slots := by
  obtain ⟨p, hready, hlast⟩ := lottery_last hpos hT
  obtain ⟨hall, hbefore⟩ := hlast.tickets
  constructor
  · rintro ⟨p', z, hready', -, hlo, -⟩
    rw [hready] at hready'
    cases hready'
    exact ⟨p, hlast.1, hlast.2, hbefore ▸ hlo⟩
  · rintro ⟨p', hrun, hmax, hlo⟩
    obtain rfl := hlast.unique ⟨hrun, hmax⟩
    refine ⟨p, _, hready, hlast.1, ?_, ?_⟩
    · rw [hbefore]
      exact hlo
    · rw [hall]
      exact Int.emod_lt_of_pos _ hT.1

/-- After two ticks the ticket 14 of 20 is drawn, which the second of two processes has. -/
theorem lottery_second : ∃ p z, readyProcess .LOTTERY (crowd 2 10 2) = .ok (some p, z) ∧
    RunnableIn (crowd 2 10 2) p ∧ Chosen .LOTTERY (crowd 2 10 2) p :=
  (lottery_winner (crowd 2 10 2) (by decide) (by decide)).mpr ⟨1, by decide⟩

/-- After one tick the ticket 5 of 20 is drawn, which the first of two processes has. The second one is
returned. -/
theorem lottery_first_loses : draw (crowd 2 10 1) % ticketsOf (crowd 2 10 1) slots = 5 ∧
    Chosen .LOTTERY (crowd 2 10 1) 0 ∧ readyProcess .LOTTERY (crowd 2 10 1) = .ok (some 1, seed) ∧
    ¬ Chosen .LOTTERY (crowd 2 10 1) 1 := by
  unfold Chosen
  decide +kernel

end LearnXv6.Sched.Compiled
