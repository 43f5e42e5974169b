import LearnXv6.Store.Least
import LearnXv6.Sched.Table

/-! The scheduler of the lab with process priorities: the search for the best priority moves the cursor
of the loop that it stands in. -/
namespace LearnXv6.Sched.Priority
open Store

/-- The fields of `struct proc` that the scheduler reads. -/
structure Entry where
  state : Procstate
  priority : ℤ

abbrev Ptable := Slot → Entry

def RunnableAt (t : Ptable) (p : Slot) : Prop := (t p).state = .RUNNABLE

instance (t : Ptable) : DecidablePred (RunnableAt t) :=
  fun p => inferInstanceAs (Decidable ((t p).state = .RUNNABLE))

/-- The inner loop, for the process that the outer loop has found. -/
def highP (t : Ptable) (p : Slot) : Slot :=
  slots.foldl (fun highP p1 =>
    if RunnableAt t p1 ∧ (t highP).priority > (t p1).priority then p1 else highP) p

/-- The cursor of the outer loop as an index, and `ptable.proc`. -/
structure Pass where
  p : ℕ
  ptable : Ptable

/-- The table that one round of the outer loop finds, and the process that it switches to. -/
structure Round where
  ptable : Ptable
  dispatched : Option Slot

/-- One round of the outer loop. A round that switches to a process finds the table `returned` when
the process gives the CPU back. -/
def step (returned : Ptable) (s : Pass) : Except Unit (Pass × List Round) :=
  if h : s.p < NPROC then
    let p : Slot := ⟨s.p, h⟩
    if ¬ RunnableAt s.ptable p then .ok (⟨s.p + 1, s.ptable⟩, [⟨s.ptable, none⟩])
    else
      let p := highP s.ptable p
      .ok (⟨p + 1, returned⟩, [⟨s.ptable, some p⟩])
  else .error ()

/-- A process that may run now, with the least value of all that may. -/
structure Best (t : Ptable) (p : Slot) : Prop where
  runnable : RunnableAt t p
  least : ∀ q, RunnableAt t q → (t p).priority ≤ (t q).priority

variable {t returned : Ptable} {s s' : Pass} {es es' : List Round} {p : Slot}

lemma highP_best (h : RunnableAt t p) : Best t (highP t p) := by
  obtain ⟨hrun, -, hleast⟩ :=
    foldl_improve (k := fun q => (t q).priority) (l := slots) (P := RunnableAt t) h
  constructor
  · exact hrun
  · intro q hq
    exact hleast q (by simp [slots]) hq

lemma step_cases (h : step returned s = .ok (s', es)) :
    (∃ hp : s.p < NPROC, ¬ RunnableAt s.ptable ⟨s.p, hp⟩ ∧ s' = ⟨s.p + 1, s.ptable⟩ ∧
        es = [⟨s.ptable, none⟩]) ∨
      ∃ p, Best s.ptable p ∧ s' = ⟨p + 1, returned⟩ ∧ es = [⟨s.ptable, some p⟩] := by
  unfold step at h
  split at h
  · rename_i hp
    dsimp only at h
    split at h
    · rename_i hrun
      cases h
      exact .inl ⟨hp, hrun, rfl, rfl⟩
    · rename_i hrun
      cases h
      exact .inr ⟨_, highP_best (not_not.mp hrun), rfl, rfl⟩
  · cases h

end LearnXv6.Sched.Priority
