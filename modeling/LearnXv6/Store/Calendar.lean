import Mathlib.Algebra.BigOperators.Intervals
import Mathlib.Tactic.IntervalCases

/-! The Gregorian calendar: how long months and years are, and the number of a day. -/
namespace Store.Calendar

def Leap (y : ℕ) : Prop := y % 4 = 0 ∧ (y % 100 ≠ 0 ∨ y % 400 = 0)

instance (y : ℕ) : Decidable (Leap y) := inferInstanceAs (Decidable (_ ∧ _))

def monthDays (y m : ℕ) : ℕ :=
  if m = 2 then if Leap y then 29 else 28 else if m = 4 ∨ m = 6 ∨ m = 9 ∨ m = 11 then 30 else 31

/-- The days of a year before one of its months. -/
def daysBefore (y m : ℕ) : ℕ := ∑ i ∈ Finset.Ico 1 m, monthDays y i

def yearDays (y : ℕ) : ℕ := daysBefore y 13

structure Valid (y m d : ℕ) : Prop where
  month : 1 ≤ m ∧ m ≤ 12
  day : 1 ≤ d ∧ d ≤ monthDays y m

/-- The days from 1 January of the year 1 to a date. -/
def number (y m d : ℕ) : ℕ := ∑ i ∈ Finset.Ico 1 y, yearDays i + daysBefore y m + (d - 1)

/-- The day of the week, from `0` for Monday: 1 January of the year 1 is one. -/
def weekday (y m d : ℕ) : ℕ := number y m d % 7

variable {y m d : ℕ}

lemma monthDays_le (y m : ℕ) : monthDays y m ≤ 31 := by
  unfold monthDays
  split_ifs <;> omega

lemma daysBefore_eq (hm : 1 ≤ m) (hm' : m ≤ 13) :
    daysBefore y m = if m ≤ 2 then 31 * (m - 1)
      else (if Leap y then 60 else 59) + (306 * (m - 3) + 5) / 10 := by
  interval_cases m <;> simp [daysBefore, Finset.sum_Ico_succ_top, monthDays] <;> split <;> rfl

lemma yearDays_eq : yearDays y = if Leap y then 366 else 365 := by
  rw [yearDays, daysBefore_eq (by omega) le_rfl, if_neg (by omega)]
  split <;> rfl

/-- The leap days of the years up to `y`. -/
def leaps (y : ℕ) : ℕ := y / 4 - y / 100 + y / 400

lemma leaps_le (y : ℕ) : leaps y ≤ y := by
  unfold leaps
  omega

lemma leaps_cast (x : ℤ) (y : ℕ) : x + y / 4 - y / 100 + y / 400 = x + leaps y := by
  unfold leaps
  omega

lemma leaps_succ (y : ℕ) : leaps (y + 1) = leaps y + if Leap (y + 1) then 1 else 0 := by
  simp only [leaps, Nat.succ_div, Nat.dvd_iff_mod_eq_zero]
  by_cases hl : Leap (y + 1) <;> simp only [hl, if_true, if_false] <;> unfold Leap at hl <;>
    split_ifs <;> omega

lemma years_eq (y : ℕ) : ∑ i ∈ Finset.Ico 1 (y + 1), yearDays i = 365 * y + leaps y := by
  induction y with
  | zero => rfl
  | succ y ih =>
    rw [Finset.sum_Ico_succ_top (by omega), ih, yearDays_eq, leaps_succ]
    split <;> omega

/-- The number of a day without sums. -/
lemma number_eq (y m d : ℕ) :
    number (y + 1) m d = 365 * y + leaps y + daysBefore (y + 1) m + (d - 1) := by
  rw [number, years_eq]

end Store.Calendar
