import LearnXv6.Store.Calendar
import LearnXv6.Store.Wrap

/-! The dates of the `date` program and of `cron`. -/
namespace LearnXv6.Clock
open Store Calendar

/-- `struct rtcdate` -/
structure Rtcdate where
  second : ℕ
  minute : ℕ
  hour : ℕ
  day : ℕ
  month : ℕ
  year : ℕ
  deriving DecidableEq, Repr

/-- The value of a `uint`. -/
def uint (x : ℤ) : ℤ := x % 2 ^ 32

namespace Rtcdate

variable (r : Rtcdate)

def getUnixTime : ℤ :=
  let y := uint (r.year - 1900)
  wrap (r.second + r.minute * 60 + r.hour * 3600 + r.day * 86400 +
    (y - 70) * 31536000 + (uint (y - 69) / 4) * 86400 -
    (uint (y - 1) / 100) * 86400 + (uint (y + 299) / 400) * 86400)

def getDaysNum : ℤ :=
  let m := uint (r.month + 9) % 12
  let y := uint (r.year - m / 10)
  let d : ℤ := r.day
  wrap (365 * y + y / 4 - y / 100 + y / 400 + uint (m * 306 + 5) / 10 + (d - 1))

/-- `_days` -/
def days : List String :=
  ["Wednesday", "Thursday", "Friday", "Saturday", "Sunday", "Monday", "Tuesday"]

/-- `_days[get_days_num() % 7]`, if that is inside of the array. -/
def getDayOfWeek : Option String :=
  let i := r.getDaysNum.tmod 7
  if 0 ≤ i then days[i.toNat]? else none

/-- A date and time of the calendar. -/
structure Valid : Prop where
  second : r.second < 60
  minute : r.minute < 60
  hour : r.hour < 24
  date : Calendar.Valid r.year r.month r.day

/-- The seconds from the start of the year 1. -/
def seconds : ℤ :=
  number r.year r.month r.day * 86400 + r.hour * 3600 + r.minute * 60 + r.second

def epoch : Rtcdate := ⟨0, 0, 0, 1, 1, 1970⟩

end Rtcdate

open Rtcdate

lemma uint_of_lt {x : ℤ} (h : 0 ≤ x) (h' : x < 2 ^ 32) : uint x = x := Int.emod_eq_of_lt h h'

def weekdays : List String :=
  ["Monday", "Tuesday", "Wednesday", "Thursday", "Friday", "Saturday", "Sunday"]

variable {r : Rtcdate}

/-- The March-based count of `get_days_num` starts 306 days before 1 January of the year 1. -/
lemma getDaysNum_eq (hv : Calendar.Valid r.year r.month r.day) (hy : 1 ≤ r.year)
    (hy' : r.year ≤ 9999) : r.getDaysNum = number r.year r.month r.day + 306 := by
  obtain ⟨⟨hm, hm'⟩, hd, hd'⟩ := hv
  obtain ⟨y, hry⟩ := Nat.exists_eq_add_of_le' hy
  have hlen := monthDays_le r.year r.month
  have hleaps := leaps_le y
  simp only [getDaysNum]
  by_cases hmar : r.month ≤ 2
  · have hmonth : uint (r.month + 9) % 12 = r.month + 9 := by
      rw [uint_of_lt (by omega) (by omega)]
      omega
    have hyear : uint (r.year - (r.month + 9) / 10) = y := by
      rw [uint_of_lt (by omega) (by omega)]
      omega
    rw [hmonth, hyear, leaps_cast, uint_of_lt (by omega) (by omega), wrap_of_lt (by omega) (by omega), hry,
      number_eq, daysBefore_eq hm (by omega), if_pos hmar]
    omega
  · have hsucc := leaps_succ y
    have hleaps' := leaps_le (y + 1)
    have hmonth : uint (r.month + 9) % 12 = r.month - 3 := by
      rw [uint_of_lt (by omega) (by omega)]
      omega
    have hyear : uint (r.year - (r.month - 3) / 10) = (y + 1 : ℕ) := by
      rw [uint_of_lt (by omega) (by omega)]
      omega
    rw [hmonth, hyear, leaps_cast, uint_of_lt (by omega) (by omega), wrap_of_lt (by omega) (by omega), hry,
      number_eq, daysBefore_eq hm (by omega), if_neg hmar]
    split_ifs at hsucc ⊢ <;> omega

/-- The name that `date -w` prints is the name of the day. -/
theorem weekday_printed (hv : Calendar.Valid r.year r.month r.day) (hy : 1 ≤ r.year)
    (hy' : r.year ≤ 9999) :
    ∃ name, r.getDayOfWeek = some name ∧ weekdays[weekday r.year r.month r.day]? = some name := by
  have hlt : weekday r.year r.month r.day < 7 := Nat.mod_lt _ (by omega)
  have hi : r.getDaysNum.tmod 7 = ((weekday r.year r.month r.day + 5) % 7 : ℕ) := by
    rw [getDaysNum_eq hv hy hy', Int.tmod_eq_emod_of_nonneg (by omega)]
    unfold weekday
    omega
  unfold getDayOfWeek
  rw [hi]
  generalize weekday r.year r.month r.day = w at hlt ⊢
  interval_cases w <;> exact ⟨_, rfl, rfl⟩

lemma epoch_number : number 1970 1 1 = 719162 := by
  rw [number_eq]
  rfl

theorem epoch_printed :
    ∃ name, epoch.getDayOfWeek = some name ∧ weekdays[weekday 1970 1 1]? = some name :=
  weekday_printed (r := epoch) ⟨by decide, by decide⟩ (by decide) (by decide)

/-- The formula has no term for the months, and counts the first day of each as a whole one. -/
theorem unix_time_off (hv : r.Valid) (hy : 1970 ≤ r.year) (hy' : r.year ≤ 2037) :
    r.getUnixTime = r.seconds - epoch.seconds + 86400 * (1 - daysBefore r.year r.month) ∧
      r.getUnixTime ≠ r.seconds - epoch.seconds := by
  obtain ⟨hs, hmin, hh, ⟨hm, hm'⟩, hd, hd'⟩ := hv
  have hlen := monthDays_le r.year r.month
  have hne : daysBefore r.year r.month ≠ 1 := by
    rw [daysBefore_eq hm (by omega)]
    split_ifs <;> omega
  obtain ⟨y, hry⟩ := Nat.exists_eq_add_of_le' (show 1 ≤ r.year by omega)
  have hleaps : (leaps y : ℤ) = 477 + ((y : ℤ) - 1968) / 4 := by
    unfold leaps
    omega
  have heq : r.getUnixTime = r.seconds - epoch.seconds +
      86400 * (1 - daysBefore r.year r.month) := by
    have hyear : uint (r.year - 1900) = y - 1899 := by
      rw [uint_of_lt (by omega) (by omega)]
      omega
    have hcentury : ((y : ℤ) - 1899 - 1) / 100 = (y - 1899 + 299) / 400 := by omega
    simp only [getUnixTime, seconds, epoch, hyear, epoch_number]
    rw [uint_of_lt (by omega) (by omega), uint_of_lt (by omega) (by omega),
      uint_of_lt (by omega) (by omega), hcentury, sub_add_cancel, wrap_of_lt (by omega) (by omega),
      hry, number_eq]
    omega
  exact ⟨heq, by omega⟩

lemma epoch_valid : epoch.Valid := ⟨by decide, by decide, by decide, by decide, by decide⟩

theorem epoch_unix_time :
    epoch.getUnixTime ≠ epoch.seconds - epoch.seconds :=
  (unix_time_off epoch_valid (by decide) (by decide)).2

/-- On 1 February 1970 the clock of `date -u` is 30 days behind that of the day before. -/
theorem unix_time_decreases :
    let january := { epoch with day := 31 }
    let february := { epoch with month := 2 }
    january.Valid ∧ february.Valid ∧ february.getUnixTime = january.getUnixTime - 30 * 86400 ∧
      epoch.getUnixTime = 86400 := by
  refine ⟨⟨by decide, by decide, by decide, by decide, by decide⟩,
    ⟨by decide, by decide, by decide, by decide, by decide⟩, by decide, by decide⟩

/-! The day of the week in `cron.c`. -/

/-- `y/4-y/100+y/400` -/
def leapTerms (y : ℤ) : ℤ := y.tdiv 4 - y.tdiv 100 + y.tdiv 400

def dayofweek (y m d : ℤ) : ℤ :=
  let d := d + m
  let y := if d < 3 then y - 1 else y - 2
  ((23 * m).tdiv 9 + d + 4 + leapTerms y).tmod 7

/-- `struct command` without the command; `99` stands for `*`. -/
structure Command where
  hour : ℤ
  minute : ℤ
  dom : ℤ
  month : ℤ
  dow : ℤ

/-- The test of the matching loop. -/
def Command.Due (c : Command) (rtc : Rtcdate) : Prop :=
  (c.hour = 99 ∨ c.hour = rtc.hour) ∧ (c.minute = 99 ∨ c.minute = rtc.minute) ∧
    (c.dom = 99 ∨ c.dom = rtc.day) ∧ (c.month = 99 ∨ c.month = rtc.month) ∧
    (c.dow = 99 ∨ c.dow = dayofweek rtc.year rtc.month rtc.day)

/-- An entry for every minute of a day of the week. The parser takes the digits from 1 to 7. -/
def onDow (dow : ℤ) : Command := ⟨99, 99, 99, 99, dow⟩

/-- One day in a leap year. There is no year 0. -/
def leapDay (y : ℕ) : ℤ := if 0 < y ∧ Leap y then 1 else 0

/-- The month that `dayofweek` adds is to be this number, up to weeks: the year, with the leap days by which
the years of the two formulas differ. -/
def rightMonth (y m d : ℕ) : ℤ :=
  if m = 1 ∧ d = 1 then y
  else if m < 3 then y + leapDay (y - 1)
  else y - 2 + leapDay y + leapDay (y - 1)

lemma leapTerms_eq {y : ℤ} (hy : 0 ≤ y) : leapTerms y = y / 4 - y / 100 + y / 400 := by
  unfold leapTerms
  rw [Int.tdiv_eq_ediv_of_nonneg hy, Int.tdiv_eq_ediv_of_nonneg hy, Int.tdiv_eq_ediv_of_nonneg hy]

lemma leapTerms_nonneg {y : ℤ} (hy : -1 ≤ y) : 0 ≤ leapTerms y := by
  rcases hy.eq_or_lt with rfl | hy
  · decide
  · rw [leapTerms_eq (by omega)]
    omega

lemma leapTerms_cast (y : ℕ) : leapTerms y = leaps y := by
  rw [leapTerms_eq (by omega), leaps]
  omega

lemma leapTerms_pred (y : ℕ) : leapTerms y = leapTerms (y - 1) + leapDay y := by
  cases y with
  | zero => decide
  | succ y =>
    have hpred : ((y + 1 : ℕ) : ℤ) - 1 = y := by omega
    rw [hpred, leapTerms_cast, leapTerms_cast, leaps_succ, leapDay]
    simp

variable {y m d : ℕ}

/-- The day of the week by the formula that `dayofweek` is meant to be. -/
lemma weekday_eq (hy : 1 ≤ y) (hv : Calendar.Valid y m d) : ((weekday y m d : ℤ) + 1) % 7 =
    (23 * m / 9 + d + 4 + if (m : ℤ) < 3 then y + leapTerms (y - 1) else y - 2 + leapTerms y) % 7 := by
  obtain ⟨⟨hm, hm'⟩, hd, -⟩ := hv
  obtain ⟨y, rfl⟩ := Nat.exists_eq_add_of_le' hy
  have hsucc := leaps_succ y
  have hpred : ((y + 1 : ℕ) : ℤ) - 1 = y := by omega
  rw [weekday, number_eq, daysBefore_eq hm (by omega), hpred, leapTerms_cast, leapTerms_cast]
  interval_cases m <;> simp at hsucc ⊢ <;> split_ifs at hsucc ⊢ <;> omega

lemma dayofweek_eq (hy : 1 ≤ y) (hv : Calendar.Valid y m d) :
    dayofweek y m d = ((weekday y m d : ℤ) + 1 + (m - rightMonth y m d)) % 7 := by
  have hw := weekday_eq hy hv
  have hd := hv.day.1
  have hm := hv.month.1
  have hthis := leapTerms_pred y
  have hlast := leapTerms_pred (y - 1)
  rw [Nat.cast_sub hy, Nat.cast_one, sub_sub, one_add_one_eq_two] at hlast
  simp only [dayofweek, rightMonth]
  generalize hz : (if (d + m : ℤ) < 3 then (y - 1 : ℤ) else y - 2) = z
  have hz0 : 0 ≤ leapTerms z := leapTerms_nonneg (by split_ifs at hz <;> omega)
  rw [Int.tdiv_eq_ediv_of_nonneg (by omega), Int.tmod_eq_emod_of_nonneg (by omega)]
  split_ifs at hz hw ⊢ <;> subst hz <;> omega

/-- With the numbers from 1 for Monday to 7 for Sunday, the entries of the seven days are right on the days
that are no Sundays in the months that fit the year. -/
theorem dow_right_iff {r : Rtcdate} (hy : 1 ≤ r.year) (hv : Calendar.Valid r.year r.month r.day) :
    (∀ dow, 1 ≤ dow → dow ≤ 7 → ((onDow dow).Due r ↔ dow = weekday r.year r.month r.day + 1)) ↔
      weekday r.year r.month r.day ≠ 6 ∧ 7 ∣ (r.month : ℤ) - rightMonth r.year r.month r.day := by
  have hlt : weekday r.year r.month r.day < 7 := Nat.mod_lt _ (by omega)
  have hdue : ∀ dow, 1 ≤ dow → dow ≤ 7 →
      ((onDow dow).Due r ↔ dow = dayofweek r.year r.month r.day) := by
    intro dow h1 h7
    have : dow ≠ 99 := by omega
    simp [Command.Due, onDow, this]
  rw [dayofweek_eq hy hv] at hdue
  constructor
  · intro h
    have hself := (hdue _ (by omega) (by omega)).mp
      ((h (weekday r.year r.month r.day + 1) (by omega) (by omega)).mpr rfl)
    omega
  · rintro ⟨hsun, hmonth⟩ dow h1 h7
    rw [hdue dow h1 h7]
    omega

lemma may_weekday : weekday 2023 5 2 = 1 := by
  rw [weekday, number_eq]
  rfl

theorem may_right : (onDow 2).Due ⟨0, 0, 0, 2, 5, 2023⟩ := by
  have h := (dow_right_iff (r := ⟨0, 0, 0, 2, 5, 2023⟩) (by decide) ⟨by decide, by decide⟩).mpr
    ⟨by rw [may_weekday]; decide, by decide⟩
  rw [may_weekday] at h
  exact (h 2 (by decide) (by decide)).mpr rfl

/-- Whatever numbers the days of the week have, some date gets another: 2 January and 6 February 2023
are Mondays. -/
theorem no_number_fits : ¬ ∃ number : ℕ → ℤ, ∀ y m d, 1 ≤ y → y ≤ 9999 → Calendar.Valid y m d →
    dayofweek y m d = number (weekday y m d) := by
  rintro ⟨number, h⟩
  have hjan := h 2023 1 2 (by decide) (by decide) ⟨by decide, by decide⟩
  have hfeb := h 2023 2 6 (by decide) (by decide) ⟨by decide, by decide⟩
  have hweek : weekday 2023 1 2 = weekday 2023 2 6 := by
    rw [weekday, weekday, number_eq, number_eq]
    rfl
  rw [hweek, ← hfeb] at hjan
  revert hjan
  decide

end LearnXv6.Clock
