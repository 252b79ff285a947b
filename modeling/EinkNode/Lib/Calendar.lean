import Mathlib.Data.Int.ConditionallyCompleteOrder
import Mathlib.Data.Prod.Lex
import Mathlib.Order.Hom.Set
import Mathlib.Tactic.IntervalCases
/-!
# The Gregorian calendar

The calendar of twelve months with its leap years, carried on in both
directions without end. A date carries the proof that its month and day exist.
Counting the days from a fixed one numbers the dates: each date has the number
after that of the day before, so that the count is an order isomorphism between
the dates and the integers.
-/

namespace NodeLib.Calendar

/-! ## Years and months -/

def IsLeap (year : Int) : Prop := year % 4 = 0 ∧ (year % 100 ≠ 0 ∨ year % 400 = 0)

instance : DecidablePred IsLeap := fun _ => inferInstanceAs (Decidable (_ ∧ _))

def yearLength (year : Int) : Int := if IsLeap year then 366 else 365

def monthLength (year month : Int) : Int :=
  if month = 2 then if IsLeap year then 29 else 28
  else if month = 4 ∨ month = 6 ∨ month = 9 ∨ month = 11 then 30
  else 31

/-- The days from the first of January of the year 1 to that of `year`. -/
def daysBeforeYear (year : Int) : Int := 365 * (year - 1) + (year - 1) / 4 - (year - 1) / 100 + (year - 1) / 400

/-- The days of the first months of a year. -/
def daysOfMonths (year : Int) : Nat → Int
  | 0 => 0
  | n + 1 => daysOfMonths year n + monthLength year (n + 1)

def daysBeforeMonth (year month : Int) : Int := daysOfMonths year (month - 1).toNat

theorem monthLength_le (year month : Int) : monthLength year month ≤ 31 := by
  unfold monthLength
  repeat' split
  all_goals decide

theorem monthLength_pos (year month : Int) : 0 < monthLength year month := by
  unfold monthLength
  repeat' split
  all_goals decide

theorem monthLength_february (year : Int) : monthLength year 2 = if IsLeap year then 29 else 28 := rfl

@[simp] theorem monthLength_december (year : Int) : monthLength year 12 = 31 := rfl

theorem daysBeforeYear_succ (year : Int) : daysBeforeYear (year + 1) = daysBeforeYear year + yearLength year := by
  unfold daysBeforeYear yearLength
  by_cases hleap : IsLeap year
  · rw [if_pos hleap]
    unfold IsLeap at hleap
    omega
  · rw [if_neg hleap]
    unfold IsLeap at hleap
    omega

@[simp] theorem daysBeforeMonth_one (year : Int) : daysBeforeMonth year 1 = 0 := rfl

theorem daysBeforeMonth_succ (year : Int) {month : Int} (h : 1 ≤ month) :
    daysBeforeMonth year (month + 1) = daysBeforeMonth year month + monthLength year month := by
  have hsucc : (month + 1 - 1).toNat = (month - 1).toNat + 1 := by omega
  have hlast : ((month - 1).toNat : Int) + 1 = month := by omega
  rw [daysBeforeMonth, daysBeforeMonth, hsucc, daysOfMonths, hlast]

/-- From March on the months begin on a line of slope 153 / 5. -/
theorem daysBeforeMonth_eq (year : Int) {month : Int} (h : 1 ≤ month) (h' : month ≤ 13) :
    daysBeforeMonth year month =
      if month ≤ 2 then 31 * (month - 1)
      else (153 * (month - 3) + 2) / 5 + 59 + if IsLeap year then 1 else 0 := by
  induction month, h using Int.leInduction with
  | base => simp
  | succ month h ih =>
    rw [daysBeforeMonth_succ year h, ih (by omega), monthLength]
    have hmonth : month ≤ 12 := by omega
    clear ih h'
    -- The line is exact only month by month: its rounding is no linear arithmetic.
    by_cases hleap : IsLeap year
    · simp only [hleap, if_true]
      interval_cases month <;> rfl
    · simp only [hleap, if_false]
      interval_cases month <;> rfl

/-- The length of a month on that line: every month but February fills its step. -/
theorem monthLength_march (year : Int) {month m : Int} (hmonth : 1 ≤ month ∧ month ≤ 12) (hfeb : month ≠ 2)
    (hm : m = month + if month > 2 then -3 else 9) :
    monthLength year month = (153 * (m + 1) + 2) / 5 - (153 * m + 2) / 5 := by
  by_cases hmarch : month > 2
  · have hsucc := daysBeforeMonth_succ year hmonth.1
    rw [daysBeforeMonth_eq year hmonth.1 (by omega), daysBeforeMonth_eq year (by omega) (by omega),
      if_neg (show ¬ month + 1 ≤ 2 by omega), if_neg (show ¬ month ≤ 2 by omega)] at hsucc
    rw [if_pos hmarch] at hm
    rw [show m + 1 = month + 1 - 3 by omega, show m = month - 3 by omega]
    omega
  · obtain rfl : month = 1 := by omega
    obtain rfl : m = 10 := hm
    rfl

theorem daysBeforeMonth_mono (year : Int) {m n : Int} (hm : 1 ≤ m) (h : m < n) :
    daysBeforeMonth year m + monthLength year m ≤ daysBeforeMonth year n := by
  induction n, (show m + 1 ≤ n from h) using Int.leInduction with
  | base => rw [daysBeforeMonth_succ year hm]
  | succ n hn ih =>
    have hpos := monthLength_pos year n
    rw [daysBeforeMonth_succ year (show 1 ≤ n by omega)]
    have := ih (by omega)
    omega

theorem daysBeforeMonth_nonneg (year : Int) {month : Int} (h : 1 ≤ month) : 0 ≤ daysBeforeMonth year month := by
  induction month, h using Int.leInduction with
  | base => exact Int.le_refl 0
  | succ month h ih =>
    have hpos := monthLength_pos year month
    rw [daysBeforeMonth_succ year h]
    omega

/-- December ends the year. -/
theorem daysBeforeMonth_year (year : Int) : daysBeforeMonth year 12 + monthLength year 12 = yearLength year := by
  rw [daysBeforeMonth_eq year (by decide) (by decide), if_neg (by decide), yearLength,
    monthLength_december]
  split <;> rfl

theorem daysBeforeYear_mono {y z : Int} (h : y < z) : daysBeforeYear y + yearLength y ≤ daysBeforeYear z := by
  rw [← daysBeforeYear_succ]
  unfold daysBeforeYear
  omega

/-- Every 400 years the calendar repeats itself. -/
theorem daysBeforeYear_era (y : Int) :
    daysBeforeYear (y + 1) = y / 400 * 146097 + (y % 400 * 365 + y % 400 / 4 - y % 400 / 100) := by
  unfold daysBeforeYear
  omega

theorem isLeap_era (year era : Int) : IsLeap (year + era * 400) ↔ IsLeap year := by
  unfold IsLeap
  omega

/-! ## Dates -/

@[ext] structure Date where
  year : Int
  month : Int
  day : Int
  month_range : 1 ≤ month ∧ month ≤ 12
  day_range : 1 ≤ day ∧ day ≤ monthLength year month
deriving DecidableEq

namespace Date

/-- By year, then month, then day. -/
def key (d : Date) : Int ×ₗ Int ×ₗ Int := toLex (d.year, toLex (d.month, d.day))

theorem key_injective : Function.Injective key := by
  intro d e h
  have h' : (d.year, (d.month, d.day)) = (e.year, (e.month, e.day)) := h
  simp only [Prod.mk.injEq] at h'
  exact Date.ext h'.1 h'.2.1 h'.2.2

instance : LinearOrder Date := LinearOrder.lift' key key_injective

theorem lt_iff {d e : Date} : d < e ↔
    d.year < e.year ∨ d.year = e.year ∧ (d.month < e.month ∨ d.month = e.month ∧ d.day < e.day) := by
  have h : d < e ↔ key d < key e := Iff.rfl
  rw [h, key, key, Prod.Lex.toLex_lt_toLex, Prod.Lex.toLex_lt_toLex]

/-- The first of January 1970. -/
def epoch : Date := ⟨1970, 1, 1, by decide, by decide⟩

/-- The days since the epoch. -/
def number (d : Date) : Int :=
  daysBeforeYear d.year + daysBeforeMonth d.year d.month + (d.day - 1) - daysBeforeYear 1970

theorem number_epoch : number epoch = 0 := by
  simp [number, epoch]

/-- The number of a date by the era, the year of the era and the day of the year, where the years begin
in March: the leap day is the last of its year. -/
theorem number_march (d : Date) {y m : Int} (hy : y = if d.month ≤ 2 then d.year - 1 else d.year)
    (hm : m = d.month + if d.month > 2 then -3 else 9) :
    d.number = y / 400 * 146097 + (y % 400 * 365 + y % 400 / 4 - y % 400 / 100 + ((153 * m + 2) / 5 + d.day - 1)) -
      719468 := by
  obtain ⟨hm0, hm1⟩ := d.month_range
  have hera := daysBeforeYear_era y
  have hepoch : daysBeforeYear 1970 = 719162 := rfl
  rw [number, hepoch, daysBeforeMonth_eq d.year hm0 (by omega)]
  by_cases hmarch : d.month ≤ 2
  · rw [if_pos hmarch] at hy ⊢
    rw [if_neg (by omega)] at hm
    rw [show d.year = y + 1 by omega]
    omega
  · have hleap : yearLength d.year = 365 + if IsLeap d.year then 1 else 0 := by
      unfold yearLength
      split <;> rfl
    have hyear := daysBeforeYear_succ d.year
    rw [if_neg hmarch] at hy ⊢
    rw [if_pos (by omega)] at hm
    rw [hy] at hera
    rw [hy, show d.month - 3 = m by omega]
    omega

/-! ### The days before and after -/

def tomorrow (d : Date) : Date :=
  if h : d.day < monthLength d.year d.month then
    ⟨d.year, d.month, d.day + 1, d.month_range, by have := d.day_range; omega⟩
  else if hm : d.month < 12 then
    ⟨d.year, d.month + 1, 1, by have := d.month_range; omega, by have := monthLength_pos d.year (d.month + 1); omega⟩
  else ⟨d.year + 1, 1, 1, by decide, by have := monthLength_pos (d.year + 1) 1; omega⟩

def yesterday (d : Date) : Date :=
  if h : 1 < d.day then ⟨d.year, d.month, d.day - 1, d.month_range, by have := d.day_range; omega⟩
  else if hm : 1 < d.month then
    ⟨d.year, d.month - 1, monthLength d.year (d.month - 1), by have := d.month_range; omega,
      by have := monthLength_pos d.year (d.month - 1); omega⟩
  else ⟨d.year - 1, 12, 31, by decide, by rw [monthLength_december]; decide⟩

/-- The count goes up by one from day to day. -/
theorem number_tomorrow (d : Date) : number (tomorrow d) = number d + 1 := by
  obtain ⟨hd0, hd1⟩ := d.day_range
  obtain ⟨hm0, hm1⟩ := d.month_range
  unfold tomorrow
  split
  · simp only [number]
    omega
  · next hlast =>
    split
    · simp only [number, daysBeforeMonth_succ d.year hm0]
      omega
    · have hmonth : d.month = 12 := by omega
      have hyear := daysBeforeMonth_year d.year
      rw [hmonth] at hlast hd1
      simp only [number, daysBeforeYear_succ, daysBeforeMonth_one, hmonth]
      omega

theorem number_yesterday (d : Date) : number (yesterday d) = number d - 1 := by
  obtain ⟨hd0, hd1⟩ := d.day_range
  obtain ⟨hm0, hm1⟩ := d.month_range
  unfold yesterday
  split
  · simp only [number]
    omega
  · split
    · have hmonth := daysBeforeMonth_succ d.year (show 1 ≤ d.month - 1 by omega)
      rw [Int.sub_add_cancel] at hmonth
      simp only [number]
      omega
    · have hmonth : d.month = 1 := by omega
      have hyear := daysBeforeYear_succ (d.year - 1)
      have hlength := daysBeforeMonth_year (d.year - 1)
      rw [Int.sub_add_cancel] at hyear
      rw [monthLength_december] at hlength
      simp only [number, hmonth, daysBeforeMonth_one]
      omega

/-! ### The count as an isomorphism -/

/-- A date lies in its year: its month does, and it lies in its month. -/
theorem number_year (d : Date) : daysBeforeYear d.year - daysBeforeYear 1970 ≤ number d ∧
    number d < daysBeforeYear (d.year + 1) - daysBeforeYear 1970 := by
  obtain ⟨hd0, hd1⟩ := d.day_range
  obtain ⟨hm0, hm1⟩ := d.month_range
  have hyear := daysBeforeMonth_year d.year
  have hbefore := daysBeforeMonth_nonneg d.year hm0
  rw [daysBeforeYear_succ, number]
  rcases Int.lt_or_eq_of_le hm1 with hm | hm
  · have hmonth := daysBeforeMonth_mono d.year hm0 hm
    have hpos := monthLength_pos d.year 12
    omega
  · rw [hm] at hd1 hbefore ⊢
    omega

theorem number_strictMono : StrictMono number := by
  intro d e h
  obtain ⟨hd0, hd1⟩ := d.day_range
  obtain ⟨he0, he1⟩ := e.day_range
  rcases lt_iff.1 h with hy | ⟨hy, hm | ⟨hm, hday⟩⟩
  · have hyear := daysBeforeYear_mono hy
    have hd := (number_year d).2
    have he := (number_year e).1
    rw [daysBeforeYear_succ] at hd
    omega
  · have hmonth := daysBeforeMonth_mono d.year d.month_range.1 hm
    unfold number
    rw [← hy]
    omega
  · unfold number
    rw [← hy, ← hm]
    omega

theorem number_surjective : Function.Surjective number := by
  intro n
  induction n using Int.induction_on with
  | zero => exact ⟨epoch, number_epoch⟩
  | succ n ih =>
    obtain ⟨d, hd⟩ := ih
    exact ⟨tomorrow d, by rw [number_tomorrow, hd]⟩
  | pred n ih =>
    obtain ⟨d, hd⟩ := ih
    exact ⟨yesterday d, by rw [number_yesterday, hd]⟩

/-- The dates in their order are the integers in theirs. -/
noncomputable def numberIso : Date ≃o Int := number_strictMono.orderIsoOfSurjective number number_surjective

end Date

end NodeLib.Calendar
