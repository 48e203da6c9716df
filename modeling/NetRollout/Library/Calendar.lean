import Mathlib.Algebra.Order.Ring.Int
import Mathlib.Data.Nat.Init
import Mathlib.Data.Nat.Cast.Basic
import NetRollout.Library.PyText

/-!
# The calendar

The proleptic Gregorian calendar of Python's `datetime`: a date with the number of its day
(`toordinal()`), a time of a day with the microseconds since the calendar's start, and the text
of a time to the second as `strftime("%Y%m%d-%H%M%S")` writes it and `strptime` reads it.

A later time has the later text (`stamp_lt_stamp`), since each number is written to its own width,
and a text that a time was written as is read as this time (`strptime_stamp`).
-/

namespace NetRollout
namespace Calendar

open PyText (Str Decimals)

/-! ## Days -/

def isLeap (year : Nat) : Bool := year % 4 = 0 && (year % 100 ≠ 0 || year % 400 = 0)

def daysInMonth (leap : Bool) (month : Nat) : Nat :=
  if month = 2 then (if leap then 29 else 28)
  else if month = 4 ∨ month = 6 ∨ month = 9 ∨ month = 11 then 30
  else 31

theorem daysInMonth_le (leap : Bool) (month : Nat) : daysInMonth leap month ≤ 31 := by
  unfold daysInMonth
  split_ifs <;> omega

/-- The days of the year before a month, the first being 1. -/
def daysBeforeMonth (leap : Bool) : Nat → Nat
  | 0 => 0
  | 1 => 0
  | month + 2 => daysBeforeMonth leap (month + 1) + daysInMonth leap (month + 1)

/-- The days before a year, the first being 1. -/
def daysBeforeYear (year : Nat) : Nat :=
  (year - 1) * 365 + (year - 1) / 4 - (year - 1) / 100 + (year - 1) / 400

structure Date where
  year : Nat
  month : Nat
  day : Nat
  year_pos : 1 ≤ year
  year_le : year ≤ 9999
  month_pos : 1 ≤ month
  month_le : month ≤ 12
  day_pos : 1 ≤ day
  day_le : day ≤ daysInMonth (isLeap year) month
  deriving DecidableEq

/-- `toordinal()`. -/
def Date.toOrdinal (d : Date) : Nat :=
  daysBeforeYear d.year + daysBeforeMonth (isLeap d.year) d.month + d.day

/-- `weekday()`, Monday being 0. -/
def Date.weekday (d : Date) : Nat := (d.toOrdinal + 6) % 7

theorem daysBeforeYear_succ {year : Nat} (h : 1 ≤ year) :
    daysBeforeYear (year + 1) = daysBeforeYear year + if isLeap year then 366 else 365 := by
  obtain ⟨n, rfl⟩ := Nat.exists_eq_add_of_le' h
  have h4 : (n + 1) / 4 = n / 4 + if (n + 1) % 4 = 0 then 1 else 0 := by
    split <;> omega
  have h100 : (n + 1) / 100 = n / 100 + if (n + 1) % 100 = 0 then 1 else 0 := by
    split <;> omega
  have h400 : (n + 1) / 400 = n / 400 + if (n + 1) % 400 = 0 then 1 else 0 := by
    split <;> omega
  have hle : n / 100 ≤ n * 365 := by omega
  have hcentury : (n + 1) % 100 = 0 → (n + 1) % 4 = 0 := by omega
  have hfourth : (n + 1) % 400 = 0 → (n + 1) % 100 = 0 := by omega
  simp only [daysBeforeYear, isLeap, Nat.add_sub_cancel, h4, h100, h400, Bool.and_eq_true,
    Bool.or_eq_true, decide_eq_true_eq]
  clear h4 h100 h400
  generalize n / 4 = a, n / 100 = b, n / 400 = c, (n + 1) % 4 = r, (n + 1) % 100 = s,
    (n + 1) % 400 = t at *
  split_ifs <;> omega

theorem daysBeforeYear_le {year later : Nat} (hpos : 1 ≤ year) (h : year ≤ later) :
    daysBeforeYear year ≤ daysBeforeYear later := by
  induction later, h using Nat.le_induction with
  | base => exact Nat.le_refl _
  | succ k hk ih =>
    rw [daysBeforeYear_succ (hpos.trans hk)]
    exact ih.trans (Nat.le_add_right _ _)

/-- A month ends before the next begins. -/
theorem daysBeforeMonth_add_le (leap : Bool) {month later : Nat} (hpos : 1 ≤ month)
    (h : month < later) :
    daysBeforeMonth leap month + daysInMonth leap month ≤ daysBeforeMonth leap later := by
  obtain ⟨n, rfl⟩ := Nat.exists_eq_add_of_le' hpos
  induction later, h using Nat.le_induction with
  | base => exact Nat.le_refl _
  | succ k hk ih =>
    obtain ⟨m, rfl⟩ : ∃ m, k = m + 1 := ⟨k - 1, by omega⟩
    exact ih.trans (Nat.le_add_right _ _)

/-- A day of a year. -/
theorem daysBeforeMonth_le (leap : Bool) {month : Nat} (hpos : 1 ≤ month) (h : month ≤ 12) :
    daysBeforeMonth leap month + daysInMonth leap month ≤ if leap then 366 else 365 := by
  have hend := daysBeforeMonth_add_le leap hpos (show month < 13 by omega)
  cases leap <;> exact hend

/-- The days are numbered in the calendar's order. -/
theorem Date.toOrdinal_lt {d e : Date} (h : d.year < e.year ∨ d.year = e.year ∧
    (d.month < e.month ∨ d.month = e.month ∧ d.day < e.day)) : d.toOrdinal < e.toOrdinal := by
  simp only [toOrdinal]
  have hday := d.day_le
  have hpos := e.day_pos
  rcases h with h | ⟨hyear, hmonth | ⟨hmonth, h⟩⟩
  · have hmonth := daysBeforeMonth_le (isLeap d.year) d.month_pos d.month_le
    have hnext := daysBeforeYear_succ d.year_pos
    have hle : daysBeforeYear (d.year + 1) ≤ daysBeforeYear e.year :=
      daysBeforeYear_le (Nat.succ_pos d.year) h
    omega
  · have hle := daysBeforeMonth_add_le (isLeap d.year) d.month_pos hmonth
    rw [← hyear]
    omega
  · rw [← hyear, ← hmonth]
    omega

/-! ## Times -/

structure Datetime where
  date : Date
  hour : Nat
  minute : Nat
  second : Nat
  microsecond : Nat
  hour_lt : hour < 24
  minute_lt : minute < 60
  second_lt : second < 60
  microsecond_lt : microsecond < 1000000
  deriving DecidableEq

/-- A second, an hour and a day, in microseconds. -/
def SECOND : Int := 1000000

def HOUR : Int := 3600 * SECOND

def DAY : Int := 24 * HOUR

namespace Datetime

variable (t u : Datetime)

/-- The seconds since the calendar's start. -/
def seconds : Nat := ((t.date.toOrdinal * 24 + t.hour) * 60 + t.minute) * 60 + t.second

/-- The moment: the microseconds since the calendar's start. -/
def moment : Int := (t.seconds : Int) * SECOND + t.microsecond

/-- `replace(hour=…, minute=…, second=0, microsecond=0)`. -/
def replace (hour minute : Nat) (hhour : hour < 24) (hminute : minute < 60) : Datetime :=
  ⟨t.date, hour, minute, 0, 0, hhour, hminute, by decide, by decide⟩

/-- To the second. -/
def whole : Datetime := { t with microsecond := 0, microsecond_lt := by decide }

/-- Before, field by field, to the second. -/
def Before : Prop :=
  t.date.year < u.date.year ∨ t.date.year = u.date.year ∧
  (t.date.month < u.date.month ∨ t.date.month = u.date.month ∧
  (t.date.day < u.date.day ∨ t.date.day = u.date.day ∧
  (t.hour < u.hour ∨ t.hour = u.hour ∧
  (t.minute < u.minute ∨ t.minute = u.minute ∧ t.second < u.second))))

variable {t u}

theorem seconds_lt_of_before (h : t.Before u) : t.seconds < u.seconds := by
  have hday (h : t.date.toOrdinal < u.date.toOrdinal) : t.seconds < u.seconds := by
    have hhour := t.hour_lt
    have hminute := t.minute_lt
    have hsecond := t.second_lt
    simp only [seconds]
    omega
  rcases h with h | ⟨hyear, h | ⟨hmonth, h | ⟨hdate, h⟩⟩⟩
  · exact hday (Date.toOrdinal_lt (.inl h))
  · exact hday (Date.toOrdinal_lt (.inr ⟨hyear, .inl h⟩))
  · exact hday (Date.toOrdinal_lt (.inr ⟨hyear, .inr ⟨hmonth, h⟩⟩))
  · have hsame : t.date.toOrdinal = u.date.toOrdinal := by
      simp only [Date.toOrdinal, hyear, hmonth, hdate]
    have hminute := t.minute_lt
    have hsecond := t.second_lt
    simp only [seconds, hsame]
    omega

theorem before_of_seconds_lt (h : t.seconds < u.seconds) : t.Before u := by
  by_contra hnot
  have hcases : u.Before t ∨ t.seconds = u.seconds := by
    simp only [Before] at hnot ⊢
    by_cases hsame : t.date.year = u.date.year ∧ t.date.month = u.date.month ∧
        t.date.day = u.date.day ∧ t.hour = u.hour ∧ t.minute = u.minute ∧ t.second = u.second
    · obtain ⟨hyear, hmonth, hday, hhour, hminute, hsecond⟩ := hsame
      right
      simp only [seconds, Date.toOrdinal, hyear, hmonth, hday, hhour, hminute, hsecond]
    · left
      omega
  rcases hcases with hbefore | heq
  · have hlt := seconds_lt_of_before hbefore
    omega
  · omega

theorem moment_whole : t.whole.moment = (t.seconds : Int) * SECOND := by
  simp only [moment, whole, seconds, Nat.cast_zero, add_zero]

end Datetime

/-! ## Texts -/

/-- A digit. -/
def digit (n : Nat) : Char := Char.ofNat (48 + n)

/-- A number to a width, with zeros. -/
def padded : Nat → Nat → Str
  | 0, _ => []
  | width + 1, n => padded width (n / 10) ++ [digit (n % 10)]

theorem length_padded (width n : Nat) : (padded width n).length = width := by
  induction width generalizing n with
  | zero => rfl
  | succ width ih => rw [padded, List.length_append, ih, List.length_singleton]

theorem isDigit_digit : ∀ n < 10, (digit n).isDigit = true ∧ (digit n).toNat - '0'.toNat = n := by
  decide

theorem digit_lt_digit : ∀ n < 10, ∀ m < n, digit m < digit n := by decide

/-- Texts of one length are in the order of their first parts. -/
theorem append_lt_append {s t : Str} (hlength : s.length = t.length) (h : s < t) (u v : Str) :
    s ++ u < t ++ v := by
  induction s generalizing t with
  | nil =>
    obtain rfl := List.length_eq_zero_iff.mp hlength.symm
    exact absurd h (List.lt_irrefl [])
  | cons c s ih =>
    cases t with
    | nil => cases hlength
    | cons d t =>
      rw [List.cons_append, List.cons_append, List.cons_lt_cons_iff]
      rcases List.cons_lt_cons_iff.mp h with hlt | ⟨rfl, hlt⟩
      · exact .inl hlt
      · exact .inr ⟨rfl, ih (Nat.succ.inj hlength) hlt⟩

theorem padded_lt_padded {width n m : Nat} (hlt : m < n) (h : n < 10 ^ width) :
    padded width m < padded width n := by
  induction width generalizing n m with
  | zero => omega
  | succ width ih =>
    rw [padded, padded]
    have hpow : 10 ^ (width + 1) = 10 ^ width * 10 := pow_succ 10 width
    by_cases htens : m / 10 = n / 10
    · rw [htens]
      refine List.append_left_lt (List.cons_lt_cons_iff.mpr (.inl ?_))
      exact digit_lt_digit _ (Nat.mod_lt _ (by decide)) _ (by omega)
    · refine append_lt_append ?_ (ih (by omega) (by omega)) _ _
      rw [length_padded, length_padded]

/-- `strftime("%Y%m%d-%H%M%S")`. -/
def Datetime.stamp (t : Datetime) : Str :=
  padded 4 t.date.year ++ (padded 2 t.date.month ++ (padded 2 t.date.day ++
    ('-' :: (padded 2 t.hour ++ (padded 2 t.minute ++ padded 2 t.second)))))

/-- A later time has the later text. -/
theorem stamp_lt_stamp {t u : Datetime} (h : t.Before u) : t.stamp < u.stamp := by
  have hdate := u.date.month_le
  have hday := u.date.day_le.trans (daysInMonth_le _ _)
  have hyear := u.date.year_le
  have hhour := u.hour_lt
  have hminute := u.minute_lt
  have hsecond := u.second_lt
  have hcmp {width n m : Nat} (hlt : m < n) (h : n < 10 ^ width) (s t : Str) :
      padded width m ++ s < padded width n ++ t :=
    append_lt_append (by rw [length_padded, length_padded]) (padded_lt_padded hlt h) s t
  unfold Datetime.stamp
  rcases h with h | ⟨heq, h⟩
  · exact hcmp h (by omega) _ _
  rw [heq]
  refine List.append_left_lt ?_
  rcases h with h | ⟨heq, h⟩
  · exact hcmp h (by omega) _ _
  rw [heq]
  refine List.append_left_lt ?_
  rcases h with h | ⟨heq, h⟩
  · exact hcmp h (by omega) _ _
  rw [heq]
  refine List.append_left_lt (List.cons_lt_cons_iff.mpr (.inr ⟨rfl, ?_⟩))
  rcases h with h | ⟨heq, h⟩
  · exact hcmp h (by omega) _ _
  rw [heq]
  refine List.append_left_lt ?_
  rcases h with h | ⟨heq, h⟩
  · exact hcmp h (by omega) _ _
  rw [heq]
  exact List.append_left_lt (padded_lt_padded h (by omega))

section Parsing

variable [Decimals]

/-- A directive of two digits.  `strptime` writes it as a choice of digits of ASCII, and `\d`,
which is a digit of any script, where the second may be any. -/
def directive (low high : Nat) (tens units : Char) : Option Nat :=
  (Decimals.decimal units).bind fun b =>
    let n := 10 * (tens.toNat - '0'.toNat) + b
    if tens.isDigit = true ∧ low ≤ n ∧ n ≤ high ∧
        (units.isDigit = true ∨ low + b ≤ n ∧ n + 9 ≤ high + b) then some n
    else none

/-- `%Y`. -/
def yearDirective (a b c d : Char) : Option Nat :=
  (Decimals.decimal a).bind fun a => (Decimals.decimal b).bind fun b =>
    (Decimals.decimal c).bind fun c => (Decimals.decimal d).map fun d =>
      ((a * 10 + b) * 10 + c) * 10 + d

/-- `datetime(…)`, which refuses what is none. -/
def ofFields (year month day hour minute second : Nat) : Option Datetime :=
  if h : (1 ≤ year ∧ year ≤ 9999) ∧ (1 ≤ month ∧ month ≤ 12) ∧
      (1 ≤ day ∧ day ≤ daysInMonth (isLeap year) month) ∧ hour < 24 ∧ minute < 60 ∧ second < 60 then
    some ⟨⟨year, month, day, h.1.1, h.1.2, h.2.1.1, h.2.1.2, h.2.2.1.1, h.2.2.1.2⟩, hour, minute,
      second, 0, h.2.2.2.1, h.2.2.2.2.1, h.2.2.2.2.2, by decide⟩
  else none

/-- `strptime(s, "%Y%m%d-%H%M%S")` of eight digits, a hyphen and six digits. -/
def strptime : Str → Option Datetime
  | [y₁, y₂, y₃, y₄, m₁, m₂, d₁, d₂, '-', h₁, h₂, i₁, i₂, s₁, s₂] =>
    (yearDirective y₁ y₂ y₃ y₄).bind fun year =>
    (directive 1 12 m₁ m₂).bind fun month =>
    (directive 1 31 d₁ d₂).bind fun day =>
    (directive 0 23 h₁ h₂).bind fun hour =>
    (directive 0 59 i₁ i₂).bind fun minute =>
    (directive 0 61 s₁ s₂).bind fun second => ofFields year month day hour minute second
  | _ => none

theorem decimal_digit {n : Nat} (h : n < 10) : Decimals.decimal (digit n) = some n := by
  rw [PyText.decimal_of_isDigit (isDigit_digit n h).1, (isDigit_digit n h).2]

theorem directive_digits {low high n : Nat} (hlow : low ≤ n) (hhigh : n ≤ high)
    (hle : high < 100) : directive low high (digit (n / 10 % 10)) (digit (n % 10)) = some n := by
  have htens := isDigit_digit (n / 10 % 10) (by omega)
  have hunits := isDigit_digit (n % 10) (by omega)
  have hvalue : 10 * (n / 10 % 10) + n % 10 = n := by omega
  rw [directive, decimal_digit (by omega), Option.bind_some]
  simp only [htens.2, hvalue]
  exact if_pos ⟨htens.1, hlow, hhigh, .inl hunits.1⟩

theorem yearDirective_digits {n : Nat} (h : n ≤ 9999) :
    yearDirective (digit (n / 10 / 10 / 10 % 10)) (digit (n / 10 / 10 % 10))
      (digit (n / 10 % 10)) (digit (n % 10)) = some n := by
  rw [yearDirective, decimal_digit (by omega), decimal_digit (by omega), decimal_digit (by omega),
    decimal_digit (by omega)]
  simp only [Option.bind_some, Option.map_some, Option.some.injEq]
  omega

omit [Decimals] in
theorem ofFields_self (t : Datetime) :
    ofFields t.date.year t.date.month t.date.day t.hour t.minute t.second = some t.whole :=
  dif_pos ⟨⟨t.date.year_pos, t.date.year_le⟩, ⟨t.date.month_pos, t.date.month_le⟩,
    ⟨t.date.day_pos, t.date.day_le⟩, t.hour_lt, t.minute_lt, t.second_lt⟩

/-- A time's text is read as the time, to the second. -/
theorem strptime_stamp (t : Datetime) : strptime t.stamp = some t.whole := by
  have hday := t.date.day_le.trans (daysInMonth_le _ _)
  have hhour := t.hour_lt
  have hminute := t.minute_lt
  have hsecond := t.second_lt
  show (yearDirective _ _ _ _).bind _ = _
  rw [yearDirective_digits t.date.year_le, Option.bind_some,
    directive_digits t.date.month_pos t.date.month_le (by decide), Option.bind_some,
    directive_digits t.date.day_pos hday (by decide), Option.bind_some,
    directive_digits (Nat.zero_le _) (by omega) (by decide), Option.bind_some,
    directive_digits (Nat.zero_le _) (by omega) (by decide), Option.bind_some,
    directive_digits (Nat.zero_le _) (by omega) (by decide), Option.bind_some, ofFields_self]

end Parsing

end Calendar
end NetRollout
