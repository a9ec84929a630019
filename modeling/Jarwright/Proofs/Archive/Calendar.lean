import Jarwright.Proofs.Archive.Extraction
import Mathlib.Logic.Function.Iterate
import Mathlib.Order.Monotone.Basic
import Mathlib.Tactic.IntervalCases

/-!
# The order of the calendar

The days of the calendar (`Date`) are numbered one after the other, in both directions of time, and
the seconds of the days since 1970 are counted in the order of the calendar. Since years are counted
from March on, a leap day is the last of its year: the number of a day is a sum of days for years,
of leap days and of days for months (`dayNumber_eq`).

* `dayNumber_nextMonth`, `dayNumber_nextYear`: where one month ends the next begins;
* `Date.number_next`, `Date.iterate_next_iff`: a day is numbered by how far it is from another one;
* `Date.number_lt_iff`, `Stamp.seconds_lt_iff`: the order of days and of times;
* `stamps_chronological`: all of it, and that files are compared with their stamps in this order.
-/

namespace Jarwright.Archive

open Machine Machine.Action

variable {year month day : Int}

/-! ## Months -/

/-- The era of a year, whose quotient is cut towards zero, is that of the calendar. -/
theorem tdiv_era (y : Int) : (if 0 ≤ y then y else y - 399).tdiv 400 = y / 400 := by
  split
  · exact Int.tdiv_eq_ediv_of_nonneg ‹0 ≤ y›
  · -- below zero a quotient that is not exact is one more than the rounded one
    rw [Int.tdiv_eq_ediv, Int.sign_eq_one_of_pos (by decide)]
    split <;> omega

/-- How many leap days there were from the end of the year zero to that of another year. -/
def leapDays (year : Int) : Int := year / 4 - year / 100 + year / 400

theorem leapDays_eq (year : Int) :
    leapDays year = leapDays (year - 1) + if isLeapYear year then 1 else 0 := by
  simp only [leapDays, isLeapYear, Bool.and_eq_true, Bool.or_eq_true, beq_iff_eq, bne_iff_ne]
  split <;> omega

/-- How many days there are from the first of March to the first of another month. -/
def daysFromMarch (month : Int) : Int := (153 * ((month + 9) % 12) + 2) / 5

/-- The number of a day without eras: `y` is the year that began in March. -/
theorem dayNumber_eq {y : Int} (hy : (if month ≤ 2 then year - 1 else year) = y)
    (hmonth : 1 ≤ month) :
    dayNumber year month day = 365 * y + leapDays y + daysFromMarch month + day - 719469 := by
  have hyear : 0 ≤ y - y / 400 * 400 := by omega
  have hrest : 0 ≤ 153 * ((month + 9) % 12) + 2 := by omega
  simp only [dayNumber, hy, tdiv_era, leapDays, daysFromMarch]
  rw [Int.tmod_eq_emod_of_nonneg (by omega), Int.tdiv_eq_ediv_of_nonneg hrest,
    Int.tdiv_eq_ediv_of_nonneg hyear, Int.tdiv_eq_ediv_of_nonneg hyear]
  omega

/-- From one first of a month to the next there are as many days as the month has, unless the year
changes in between. -/
theorem daysFromMarch_succ (year : Int) (h1 : 1 ≤ month) (h2 : month ≠ 2) (h12 : month < 12) :
    daysFromMarch (month + 1) = daysFromMarch month + monthLength year month := by
  obtain rfl | h3 : month = 1 ∨ 3 ≤ month := by omega
  · rfl
  · interval_cases month <;> rfl

/-- The first of a month follows the last of the month before. -/
theorem dayNumber_nextMonth (year : Int) (h1 : 1 ≤ month) (h12 : month < 12) :
    dayNumber year (month + 1) 1 = dayNumber year month 1 + monthLength year month := by
  by_cases h2 : month = 2
  · subst h2
    have hlength : monthLength year 2 = 28 + if isLeapYear year then 1 else 0 := by
      rw [monthLength, if_pos rfl]
      split <;> rfl
    have hmarch : daysFromMarch (2 + 1) = 0 ∧ daysFromMarch 2 = 337 := by decide
    rw [dayNumber_eq rfl (by decide), dayNumber_eq rfl h1, if_neg (by decide),
      if_pos (by decide), leapDays_eq year]
    omega
  · have hsame : (if month + 1 ≤ 2 then year - 1 else year)
        = if month ≤ 2 then year - 1 else year := by
      split_ifs <;> omega
    have hstep := daysFromMarch_succ year h1 h2 h12
    rw [dayNumber_eq hsame (by omega), dayNumber_eq rfl h1]
    omega

/-- The first of January follows the last of December. -/
theorem dayNumber_nextYear (year : Int) :
    dayNumber (year + 1) 1 1 = dayNumber year 12 1 + 31 := by
  have hmarch : daysFromMarch 1 = 306 ∧ daysFromMarch 12 = 275 := by decide
  have hsame : (if (1 : Int) ≤ 2 then year + 1 - 1 else year + 1) = year := by
    rw [if_pos (by decide), Int.add_sub_cancel]
  rw [dayNumber_eq hsame le_rfl, dayNumber_eq (y := year) (if_neg (by decide)) (by decide)]
  omega

/-- Within a month days are counted on. -/
theorem dayNumber_day (year month day : Int) :
    dayNumber year month day = dayNumber year month 1 + (day - 1) := by
  simp only [dayNumber]
  omega

theorem monthLength_pos (year month : Int) : 1 ≤ monthLength year month := by
  rw [monthLength]
  split_ifs <;> decide

/-! ## Dates -/

/-- A day of the calendar, which goes on before its year one and before the year zero. -/
structure Date where
  year : Int
  month : Int
  day : Int
  one_le_month : 1 ≤ month
  month_le : month ≤ 12
  one_le_day : 1 ≤ day
  day_le : day ≤ monthLength year month

namespace Date

/-- The first of January 1970. -/
def epoch : Date := ⟨1970, 1, 1, by decide, by decide, by decide, by decide⟩

/-- The first day of a year. -/
def newYear (year : Int) : Date :=
  ⟨year, 1, 1, by decide, by decide, by decide, monthLength_pos year 1⟩

/-- The day after another one: in the same month, or else in the same year, or else in the next. -/
def next (d : Date) : Date :=
  if hday : d.day < monthLength d.year d.month then
    { d with day := d.day + 1, one_le_day := by have := d.one_le_day; omega, day_le := hday }
  else if hmonth : d.month < 12 then
    ⟨d.year, d.month + 1, 1, by have := d.one_le_month; omega, hmonth, by decide,
      monthLength_pos _ _⟩
  else newYear (d.year + 1)

/-- The number of a day. -/
def number (d : Date) : Int := dayNumber d.year d.month d.day

/-- Whether a day comes before another one: by the year, in one year by the month, in one month by
the day. -/
def Before (a b : Date) : Prop :=
  a.year < b.year ∨ a.year = b.year ∧ (a.month < b.month ∨ a.month = b.month ∧ a.day < b.day)

theorem number_epoch : epoch.number = 0 := by decide

/-- Days are numbered one after the other. -/
theorem number_next (d : Date) : d.next.number = d.number + 1 := by
  have hday := dayNumber_day d.year d.month d.day
  rw [next]
  split
  · have hnext := dayNumber_day d.year d.month (d.day + 1)
    simp only [number]
    omega
  · rename_i hless
    have hlast : d.day = monthLength d.year d.month := by have := d.day_le; omega
    split
    · rename_i hmonth
      have hnext := dayNumber_nextMonth d.year d.one_le_month hmonth
      simp only [number]
      omega
    · have hmonth : d.month = 12 := by have := d.month_le; omega
      have hlength : monthLength d.year 12 = 31 := rfl
      have hnext := dayNumber_nextYear d.year
      rw [hmonth] at hday hlast
      simp only [number, newYear, hmonth]
      omega

theorem number_iterate (d : Date) (n : Nat) : (next^[n] d).number = d.number + n := by
  induction n with
  | zero => simp
  | succ n ih =>
    rw [Function.iterate_succ_apply', number_next, ih]
    omega

/-! ### The order of days -/

/-- The number of the first day of a month, where the months of all years are counted on. -/
def monthStart (k : Int) : Int := dayNumber (k / 12) (k % 12 + 1) 1

theorem monthStart_succ (k : Int) :
    monthStart (k + 1) = monthStart k + monthLength (k / 12) (k % 12 + 1) := by
  simp only [monthStart]
  by_cases hlast : k % 12 = 11
  · have hyear : (k + 1) / 12 = k / 12 + 1 := by omega
    have hmonth : (k + 1) % 12 = 0 := by omega
    rw [hyear, hmonth, hlast]
    exact dayNumber_nextYear (k / 12)
  · have hyear : (k + 1) / 12 = k / 12 := by omega
    have hmonth : (k + 1) % 12 = k % 12 + 1 := by omega
    rw [hyear, hmonth]
    exact dayNumber_nextMonth (k / 12) (by omega) (by omega)

theorem monthStart_mono {j k : Int} (h : j ≤ k) : monthStart j ≤ monthStart k := by
  refine monotone_int_of_le_succ (fun i => ?_) h
  have hlength := monthLength_pos (i / 12) (i % 12 + 1)
  rw [monthStart_succ]
  omega

/-- The months before that of a day, counted from January of the year zero. -/
def monthsBefore (d : Date) : Int := 12 * d.year + (d.month - 1)

theorem monthsBefore_spec (d : Date) :
    d.monthsBefore / 12 = d.year ∧ d.monthsBefore % 12 + 1 = d.month := by
  have hfirst := d.one_le_month
  have hlast := d.month_le
  simp only [monthsBefore]
  omega

/-- A day is counted from the first of its month. -/
theorem number_eq (d : Date) : d.number = monthStart d.monthsBefore + (d.day - 1) := by
  obtain ⟨hyear, hmonth⟩ := d.monthsBefore_spec
  rw [monthStart, hyear, hmonth]
  exact dayNumber_day d.year d.month d.day

theorem number_lt_monthStart (d : Date) : d.number < monthStart (d.monthsBefore + 1) := by
  obtain ⟨hyear, hmonth⟩ := d.monthsBefore_spec
  have hday := d.day_le
  rw [monthStart_succ, hyear, hmonth, number_eq]
  omega

theorem before_iff {a b : Date} : a.Before b ↔
    a.monthsBefore < b.monthsBefore ∨ a.monthsBefore = b.monthsBefore ∧ a.day < b.day := by
  have hfirst := And.intro a.one_le_month b.one_le_month
  have hlast := And.intro a.month_le b.month_le
  simp only [Before, monthsBefore]
  omega

theorem number_lt_of_before {a b : Date} (h : a.Before b) : a.number < b.number := by
  obtain hmonth | ⟨hmonth, hday⟩ := before_iff.1 h
  · calc a.number < monthStart (a.monthsBefore + 1) := a.number_lt_monthStart
      _ ≤ monthStart b.monthsBefore := monthStart_mono (Int.add_one_le_of_lt hmonth)
      _ ≤ b.number := by
        have hday := b.one_le_day
        rw [b.number_eq]
        omega
  · rw [a.number_eq, b.number_eq, hmonth]
    omega

theorem eq_or_before (a b : Date) : a = b ∨ a.Before b ∨ b.Before a := by
  obtain ⟨y, m, d, _, _, _, _⟩ := a
  obtain ⟨y', m', d', _, _, _, _⟩ := b
  simp only [mk.injEq, Before]
  omega

/-- Days are numbered in the order of the calendar. -/
theorem number_lt_iff {a b : Date} : a.number < b.number ↔ a.Before b := by
  refine ⟨fun h => ?_, number_lt_of_before⟩
  obtain rfl | hbefore | hafter := eq_or_before a b
  · exact absurd h (lt_irrefl _)
  · exact hbefore
  · exact absurd h (number_lt_of_before hafter).not_gt

theorem number_injective {a b : Date} (h : a.number = b.number) : a = b := by
  obtain heq | hbefore | hafter := eq_or_before a b
  · exact heq
  · exact absurd h (number_lt_of_before hbefore).ne
  · exact absurd h (number_lt_of_before hafter).ne'

/-- A day is so many days after another one as its number is greater. -/
theorem iterate_next_iff {a b : Date} {n : Nat} : next^[n] a = b ↔ b.number = a.number + n := by
  constructor
  · rintro rfl
    exact number_iterate a n
  · intro h
    exact number_injective ((number_iterate a n).trans h.symm)

theorem number_newYear (year : Int) :
    (newYear year).number = 365 * (year - 1) + leapDays (year - 1) - 719162 := by
  have hmarch : daysFromMarch 1 = 306 := by decide
  have hnumber : (newYear year).number = dayNumber year 1 1 := rfl
  rw [hnumber, dayNumber_eq (if_pos (by decide)) le_rfl]
  omega

/-- Every number is that of a day. -/
theorem exists_number (n : Int) : ∃ d : Date, d.number = n := by
  -- a day is found from one that is early enough
  have hearly : (newYear (1970 - n.natAbs)).number ≤ n := by
    rw [number_newYear, leapDays]
    omega
  obtain ⟨k, hk⟩ := Int.le.dest hearly
  exact ⟨next^[k] (newYear (1970 - n.natAbs)), by rw [number_iterate, hk]⟩

/-- The days from the first one on have no negative numbers. -/
theorem number_nonneg_iff {d : Date} : 0 ≤ d.number ↔ 1970 ≤ d.year := by
  have hepoch := number_lt_iff (a := d) (b := epoch)
  have hmonth := d.one_le_month
  have hday := d.one_le_day
  rw [number_epoch] at hepoch
  simp only [Before, epoch] at hepoch
  omega

end Date

/-! ## Times -/

namespace Stamp

/-- Whether a stamp names a second of a day, not before 1970. A minute may have a sixtieth second,
which is the first one of the next minute. -/
structure IsTime (t : Stamp) : Prop where
  year : 1970 ≤ t.year
  month : 1 ≤ t.month ∧ t.month ≤ 12
  day : 1 ≤ t.day ∧ (t.day : Int) ≤ monthLength t.year t.month
  hour : t.hour ≤ 23
  minute : t.minute ≤ 59
  second : t.second ≤ 60

/-- Whether a time comes before another one: by the year, in one year by the month, and so on. -/
def Before (t u : Stamp) : Prop :=
  t.year < u.year ∨ t.year = u.year ∧ (t.month < u.month ∨ t.month = u.month ∧ (t.day < u.day
    ∨ t.day = u.day ∧ (t.hour < u.hour ∨ t.hour = u.hour ∧ (t.minute < u.minute
      ∨ t.minute = u.minute ∧ t.second < u.second))))

variable {t u : Stamp}

/-- What an archive takes for a time is one. -/
theorem isTime_of_isValid (h : t.isValid = true) : t.IsTime := by
  simp only [isValid, Bool.and_eq_true, decide_eq_true_eq] at h
  exact ⟨by omega, by omega, by omega, by omega, by omega, by omega⟩

/-- The day of a time. -/
def IsTime.date (h : t.IsTime) : Date where
  year := t.year
  month := t.month
  day := t.day
  one_le_month := Int.ofNat_le.2 h.month.1
  month_le := Int.ofNat_le.2 h.month.2
  one_le_day := Int.ofNat_le.2 h.day.1
  day_le := h.day.2

/-- The second of a day. -/
def secondOfDay (t : Stamp) : Nat := t.hour * 3600 + t.minute * 60 + t.second

theorem seconds_eq (h : t.IsTime) :
    (t.seconds : Int) = h.date.number * 86400 + t.secondOfDay := by
  have hnumber := Date.number_nonneg_iff.2 (show 1970 ≤ h.date.year from Int.ofNat_le.2 h.year)
  have hdate : h.date.number = dayNumber t.year t.month t.day := rfl
  simp only [seconds, secondOfDay]
  omega

/-- Times are ordered by their days, and on one day by their seconds. -/
theorem before_iff (ht : t.IsTime) (hu : u.IsTime) (hless : t.second < 60) :
    t.Before u ↔ ht.date.Before hu.date
      ∨ ht.date = hu.date ∧ t.secondOfDay < u.secondOfDay := by
  have hminutes := And.intro ht.minute hu.minute
  have hsecond := hu.second
  simp only [Before, Date.Before, IsTime.date, Date.mk.injEq, secondOfDay]
  omega

/-- Times are counted in the order of the calendar. -/
theorem seconds_lt_iff (ht : t.IsTime) (hu : u.IsTime) (hless : t.second < 60) :
    t.seconds < u.seconds ↔ t.Before u := by
  have hseconds : t.secondOfDay < 86400 ∧ u.secondOfDay ≤ 86400 := by
    have hhours := And.intro ht.hour hu.hour
    have hminutes := And.intro ht.minute hu.minute
    have hsecond := hu.second
    simp only [secondOfDay]
    omega
  have hcounts := And.intro (seconds_eq ht) (seconds_eq hu)
  rw [before_iff ht hu hless, ← Date.number_lt_iff]
  obtain heq | hbefore | hafter := Date.eq_or_before ht.date hu.date
  · rw [heq] at hcounts ⊢
    simp only [lt_irrefl, false_or, true_and]
    omega
  · have hday := Date.number_lt_of_before hbefore
    exact iff_of_true (by omega) (.inl hday)
  · have hday := Date.number_lt_of_before hafter
    refine iff_of_false (by omega) ?_
    rintro (hday' | ⟨heq, -⟩)
    · omega
    · rw [heq] at hday
      exact lt_irrefl _ hday

/-- The time at a second of a day. -/
def ofDate (d : Date) (second : Nat) : Stamp :=
  ⟨d.year.toNat, d.month.toNat, d.day.toNat, second / 3600, second % 3600 / 60, second % 60⟩

theorem isTime_ofDate {d : Date} {second : Nat} (hyear : 1970 ≤ d.year) (h : second < 86400) :
    ∃ ht : (ofDate d second).IsTime, ht.date = d := by
  have hmonth := And.intro d.one_le_month d.month_le
  have hday := And.intro d.one_le_day d.day_le
  have hyear' : (d.year.toNat : Int) = d.year := Int.toNat_of_nonneg (by omega)
  have hmonth' : (d.month.toNat : Int) = d.month := Int.toNat_of_nonneg (by omega)
  have hday' : (d.day.toNat : Int) = d.day := Int.toNat_of_nonneg (by omega)
  have htime : (ofDate d second).IsTime := by
    constructor <;> simp only [ofDate, hyear', hmonth', hday'] <;> omega
  refine ⟨htime, ?_⟩
  cases d
  simp only [IsTime.date, ofDate, Date.mk.injEq]
  exact ⟨hyear', hmonth', hday'⟩

/-- Every second from the first one on is that of a time. -/
theorem exists_seconds (n : Nat) : ∃ t : Stamp, t.IsTime ∧ t.second < 60 ∧ t.seconds = n := by
  obtain ⟨d, hd⟩ := Date.exists_number ((n / 86400 : Nat) : Int)
  have hyear : 1970 ≤ d.year := Date.number_nonneg_iff.1 (by omega)
  have hless : n % 86400 < 86400 := Nat.mod_lt n (by decide)
  obtain ⟨htime, hdate⟩ := isTime_ofDate hyear hless
  have hcount := seconds_eq htime
  refine ⟨_, htime, Nat.mod_lt _ (by decide), ?_⟩
  rw [hdate, hd] at hcount
  simp only [secondOfDay, ofDate] at hcount ⊢
  omega

end Stamp

/-- A file is recent if its time does not come before that of its stamp. -/
theorem perform_isRecent {path : String} {stamp time : Stamp} {s : Surroundings} {w : World}
    (hstamp : stamp.isValid = true) (htime : time.IsTime) (hsecond : time.second < 60)
    (hfile : w.changeTime? s path = some time.seconds) :
    ∃ recent, (isRecent path stamp).perform s w = (.ok recent, w)
      ∧ (recent = true ↔ ¬ time.Before stamp) := by
  have hdate : UpToDate s w path stamp ↔ ¬ time.Before stamp := by
    rw [← Stamp.seconds_lt_iff htime (Stamp.isTime_of_isValid hstamp) hsecond, not_lt]
    simp [UpToDate, hfile, hstamp]
  obtain ⟨recent, w', hrun, hrecent, rfl⟩ | ⟨_, _, _, hfalse⟩ :=
    (@ends_isRecent s w path stamp).perform_cases
  · exact ⟨recent, hrun, hrecent.trans hdate⟩
  · exact hfalse.elim

/-- Days are numbered from the first of January 1970 on, one after the other, for all years. From
that day on times are counted in the order of the calendar; only a sixtieth second is counted as the
first of the next minute. Every second is that of a time, and a file is recent if its time does not
come before that of its stamp. -/
theorem stamps_chronological :
    Date.epoch.number = 0
      ∧ (∀ d : Date, d.next.number = d.number + 1)
      ∧ (∀ (a b : Date) (n : Nat), Date.next^[n] a = b ↔ b.number = a.number + n)
      ∧ (∀ a b : Date, a.number < b.number ↔ a.Before b)
      ∧ (∀ t u : Stamp, t.IsTime → u.IsTime → t.second < 60 →
        (t.seconds < u.seconds ↔ t.Before u))
      ∧ (∀ n : Nat, ∃ t : Stamp, t.IsTime ∧ t.second < 60 ∧ t.seconds = n)
      ∧ ∀ (path : String) (stamp time : Stamp) (s : Surroundings) (w : World),
        stamp.isValid = true → time.IsTime → time.second < 60 →
        w.changeTime? s path = some time.seconds →
        ∃ recent, (isRecent path stamp).perform s w = (.ok recent, w)
          ∧ (recent = true ↔ ¬ time.Before stamp) :=
  ⟨Date.number_epoch, Date.number_next, fun _ _ _ => Date.iterate_next_iff,
    fun _ _ => Date.number_lt_iff, fun _ _ => Stamp.seconds_lt_iff, Stamp.exists_seconds,
    fun _ _ _ _ _ => perform_isRecent⟩

/-- The time of the file in `archiveWorld`. -/
def writtenTime : Stamp := ⟨1982, 9, 4, 15, 6, 40⟩

/-- The last second of a leap year comes before the first of the next one, and a file is recent at
its own second, but not two seconds later. -/
theorem stamps_chronological_sample :
    (⟨2000, 12, 31, 23, 59, 59⟩ : Stamp).seconds < (⟨2001, 1, 1, 0, 0, 0⟩ : Stamp).seconds
      ∧ (archiveWorld []).changeTime? idle "out/a" = some writtenTime.seconds
      ∧ ((isRecent "out/a" ⟨1982, 9, 4, 15, 6, 40⟩).perform idle (archiveWorld [])).1 = .ok true
      ∧ ((isRecent "out/a" ⟨1982, 9, 4, 15, 6, 42⟩).perform idle (archiveWorld [])).1
        = .ok false := by
  obtain ⟨-, -, -, -, hseconds, -, hrecent⟩ := stamps_chronological
  have hwritten : writtenTime.IsTime :=
    ⟨by decide, by decide, by decide, by decide, by decide, by decide⟩
  have hfile : (archiveWorld []).changeTime? idle "out/a" = some writtenTime.seconds := by
    decide +kernel
  refine ⟨?_, hfile, ?_, ?_⟩
  · refine (hseconds ⟨2000, 12, 31, 23, 59, 59⟩ ⟨2001, 1, 1, 0, 0, 0⟩ ?_ ?_ (by decide)).2
      (.inl (by decide))
    · exact ⟨by decide, by decide, by decide, by decide, by decide, by decide⟩
    · exact ⟨by decide, by decide, by decide, by decide, by decide, by decide⟩
  · obtain ⟨recent, hrun, hiff⟩ := hrecent "out/a" ⟨1982, 9, 4, 15, 6, 40⟩ writtenTime idle _
      (by decide) hwritten (by decide) hfile
    rw [hrun, hiff.2 (by simp [Stamp.Before, writtenTime])]
  · obtain ⟨recent, hrun, hiff⟩ := hrecent "out/a" ⟨1982, 9, 4, 15, 6, 42⟩ writtenTime idle _
      (by decide) hwritten (by decide) hfile
    have hnot : recent = false := by
      rw [← Bool.not_eq_true, hiff]
      simp [Stamp.Before, writtenTime]
    rw [hrun, hnot]

end Jarwright.Archive
