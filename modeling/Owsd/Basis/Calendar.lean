import Mathlib.Data.List.Basic
import Mathlib.Tactic.Common

/-!
Seconds since 1970 as dates and times of day in UTC, and back.

The year is counted from the first of March here, so that the leap day is its
last day and the months before it have a length of their own. Four hundred
years have 146097 days; within these, of four centuries the first three have
a day less, of 25 times four years the last ones of a century, and of four
years the first three.
-/

namespace Owsd

/-- `struct tm`. The year is that of the calendar, the month is counted from
zero on. -/
structure Tm where
  sec : ℕ
  min : ℕ
  hour : ℕ
  mday : ℕ
  mon : ℕ
  year : Int
  wday : ℕ

/-- The days from the first of March to the first of the month that many
months later. -/
def beforeMonth (m : ℕ) : ℕ := (153 * m + 2) / 5

example : (List.range 12).map beforeMonth =
    [0, 31, 61, 92, 122, 153, 184, 214, 245, 275, 306, 337] := by decide

/-- The days from March of the year zero to March of a year. -/
def beforeYear (y : Int) : Int := 365 * y + y / 4 - y / 100 + y / 400

/-- The year from March on that a day is in, and the day within the year. -/
def yearOf (days : Int) : Int × ℕ :=
  let cycles := days / 146097
  let d := (days % 146097).toNat
  let centuries := min (d / 36524) 3
  let d := d - 36524 * centuries
  let fours := min (d / 1461) 24
  let d := d - 1461 * fours
  let years := min (d / 365) 3
  (400 * cycles + 100 * centuries + 4 * fours + years, d - 365 * years)

/-- From March of the year zero to 1970. -/
def epoch : Int := 719468

def gmtime (t : Int) : Tm :=
  let days := t / 86400
  let secs := (t % 86400).toNat
  let (y, d) := yearOf (days + epoch)
  let m := (5 * d + 2) / 153
  { sec := secs % 60
    min := secs / 60 % 60
    hour := secs / 3600
    mday := d - beforeMonth m + 1
    mon := if m < 10 then m + 2 else m - 10
    year := if m < 10 then y else y + 1
    wday := ((days + 4) % 7).toNat }

/-- `mktime` in UTC. Days, hours, minutes and seconds beyond their ranges
count on. -/
def timegm (tm : Tm) : Int :=
  let y := if 2 ≤ tm.mon then tm.year else tm.year - 1
  let m := if 2 ≤ tm.mon then tm.mon - 2 else tm.mon + 10
  let days := beforeYear y + beforeMonth m + tm.mday - 1 - epoch
  86400 * days + 3600 * tm.hour + 60 * tm.min + tm.sec

theorem beforeYear_eq {a : Int} {c q y : ℕ} (hc : c ≤ 3) (hq : q ≤ 24) (hy : y ≤ 3) :
    beforeYear (400 * a + 100 * c + 4 * q + y) = 146097 * a + 36524 * c + 1461 * q + 365 * y := by
  have hfours : (400 * a + 100 * c + 4 * q + y) / 4 = 100 * a + 25 * c + q := by omega
  have hcenturies : (400 * a + 100 * c + 4 * q + y) / 100 = 4 * a + c := by omega
  have hcycles : (400 * a + 100 * c + 4 * q + y) / 400 = a := by omega
  rw [beforeYear, hfours, hcenturies, hcycles]
  omega

theorem yearOf_spec (days : Int) :
    beforeYear (yearOf days).1 + (yearOf days).2 = days ∧ (yearOf days).2 < 366 := by
  rw [yearOf]
  simp only
  rw [beforeYear_eq (Nat.min_le_right _ _) (Nat.min_le_right _ _) (Nat.min_le_right _ _)]
  omega

theorem beforeMonth_spec {d : ℕ} (hd : d < 366) :
    (5 * d + 2) / 153 < 12 ∧ beforeMonth ((5 * d + 2) / 153) ≤ d ∧
      d < beforeMonth ((5 * d + 2) / 153) + 31 := by
  rw [beforeMonth]
  omega

theorem gmtime_range (t : Int) :
    (gmtime t).sec < 60 ∧ (gmtime t).min < 60 ∧ (gmtime t).hour < 24 ∧
      (1 ≤ (gmtime t).mday ∧ (gmtime t).mday ≤ 31) ∧ (gmtime t).mon < 12 ∧
      (gmtime t).wday < 7 := by
  obtain ⟨hmonth, hle, hlt⟩ := beforeMonth_spec (yearOf_spec (t / 86400 + epoch)).2
  simp only [gmtime]
  refine ⟨by omega, by omega, by omega, by omega, ?_, by omega⟩
  split <;> omega

theorem timegm_gmtime (t : Int) : timegm (gmtime t) = t := by
  obtain ⟨hdays, hlt⟩ := yearOf_spec (t / 86400 + epoch)
  obtain ⟨hmonth, hle, -⟩ := beforeMonth_spec hlt
  simp only [timegm, gmtime]
  split
  · next hm =>
    rw [if_pos (by omega), if_pos (by omega), Nat.add_sub_cancel]
    omega
  · next hm =>
    rw [if_neg (by omega), if_neg (by omega), Int.add_sub_cancel, Nat.sub_add_cancel (by omega)]
    omega

/-- The years of the days from 1000 to 9999. The first of them begins, and the
last one ends, with the months that March comes after. -/
theorem year_range {y : Int} {d : ℕ} (hd : d < 366) (hlow : 365183 ≤ beforeYear y + d)
    (hhigh : beforeYear y + d ≤ 3652364) :
    (999 ≤ y ∧ y ≤ 9999) ∧ (y = 999 → 306 ≤ d) ∧ (y = 9999 → d < 306) := by
  have hle : y ≤ 9999 := by
    rw [beforeYear] at hhigh
    omega
  have hge : 999 ≤ y := by
    rw [beforeYear] at hlow
    omega
  refine ⟨⟨hge, hle⟩, ?_, ?_⟩
  · rintro rfl
    have hyear : beforeYear 999 = 364877 := rfl
    omega
  · rintro rfl
    have hyear : beforeYear 9999 = 3652059 := rfl
    omega

theorem gmtime_year {t : Int} (hlow : -30610224000 ≤ t) (hhigh : t < 253402300800) :
    1000 ≤ (gmtime t).year ∧ (gmtime t).year ≤ 9999 := by
  obtain ⟨hdays, hlt⟩ := yearOf_spec (t / 86400 + epoch)
  have hepoch : epoch = 719468 := rfl
  obtain ⟨hrange, hfirst, hlast⟩ := @year_range (yearOf (t / 86400 + epoch)).1
    (yearOf (t / 86400 + epoch)).2 hlt (by omega) (by omega)
  have hyear : (gmtime t).year =
      if (5 * (yearOf (t / 86400 + epoch)).2 + 2) / 153 < 10 then (yearOf (t / 86400 + epoch)).1
      else (yearOf (t / 86400 + epoch)).1 + 1 := rfl
  rw [hyear]
  split_ifs with hm
  · omega
  · omega

end Owsd
