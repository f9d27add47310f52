import Mathlib.Data.Int.Order.Basic
import Mathlib.Tactic.IntervalCases
import Mathlib.Tactic.Ring

/-!
The Gregorian calendar, carried on before its introduction, by the number of days and seconds
from the start of 1970.
-/

namespace Calendar

def IsLeap (year : Int) : Prop := year % 4 = 0 ∧ (year % 100 ≠ 0 ∨ year % 400 = 0)

instance (year : Int) : Decidable (IsLeap year) := inferInstanceAs (Decidable (_ ∧ _))

def daysInMonth (year month : Int) : Int :=
  if month = 2 then if IsLeap year then 29 else 28
  else if month = 4 ∨ month = 6 ∨ month = 9 ∨ month = 11 then 30 else 31

def daysBeforeYear (year : Int) : Int :=
  365 * (year - 1970) + ((year - 1) / 4 - (year - 1) / 100 + (year - 1) / 400) - 477

def daysBeforeMonth (year month : Int) : Int :=
  (367 * month - 362) / 12 - if month ≤ 2 then 0 else if IsLeap year then 1 else 2

theorem daysBeforeYear_succ (year : Int) :
    daysBeforeYear (year + 1) = daysBeforeYear year + if IsLeap year then 366 else 365 := by
  unfold daysBeforeYear
  split
  · rename_i leap
    unfold IsLeap at leap
    omega
  · rename_i common
    unfold IsLeap at common
    omega

theorem daysBeforeYear_le {first last : Int} (order : first ≤ last) :
    daysBeforeYear first ≤ daysBeforeYear last := by
  unfold daysBeforeYear
  omega

theorem daysBeforeMonth_first (year : Int) : daysBeforeMonth year 1 = 0 := by
  simp [daysBeforeMonth]

theorem daysBeforeMonth_succ (year : Int) {month : Int} (lower : 1 ≤ month) (upper : month ≤ 12) :
    daysBeforeMonth year (month + 1) = daysBeforeMonth year month + daysInMonth year month := by
  unfold daysBeforeMonth daysInMonth
  by_cases leap : IsLeap year
  · simp only [leap, if_true]
    interval_cases month <;> decide
  · simp only [leap, if_false]
    interval_cases month <;> decide

theorem daysBeforeMonth_end (year : Int) :
    daysBeforeMonth year 13 = if IsLeap year then 366 else 365 := by
  unfold daysBeforeMonth
  by_cases leap : IsLeap year
  · simp [leap]
  · simp [leap]

theorem daysInMonth_pos (year month : Int) : 28 ≤ daysInMonth year month ∧
    daysInMonth year month ≤ 31 := by
  unfold daysInMonth
  split_ifs <;> omega

theorem daysBeforeMonth_le (year : Int) {first last : Int} (lower : 1 ≤ first)
    (order : first < last) (upper : last ≤ 13) :
    daysBeforeMonth year first + daysInMonth year first ≤ daysBeforeMonth year last := by
  rw [← daysBeforeMonth_succ year lower (by omega)]
  unfold daysBeforeMonth
  by_cases leap : IsLeap year
  · simp only [leap, if_true]
    split_ifs <;> omega
  · simp only [leap, if_false]
    split_ifs <;> omega

/-! Dates. -/

@[ext]
structure Date where
  year : Int
  month : Int
  day : Int
  deriving DecidableEq

namespace Date

structure Valid (date : Date) : Prop where
  month_pos : 1 ≤ date.month
  month_le : date.month ≤ 12
  day_pos : 1 ≤ date.day
  day_le : date.day ≤ daysInMonth date.year date.month

instance (date : Date) : Decidable date.Valid :=
  decidable_of_iff (1 ≤ date.month ∧ date.month ≤ 12 ∧ 1 ≤ date.day ∧
      date.day ≤ daysInMonth date.year date.month)
    ⟨fun ⟨one, two, three, four⟩ => ⟨one, two, three, four⟩,
      fun valid => ⟨valid.month_pos, valid.month_le, valid.day_pos, valid.day_le⟩⟩

def dayNumber (date : Date) : Int :=
  daysBeforeYear date.year + daysBeforeMonth date.year date.month + (date.day - 1)

def Before (first last : Date) : Prop :=
  first.year < last.year ∨ first.year = last.year ∧
    (first.month < last.month ∨ first.month = last.month ∧ first.day < last.day)

theorem before_trichotomy (first last : Date) :
    first.Before last ∨ first = last ∨ last.Before first := by
  by_cases same : first = last
  · exact .inr (.inl same)
  · have apart : ¬ (first.year = last.year ∧ first.month = last.month ∧ first.day = last.day) :=
      fun equal => same (Date.ext equal.1 equal.2.1 equal.2.2)
    unfold Before
    omega

variable {date first last : Date}

theorem Valid.day_in_year (valid : date.Valid) :
    daysBeforeYear date.year ≤ date.dayNumber ∧
      date.dayNumber < daysBeforeYear (date.year + 1) := by
  have lower := valid.day_pos
  have upper := valid.day_le
  have whole : daysBeforeMonth date.year date.month + daysInMonth date.year date.month ≤
      daysBeforeMonth date.year 13 :=
    daysBeforeMonth_le date.year valid.month_pos (Int.lt_add_one_of_le valid.month_le) le_rfl
  have start : 0 ≤ daysBeforeMonth date.year date.month := by
    by_cases first : date.month = 1
    · rw [first, daysBeforeMonth_first]
    · have month_pos := valid.month_pos
      have month_le := valid.month_le
      have later := daysBeforeMonth_le date.year (le_refl 1)
        (show 1 < date.month by omega) (by omega)
      have january := daysInMonth_pos date.year 1
      rw [daysBeforeMonth_first] at later
      omega
  rw [daysBeforeYear_succ, ← daysBeforeMonth_end]
  unfold dayNumber
  omega

theorem dayNumber_lt (valid : first.Valid) (other : last.Valid) (before : first.Before last) :
    first.dayNumber < last.dayNumber := by
  rcases before with earlier | ⟨sameYear, earlier | ⟨sameMonth, earlier⟩⟩
  · have years := daysBeforeYear_le (show first.year + 1 ≤ last.year by omega)
    have left := valid.day_in_year
    have right := other.day_in_year
    omega
  · have months := daysBeforeMonth_le first.year valid.month_pos earlier
      (Int.le_add_one other.month_le)
    have left := valid.day_le
    have right := other.day_pos
    unfold dayNumber
    rw [← sameYear]
    omega
  · unfold dayNumber
    rw [← sameYear, ← sameMonth]
    omega

theorem dayNumber_injective (valid : first.Valid) (other : last.Valid)
    (same : first.dayNumber = last.dayNumber) : first = last := by
  rcases before_trichotomy first last with before | equal | after
  · have apart := dayNumber_lt valid other before
    omega
  · exact equal
  · have apart := dayNumber_lt other valid after
    omega

def next (date : Date) : Date :=
  if date.day < daysInMonth date.year date.month then { date with day := date.day + 1 }
  else if date.month < 12 then { date with month := date.month + 1, day := 1 }
  else { year := date.year + 1, month := 1, day := 1 }

theorem Valid.next (valid : date.Valid) :
    date.next.Valid ∧ date.next.dayNumber = date.dayNumber + 1 := by
  have lower := valid.month_pos
  have upper := valid.month_le
  have day_lower := valid.day_pos
  have day_upper := valid.day_le
  unfold Date.next
  split
  · rename_i inside
    refine ⟨⟨lower, upper, ?_, ?_⟩, ?_⟩
    · simp only
      omega
    · simp only
      omega
    · simp only [dayNumber]
      omega
  · rename_i complete
    have last_day : date.day = daysInMonth date.year date.month := by omega
    split
    · have long := daysInMonth_pos date.year (date.month + 1)
      have months := daysBeforeMonth_succ date.year lower upper
      refine ⟨⟨?_, ?_, le_refl 1, ?_⟩, ?_⟩
      · simp only
        omega
      · simp only
        omega
      · simp only
        omega
      · simp only [dayNumber]
        omega
    · have december : date.month = 12 := by omega
      have long := daysInMonth_pos (date.year + 1) 1
      have months := daysBeforeMonth_succ date.year lower upper
      have ended := daysBeforeMonth_end date.year
      have years := daysBeforeYear_succ date.year
      have start := daysBeforeMonth_first (date.year + 1)
      rw [december] at months last_day
      refine ⟨⟨le_refl 1, ?_, le_refl 1, ?_⟩, ?_⟩
      · simp only
        omega
      · simp only
        omega
      · simp only [dayNumber, december]
        have whole : daysBeforeMonth date.year 12 + daysInMonth date.year 12 =
            daysBeforeMonth date.year 13 := months.symm
        omega

/-- So many days after the start of 1970. -/
def after : Nat → Date
  | 0 => { year := 1970, month := 1, day := 1 }
  | days + 1 => (after days).next

theorem after_valid (days : Nat) : (after days).Valid ∧ (after days).dayNumber = days := by
  induction days with
  | zero => decide
  | succ days ih =>
      obtain ⟨valid, number⟩ := ih
      obtain ⟨next_valid, next_number⟩ := valid.next
      refine ⟨next_valid, ?_⟩
      rw [after, next_number, number]
      push_cast
      ring

end Date

/-! Moments. -/

@[ext]
structure Moment where
  date : Date
  hour : Int
  minute : Int
  second : Int
  deriving DecidableEq

namespace Moment

def timeOfDay (moment : Moment) : Int :=
  moment.hour * 3600 + moment.minute * 60 + moment.second

structure Valid (moment : Moment) : Prop where
  date : moment.date.Valid
  hour : 0 ≤ moment.hour ∧ moment.hour < 24
  minute : 0 ≤ moment.minute ∧ moment.minute < 60
  second : 0 ≤ moment.second ∧ moment.second < 60

def seconds (moment : Moment) : Int := moment.date.dayNumber * 86400 + moment.timeOfDay

variable {moment first last : Moment}

theorem Valid.timeOfDay_bounds (valid : moment.Valid) :
    0 ≤ moment.timeOfDay ∧ moment.timeOfDay < 86400 := by
  have hour := valid.hour
  have minute := valid.minute
  have second := valid.second
  unfold timeOfDay
  omega

theorem Valid.in_year (valid : moment.Valid) :
    daysBeforeYear moment.date.year * 86400 ≤ moment.seconds ∧
      moment.seconds < daysBeforeYear (moment.date.year + 1) * 86400 := by
  have day := valid.date.day_in_year
  have time := valid.timeOfDay_bounds
  unfold seconds
  omega

theorem Valid.year_le_iff (valid : moment.Valid) (year : Int) :
    year ≤ moment.date.year ↔ daysBeforeYear year * 86400 ≤ moment.seconds := by
  have bounds := valid.in_year
  constructor
  · intro later
    have years := daysBeforeYear_le later
    omega
  · intro enough
    by_contra early
    have years := daysBeforeYear_le (show moment.date.year + 1 ≤ year by omega)
    omega

theorem Valid.order (valid : first.Valid) (other : last.Valid) (le : first.seconds ≤ last.seconds) :
    first.date.Before last.date ∨ first.date = last.date ∧ first.timeOfDay ≤ last.timeOfDay := by
  rcases Date.before_trichotomy first.date last.date with before | same | after
  · exact .inl before
  · refine .inr ⟨same, ?_⟩
    unfold seconds at le
    rw [same] at le
    omega
  · have apart := Date.dayNumber_lt other.date valid.date after
    have left := valid.timeOfDay_bounds
    have right := other.timeOfDay_bounds
    unfold seconds at le
    omega

theorem seconds_injective (valid : first.Valid) (other : last.Valid)
    (same : first.seconds = last.seconds) : first = last := by
  have left := valid.timeOfDay_bounds
  have right := other.timeOfDay_bounds
  have dates : first.date = last.date := by
    refine Date.dayNumber_injective valid.date other.date ?_
    unfold seconds at same
    omega
  have times : first.timeOfDay = last.timeOfDay := by
    unfold seconds at same
    rw [dates] at same
    omega
  have hour := valid.hour
  have minute := valid.minute
  have second := valid.second
  have otherHour := other.hour
  have otherMinute := other.minute
  have otherSecond := other.second
  unfold timeOfDay at times
  refine Moment.ext dates ?_ ?_ ?_
  · omega
  · omega
  · omega

/-- So many seconds after the start of 1970. -/
def after (seconds : Nat) : Moment where
  date := Date.after (seconds / 86400)
  hour := (seconds % 86400 / 3600 : Nat)
  minute := (seconds % 3600 / 60 : Nat)
  second := (seconds % 60 : Nat)

theorem after_valid (seconds : Nat) :
    (after seconds).Valid ∧ (after seconds).seconds = seconds := by
  obtain ⟨valid, number⟩ := Date.after_valid (seconds / 86400)
  refine ⟨⟨valid, ?_, ?_, ?_⟩, ?_⟩
  · simp only [after]
    omega
  · simp only [after]
    omega
  · simp only [after]
    omega
  · simp only [Moment.seconds, timeOfDay, after, number]
    omega

end Moment

end Calendar
