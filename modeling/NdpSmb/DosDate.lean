import NdpSmb.Calendar
import NdpSmb.ListFiles

/-!
Times in the format of DOS, which has seven bits for the years from 1980 on and counts seconds
by two, and back.
-/

namespace NdpSmb

open Calendar

def Tm.moment (tm : Tm) : Moment where
  date := { year := tm.tmYear + 1900, month := tm.tmMon + 1, day := tm.tmMday }
  hour := tm.tmHour
  minute := tm.tmMin
  second := tm.tmSec

/-- `localtime` and `mktime` are inverse to each other, in a zone that is always as far ahead;
such a zone is given by less than 25 hours. -/
structure Platform.FixedZone (ph : Platform) (offset : Int) : Prop where
  bounded : -90000 < offset ∧ offset < 90000
  valid : ∀ t, (ph.localtime t).moment.Valid
  seconds : ∀ t, (ph.localtime t).moment.seconds = t.toNat + offset
  mktime : ∀ t, ph.mktime (ph.localtime t) = t

def dosMoment (stamp : Fdate × Ftime) : Moment where
  date := { year := stamp.1.year + 1980, month := stamp.1.month, day := stamp.1.day }
  hour := stamp.2.hours
  minute := stamp.2.minutes
  second := stamp.2.twosecs * 2

structure ValidStamp (stamp : Fdate × Ftime) : Prop where
  moment : (dosMoment stamp).Valid
  year : stamp.1.year < 128

def stampNumber (stamp : Fdate × Ftime) : Nat :=
  ((((stamp.1.year * 16 + stamp.1.month) * 32 + stamp.1.day) * 32 + stamp.2.hours) * 64 +
    stamp.2.minutes) * 32 + stamp.2.twosecs

def dosStart : Int := Moment.seconds ⟨⟨1980, 1, 1⟩, 0, 0, 0⟩

def dosEnd : Int := Moment.seconds ⟨⟨2107, 12, 31⟩, 23, 59, 58⟩

/-- The even second before, or the closest there is for a time outside. -/
def nearestStamp (clock : Int) : Int :=
  if clock < dosStart then dosStart else if dosEnd < clock then dosEnd else clock - clock % 2

structure SurvivesDos (ph : Platform) (offset : Int) (t : UInt32) : Prop where
  valid : ValidStamp (fsphUnixTimeToDosDate ph t)
  roundTrip : (fsphDosDateToUnixTime ph (fsphUnixTimeToDosDate ph t).1
      (fsphUnixTimeToDosDate ph t).2).toNat + offset = nearestStamp (t.toNat + offset)
  ordered : ∀ later, t ≤ later → stampNumber (fsphUnixTimeToDosDate ph t) ≤
    stampNumber (fsphUnixTimeToDosDate ph later)

theorem dosStart_eq : dosStart = 315532800 := by decide

theorem dosEnd_eq : dosEnd = 4354819198 := by decide

theorem seconds_dosMoment_even (stamp : Fdate × Ftime) : (dosMoment stamp).seconds % 2 = 0 := by
  simp only [Moment.seconds, Moment.timeOfDay, dosMoment]
  omega

section Range

variable {stamp : Fdate × Ftime}

theorem ValidStamp.range (valid : ValidStamp stamp) :
    dosStart ≤ (dosMoment stamp).seconds ∧ (dosMoment stamp).seconds ≤ dosEnd := by
  have bounds := valid.moment.in_year
  have year := valid.year
  have first : daysBeforeYear 1980 ≤ daysBeforeYear (dosMoment stamp).date.year :=
    daysBeforeYear_le (by simp only [dosMoment]; omega)
  have last : daysBeforeYear ((dosMoment stamp).date.year + 1) ≤ daysBeforeYear 2108 :=
    daysBeforeYear_le (by simp only [dosMoment]; omega)
  have start : daysBeforeYear 1980 * 86400 = dosStart := by decide
  have ended : daysBeforeYear 2108 * 86400 = dosEnd + 2 := by decide
  have even := seconds_dosMoment_even stamp
  rw [dosEnd_eq] at ended ⊢
  omega

theorem nearestStamp_closest (valid : ValidStamp stamp) (clock : Int) :
    (clock < dosStart ∨ dosEnd < clock →
        |nearestStamp clock - clock| ≤ |(dosMoment stamp).seconds - clock|) ∧
      ((dosMoment stamp).seconds ≤ clock →
        (dosMoment stamp).seconds ≤ nearestStamp clock ∧ nearestStamp clock ≤ clock) := by
  obtain ⟨lower, upper⟩ := valid.range
  have even := seconds_dosMoment_even stamp
  constructor
  · rintro (early | late)
    · have nearest : nearestStamp clock = dosStart := if_pos early
      rw [nearest, abs_of_nonneg (by omega), abs_of_nonneg (by omega)]
      omega
    · have nearest : nearestStamp clock = dosEnd := by
        unfold nearestStamp
        rw [if_neg (by omega), if_pos late]
      rw [nearest, abs_of_nonpos (by omega), abs_of_nonpos (by omega)]
      omega
  · intro before
    rw [dosStart_eq] at lower
    rw [dosEnd_eq] at upper
    unfold nearestStamp
    rw [dosStart_eq, dosEnd_eq]
    split_ifs <;> omega

end Range

section Stored

variable {ph : Platform} {offset : Int} {t : UInt32} {tm : Tm}

theorem bitField_mod (width : Nat) (value : Int) : (bitField width value : Int) = value % 2 ^ width :=
  Int.toNat_of_nonneg (Int.emod_nonneg value (by positivity))

theorem bitField_eq {width : Nat} {value : Int} (lower : 0 ≤ value) (upper : value < 2 ^ width) :
    (bitField width value : Int) = value := by
  rw [bitField_mod]
  exact Int.emod_eq_of_lt lower upper

structure StoredFields (stamp : Fdate × Ftime) (moment : Moment) : Prop where
  year : (stamp.1.year : Int) = (moment.date.year - 1980) % 128
  month : (stamp.1.month : Int) = moment.date.month
  day : (stamp.1.day : Int) = moment.date.day
  hours : (stamp.2.hours : Int) = moment.hour
  minutes : (stamp.2.minutes : Int) = moment.minute
  twosecs : (stamp.2.twosecs : Int) = moment.second / 2

theorem storedFields (valid : (ph.localtime t).moment.Valid) :
    StoredFields (fsphUnixTimeToDosDate ph t) (ph.localtime t).moment := by
  have days := daysInMonth_pos (ph.localtime t).moment.date.year (ph.localtime t).moment.date.month
  have month_pos := valid.date.month_pos
  have month_le := valid.date.month_le
  have day_pos := valid.date.day_pos
  have day_le := valid.date.day_le
  have hour := valid.hour
  have minute := valid.minute
  have second := valid.second
  simp only [Tm.moment] at days month_pos month_le day_pos day_le hour minute second
  refine ⟨?_, bitField_eq ?_ ?_, bitField_eq ?_ ?_, bitField_eq ?_ ?_, bitField_eq ?_ ?_,
    bitField_eq ?_ ?_⟩
  · have year := bitField_mod 7 ((ph.localtime t).tmYear + 1900 - 1980)
    simpa [fsphUnixTimeToDosDate, Tm.moment] using year
  all_goals omega

namespace StoredFields

variable {stamp other : Fdate × Ftime} {moment late : Moment}

theorem number (fields : StoredFields stamp moment) :
    (stampNumber stamp : Int) =
      (((((moment.date.year - 1980) % 128 * 16 + moment.date.month) * 32 + moment.date.day) * 32 +
        moment.hour) * 64 + moment.minute) * 32 + moment.second / 2 := by
  rw [← fields.year, ← fields.month, ← fields.day, ← fields.hours, ← fields.minutes,
    ← fields.twosecs, stampNumber]
  push_cast
  ring

theorem dosMoment_eq (fields : StoredFields stamp moment) (lower : 1980 ≤ moment.date.year)
    (upper : moment.date.year ≤ 2107) :
    dosMoment stamp = { moment with second := moment.second / 2 * 2 } := by
  have year := fields.year
  rw [Int.emod_eq_of_lt (by omega) (by omega)] at year
  refine Moment.ext (Date.ext ?_ fields.month fields.day) fields.hours fields.minutes ?_
  · simp only [dosMoment]
    omega
  · simp only [dosMoment, fields.twosecs]

theorem validStamp (fields : StoredFields stamp moment) (valid : moment.Valid)
    (lower : 1980 ≤ moment.date.year) (upper : moment.date.year ≤ 2107) : ValidStamp stamp where
  moment := by
    have second := valid.second
    rw [fields.dosMoment_eq lower upper]
    refine ⟨valid.date, valid.hour, valid.minute, ?_⟩
    simp only
    omega
  year := by
    have year := fields.year
    omega

theorem number_le (fields : StoredFields stamp moment) (later : StoredFields other late)
    (valid : moment.Valid) (other_valid : late.Valid) (lower : 1980 ≤ moment.date.year)
    (upper : late.date.year ≤ 2107) (order : moment.seconds ≤ late.seconds) :
    stampNumber stamp ≤ stampNumber other := by
  have left := fields.number
  have right := later.number
  have month_pos := valid.date.month_pos
  have month_le := valid.date.month_le
  have day_pos := valid.date.day_pos
  have day_le := valid.date.day_le.trans (daysInMonth_pos _ _).2
  have hour := valid.hour
  have minute := valid.minute
  have second := valid.second
  have late_month_pos := other_valid.date.month_pos
  have late_day_pos := other_valid.date.day_pos
  have late_hour := other_valid.hour
  have late_minute := other_valid.minute
  have late_second := other_valid.second
  rcases valid.order other_valid order with before | ⟨same, times⟩
  · have years : moment.date.year ≤ late.date.year := by
      unfold Date.Before at before
      omega
    rw [Int.emod_eq_of_lt (by omega) (by omega)] at left right
    rcases before with earlier | ⟨sameYear, earlier | ⟨sameMonth, earlier⟩⟩
    · omega
    · omega
    · omega
  · rw [Int.emod_eq_of_lt (by rw [← same]; omega) (by omega)] at right
    rw [Int.emod_eq_of_lt (by omega) (by rw [same]; omega), same] at left
    unfold Moment.timeOfDay at times
    omega

end StoredFields

end Stored

/-! There and back in a zone. -/

section Zone

variable {ph : Platform} {offset : Int} {t : UInt32}

theorem Tm.moment_injective {left right : Tm} (same : left.moment = right.moment) :
    left = right := by
  cases left
  cases right
  simp only [Tm.moment, Moment.mk.injEq, Date.mk.injEq] at same
  obtain ⟨⟨year, month, day⟩, hour, minute, second⟩ := same
  simp only [Tm.mk.injEq]
  omega

theorem Platform.FixedZone.year_bounds (zone : ph.FixedZone offset) (t : UInt32) :
    1969 ≤ (ph.localtime t).moment.date.year ∧ (ph.localtime t).moment.date.year ≤ 2106 := by
  have bounded := zone.bounded
  have seconds := zone.seconds t
  have small := t.toNat_lt
  have first : daysBeforeYear 1969 * 86400 = -31536000 := by decide
  have last : daysBeforeYear 2107 * 86400 = 4323283200 := by decide
  have lower := (zone.valid t).year_le_iff 1969
  have upper := (zone.valid t).year_le_iff 2107
  constructor
  · rw [lower, first]
    omega
  · have early : ¬ 2107 ≤ (ph.localtime t).moment.date.year := by
      rw [upper, last]
      omega
    omega

theorem Platform.FixedZone.year_ge_iff (zone : ph.FixedZone offset) :
    1980 ≤ (ph.localtime t).moment.date.year ↔ dosStart ≤ t.toNat + offset := by
  have start : daysBeforeYear 1980 * 86400 = dosStart := by decide
  rw [(zone.valid t).year_le_iff, zone.seconds, start]

theorem Platform.FixedZone.localtime_eq (zone : ph.FixedZone offset) (t : UInt32)
    {moment : Moment} (valid : moment.Valid) (seconds : moment.seconds = t.toNat + offset) :
    (ph.localtime t).moment = moment :=
  Moment.seconds_injective (zone.valid t) valid ((zone.seconds t).trans seconds.symm)

theorem fsphDosDateToUnixTime_eq {stamp : Fdate × Ftime} {tm : Tm}
    (same : tm.moment = dosMoment stamp) :
    fsphDosDateToUnixTime ph stamp.1 stamp.2 = ph.mktime tm := by
  refine congrArg ph.mktime (Tm.moment_injective ?_)
  rw [same]
  refine Moment.ext (Date.ext ?_ ?_ rfl) rfl rfl rfl
  · simp only [Tm.moment, dosMoment]
    omega
  · simp only [Tm.moment, dosMoment]
    omega

theorem Platform.FixedZone.readBack (zone : ph.FixedZone offset)
    (late : dosStart ≤ t.toNat + offset) :
    ((fsphDosDateToUnixTime ph (fsphUnixTimeToDosDate ph t).1
        (fsphUnixTimeToDosDate ph t).2).toNat : Int) + offset =
      t.toNat + offset - (t.toNat + offset) % 2 := by
  have bounded := zone.bounded
  have seconds := zone.seconds t
  have fields := storedFields (zone.valid t)
  have lower := zone.year_ge_iff.mpr late
  have upper := (zone.year_bounds t).2
  have stamp := fields.dosMoment_eq lower (by omega)
  have valid := (fields.validStamp (zone.valid t) lower (by omega)).moment
  have small := t.toNat_lt
  have odd : (t.toNat + offset) % 2 = (ph.localtime t).moment.second % 2 := by
    rw [← seconds]
    simp only [Moment.seconds, Moment.timeOfDay]
    omega
  have even : (dosMoment (fsphUnixTimeToDosDate ph t)).seconds =
      t.toNat + offset - (t.toNat + offset) % 2 := by
    rw [odd, ← seconds, stamp]
    simp only [Moment.seconds, Moment.timeOfDay]
    omega
  rw [dosStart_eq] at late
  let before : UInt32 := UInt32.ofNat (t.toNat - ((t.toNat + offset) % 2).toNat)
  have before_eq : (before.toNat : Int) = t.toNat - (t.toNat + offset) % 2 := by
    have whole : before.toNat = t.toNat - ((t.toNat + offset) % 2).toNat :=
      UInt32.toNat_ofNat_of_lt' (Nat.lt_of_le_of_lt (Nat.sub_le _ _) small)
    rw [whole]
    omega
  have local_eq := zone.localtime_eq before valid (by rw [even, before_eq]; omega)
  rw [fsphDosDateToUnixTime_eq local_eq, zone.mktime, before_eq]
  omega

theorem Platform.FixedZone.not_ordered (zone : ph.FixedZone offset)
    (early : t.toNat + offset < dosStart) :
    ∃ later, t ≤ later ∧ stampNumber (fsphUnixTimeToDosDate ph later) <
      stampNumber (fsphUnixTimeToDosDate ph t) := by
  have bounded := zone.bounded
  have small := t.toNat_lt
  have years := zone.year_bounds t
  have lower : ¬ 1980 ≤ (ph.localtime t).moment.date.year := by
    rw [zone.year_ge_iff]
    omega
  rw [dosStart_eq] at early
  let later : UInt32 := UInt32.ofNat (dosStart - offset).toNat
  have later_eq : (later.toNat : Int) + offset = dosStart := by
    have whole : later.toNat = (dosStart - offset).toNat :=
      UInt32.toNat_ofNat_of_lt' (by rw [dosStart_eq]; show _ < 2 ^ 32; omega)
    rw [whole, dosStart_eq]
    omega
  have newYear : Moment.Valid ⟨⟨1980, 1, 1⟩, 0, 0, 0⟩ :=
    ⟨by decide, by decide, by decide, by decide⟩
  have local_eq := zone.localtime_eq later newYear later_eq.symm
  refine ⟨later, ?_, ?_⟩
  · rw [UInt32.le_iff_toNat_le]
    rw [dosStart_eq] at later_eq
    omega
  · have first := (storedFields (zone.valid later)).number
    have number := (storedFields (zone.valid t)).number
    have valid := zone.valid t
    have month_pos := valid.date.month_pos
    have day_pos := valid.date.day_pos
    have hour := valid.hour
    have minute := valid.minute
    have second := valid.second
    rw [local_eq] at first
    norm_num at first
    omega

/-- A time survives exactly from 1980 on, by the clock of the zone. -/
theorem dosDate_survives_iff (zone : ph.FixedZone offset) (t : UInt32) :
    SurvivesDos ph offset t ↔ dosStart ≤ t.toNat + offset := by
  constructor
  · intro survives
    by_contra early
    obtain ⟨later, order, smaller⟩ := zone.not_ordered (Int.not_le.mp early)
    have ordered := survives.ordered later order
    omega
  · intro late
    have lower := zone.year_ge_iff.mpr late
    have upper := (zone.year_bounds t).2
    have fields := storedFields (zone.valid t)
    refine ⟨fields.validStamp (zone.valid t) lower (by omega), ?_, fun later order => ?_⟩
    · have bounded := zone.bounded
      have small := t.toNat_lt
      have inside : ¬ dosEnd < t.toNat + offset := by
        rw [dosEnd_eq]
        omega
      rw [zone.readBack late, nearestStamp, if_neg (Int.not_lt.mpr late), if_neg inside]
    · have bound := (zone.year_bounds later).2
      refine fields.number_le (storedFields (zone.valid later)) (zone.valid t) (zone.valid later)
        lower (by omega) ?_
      have toNat_le := UInt32.le_iff_toNat_le.mp order
      rw [zone.seconds, zone.seconds]
      omega

end Zone

def utcPlatform : Platform :=
  { asciiPlatform with
    localtime := fun t =>
      let moment := Moment.after t.toNat
      { tmSec := moment.second, tmMin := moment.minute, tmHour := moment.hour
        tmMday := moment.date.day, tmMon := moment.date.month - 1
        tmYear := moment.date.year - 1900 }
    mktime := fun tm => UInt32.ofNat tm.moment.seconds.toNat }

theorem moment_utcPlatform (t : UInt32) :
    (utcPlatform.localtime t).moment = Moment.after t.toNat := by
  refine Moment.ext (Date.ext ?_ ?_ rfl) rfl rfl rfl
  · simp only [utcPlatform, Tm.moment]
    omega
  · simp only [utcPlatform, Tm.moment]
    omega

theorem fixedZone_utcPlatform : utcPlatform.FixedZone 0 where
  bounded := by decide
  valid t := by
    rw [moment_utcPlatform]
    exact (Moment.after_valid t.toNat).1
  seconds t := by
    rw [moment_utcPlatform, (Moment.after_valid t.toNat).2, Int.add_zero]
  mktime t := by
    change UInt32.ofNat (utcPlatform.localtime t).moment.seconds.toNat = t
    rw [moment_utcPlatform, (Moment.after_valid t.toNat).2, Int.toNat_natCast, UInt32.ofNat_toNat]

theorem dosDate_survives_iff_nineties :
    SurvivesDos utcPlatform 0 700000000 ↔ dosStart ≤ (700000000 : UInt32).toNat + 0 :=
  dosDate_survives_iff fixedZone_utcPlatform 700000000

/-- The time that an entry without one is given. -/
theorem zeroTime_stored_in_2098 :
    utcPlatform.FixedZone 0 ∧
      (fsphUnixTimeToDosDate utcPlatform 0).1 = { day := 1, month := 1, year := 118 } ∧
      ¬ SurvivesDos utcPlatform 0 0 := by
  refine ⟨fixedZone_utcPlatform, by decide, fun survives => ?_⟩
  exact absurd survives.roundTrip (by decide)

end NdpSmb
