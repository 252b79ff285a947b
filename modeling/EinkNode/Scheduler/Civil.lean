import EinkNode.Lib.Calendar
import EinkNode.Scheduler.Exact
/-!
# Civil times

A civil time that exists is a date of the calendar with a time of day, and its
time stamp counts the seconds from 1970 on. The two conversions of the
scheduler core compute this count and its inverse: `ymd_hms_to_unix` for all
civil times, and `unix_to_ymd_hms` for the representable time stamps.
-/
open NodeLib NodeLib.Calendar

namespace EinkNode.Scheduler

/-- The month, the day of the month and the time of day exist. -/
structure Civil.Valid (c : Civil) : Prop where
  month : 1 ≤ c.M ∧ c.M ≤ 12
  day : 1 ≤ c.D ∧ c.D ≤ monthLength c.Y c.M
  hour : 0 ≤ c.h ∧ c.h < 24
  minute : 0 ≤ c.m ∧ c.m < 60
  second : 0 ≤ c.s ∧ c.s < 60

instance : DecidablePred Civil.Valid := fun c =>
  decidable_of_iff ((1 ≤ c.M ∧ c.M ≤ 12) ∧ (1 ≤ c.D ∧ c.D ≤ monthLength c.Y c.M) ∧ (0 ≤ c.h ∧ c.h < 24) ∧
      (0 ≤ c.m ∧ c.m < 60) ∧ (0 ≤ c.s ∧ c.s < 60))
    ⟨fun ⟨hM, hD, hh, hm, hs⟩ => ⟨hM, hD, hh, hm, hs⟩, fun ⟨hM, hD, hh, hm, hs⟩ => ⟨hM, hD, hh, hm, hs⟩⟩

/-- By date, then time of day. -/
def Civil.key (c : Civil) : Int ×ₗ Int ×ₗ Int ×ₗ Int ×ₗ Int ×ₗ Int :=
  toLex (c.Y, toLex (c.M, toLex (c.D, toLex (c.h, toLex (c.m, c.s)))))

theorem Civil.key_injective : Function.Injective Civil.key := by
  rintro ⟨Y, M, D, h, m, s⟩ ⟨Y', M', D', h', m', s'⟩ he
  have he' : (Y, M, D, h, m, s) = (Y', M', D', h', m', s') := he
  simp only [Prod.mk.injEq] at he'
  obtain ⟨rfl, rfl, rfl, rfl, rfl, rfl⟩ := he'
  rfl

instance : LinearOrder Civil := LinearOrder.lift' Civil.key Civil.key_injective

/-- `ymd_hms_to_unix` of the six parts. -/
def Civil.to_unix (c : Civil) : Int := ymd_hms_to_unix c.Y c.M c.D c.h c.m c.s

/-! ## The time line -/

/-- The civil times that exist. -/
abbrev CivilTime := {c : Civil // c.Valid}

namespace CivilTime

def date (c : CivilTime) : Date := ⟨c.1.Y, c.1.M, c.1.D, c.2.month, c.2.day⟩

/-- The seconds since the first of January 1970. -/
def stamp (c : CivilTime) : Int := c.date.number * 86400 + c.1.h * 3600 + c.1.m * 60 + c.1.s

theorem lt_iff {c d : CivilTime} : c < d ↔ c.date < d.date ∨ c.date = d.date ∧
    (c.1.h < d.1.h ∨ c.1.h = d.1.h ∧ (c.1.m < d.1.m ∨ c.1.m = d.1.m ∧ c.1.s < d.1.s)) := by
  have h : c < d ↔ Civil.key c.1 < Civil.key d.1 := Iff.rfl
  rw [h, Date.lt_iff, Date.ext_iff]
  simp only [Civil.key, Prod.Lex.toLex_lt_toLex, date]
  tauto

theorem stamp_strictMono : StrictMono stamp := by
  intro c d h
  have hhour := c.2.hour
  have hminute := c.2.minute
  have hsecond := c.2.second
  have hhour' := d.2.hour
  have hminute' := d.2.minute
  have hsecond' := d.2.second
  unfold stamp
  rcases lt_iff.1 h with hdate | ⟨hdate, htime⟩
  · have hnumber := Date.number_strictMono hdate
    omega
  · rw [hdate]
    omega

/-- The date of the day, with a time of day. -/
theorem stamp_surjective : Function.Surjective stamp := by
  intro t
  obtain ⟨d, hd⟩ := Date.number_surjective (t / 86400)
  have hh : 0 ≤ t % 86400 / 3600 ∧ t % 86400 / 3600 < 24 := by omega
  have hm : 0 ≤ t % 86400 % 3600 / 60 ∧ t % 86400 % 3600 / 60 < 60 := by omega
  have hs : 0 ≤ t % 86400 % 60 ∧ t % 86400 % 60 < 60 := by omega
  refine ⟨⟨⟨d.year, d.month, d.day, t % 86400 / 3600, t % 86400 % 3600 / 60, t % 86400 % 60⟩,
    ⟨d.month_range, d.day_range, hh, hm, hs⟩⟩, ?_⟩
  change d.number * 86400 + t % 86400 / 3600 * 3600 + t % 86400 % 3600 / 60 * 60 + t % 86400 % 60 = t
  rw [hd]
  omega

/-- The civil times in their order are the integers in theirs. -/
noncomputable def stampIso : CivilTime ≃o Int := stamp_strictMono.orderIsoOfSurjective stamp stamp_surjective

/-- The civil time of a time stamp. -/
noncomputable def ofStamp (t : Int) : CivilTime := stampIso.symm t

@[simp] theorem stamp_ofStamp (t : Int) : (ofStamp t).stamp = t := stampIso.apply_symm_apply t

theorem ofStamp_stamp (c : CivilTime) : ofStamp c.stamp = c := stampIso.symm_apply_apply c

theorem ofStamp_strictMono : StrictMono ofStamp := stampIso.symm.strictMono

/-- The date and the time of day are the two parts of a time stamp. -/
theorem stamp_parts (c : CivilTime) :
    c.date.number = c.stamp / 86400 ∧ c.1.h * 3600 + c.1.m * 60 + c.1.s = c.stamp % 86400 := by
  obtain ⟨hh0, hh1⟩ := c.2.hour
  obtain ⟨hm0, hm1⟩ := c.2.minute
  obtain ⟨hs0, hs1⟩ := c.2.second
  unfold stamp
  omega

theorem date_ofStamp (t : Int) : (ofStamp t).date = Date.numberIso.symm (t / 86400) := by
  have hday := (stamp_parts (ofStamp t)).1
  rw [stamp_ofStamp] at hday
  exact ((Date.numberIso.symm_apply_eq).2 hday.symm).symm

/-- The years of four digits are representable. -/
theorem representable_of_year {c : CivilTime} (h0 : 0 ≤ c.1.Y) (h1 : c.1.Y ≤ 9999) : Representable c.stamp := by
  obtain ⟨hyear0, hyear1⟩ := Date.number_year c.date
  obtain ⟨hh0, hh1⟩ := c.2.hour
  obtain ⟨hm0, hm1⟩ := c.2.minute
  obtain ⟨hs0, hs1⟩ := c.2.second
  have hY : c.date.year = c.1.Y := rfl
  rw [hY] at hyear0 hyear1
  unfold daysBeforeYear at hyear0 hyear1
  unfold Representable stamp
  omega

end CivilTime

/-! ## `ymd_hms_to_unix` counts the seconds -/

theorem to_unix_stamp (c : CivilTime) : c.1.to_unix = c.stamp := by
  obtain ⟨hM0, hM1⟩ := c.2.month
  obtain ⟨hD0, hD1⟩ := c.2.day
  have hD31 := monthLength_le c.1.Y c.1.M
  obtain ⟨y, hy⟩ : ∃ y, y = if c.1.M ≤ 2 then c.1.Y - 1 else c.1.Y := ⟨_, rfl⟩
  obtain ⟨mp, hmp⟩ : ∃ mp, mp = c.1.M + if c.1.M > 2 then -3 else 9 := ⟨_, rfl⟩
  have hmp' : 0 ≤ mp ∧ mp ≤ 11 := by split at hmp <;> omega
  rw [Civil.to_unix, ymd_hms_to_unix_eq hy hmp hmp' ⟨hD0, by omega⟩, CivilTime.stamp, Date.number_march c.date hy hmp]
  rfl

/-! ## `unix_to_ymd_hms` inverts it -/

/-- The last day of a year that begins in March is a leap day. -/
theorem leap_of_last_day {doe yoe : Int} (h0 : 0 ≤ doe) (h1 : doe < 146097)
    (hy : yoe = (doe - doe / 1460 + doe / 36524 - doe / 146096) / 365)
    (hlast : doe - (365 * yoe + yoe / 4 - yoe / 100) = 365) : IsLeap (yoe + 1) := by
  obtain ⟨hy0, hy1, -, -⟩ := year_of_era doe yoe h0 h1 hy
  by_contra hleap
  have hyoe : yoe < 399 := by
    rcases Int.lt_or_eq_of_le (show yoe ≤ 399 by omega) with h | rfl
    · exact h
    · exact absurd (by decide) hleap
  unfold IsLeap at hleap
  -- The day would be the first of the next year, and the year of the era no less than that.
  have hleaps : (yoe + 1) / 4 - (yoe + 1) / 100 = yoe / 4 - yoe / 100 := by
    by_cases h4 : (yoe + 1) % 4 = 0
    · have h100 : (yoe + 1) % 100 = 0 := by omega
      omega
    · have h100 : (yoe + 1) % 100 ≠ 0 := by omega
      have hq : (yoe + 1) / 4 = yoe / 4 := by omega
      omega
  have hfour : doe / 1460 ≤ (yoe + 1) / 4 := by omega
  have hcentury : (yoe + 1) / 100 ≤ doe / 36524 := by omega
  have hera : doe / 146096 = 0 := by omega
  omega

/-- The date that is computed exists. -/
theorem unix_to_ymd_hms_valid {t : Int} (ht : Representable t) : (unix_to_ymd_hms t).Valid := by
  obtain ⟨hdoe0, hdoe1⟩ := doe_range t
  obtain ⟨hy0, hy1, hd0, hd1⟩ := year_range t
  obtain ⟨hm0, hm1⟩ := month_range t
  obtain ⟨-, -, hyoe, hdoy, hmp, -⟩ := parts_eq t
  have hleap := leap_of_last_day hdoe0 hdoe1 hyoe
  rw [← hdoy] at hleap
  obtain ⟨M, hM⟩ : ∃ M, M = if mpOf t < 10 then mpOf t + 3 else mpOf t - 9 := ⟨_, rfl⟩
  have hmonth : 1 ≤ M ∧ M ≤ 12 := by split at hM <;> omega
  have hday : 1 ≤ doyOf t - (153 * mpOf t + 2) / 5 + 1 ∧ doyOf t - (153 * mpOf t + 2) / 5 + 1 ≤
      monthLength (yoeOf t + eraOf t * 400 + if M ≤ 2 then 1 else 0) M := by
    refine ⟨by omega, ?_⟩
    by_cases hfeb : M = 2
    · have h11 : mpOf t = 11 := by split at hM <;> omega
      rw [hfeb, h11, monthLength_february, if_pos (show (2 : Int) ≤ 2 by decide), Int.add_right_comm]
      by_cases hlast : IsLeap (yoeOf t + 1 + eraOf t * 400)
      · rw [if_pos hlast]
        omega
      · have hno : doyOf t ≠ 365 := fun h => hlast ((isLeap_era _ _).2 (hleap h))
        rw [if_neg hlast]
        omega
    · rw [monthLength_march _ hmonth hfeb (show mpOf t = M + if M > 2 then -3 else 9 by
        split at hM <;> split <;> omega)]
      omega
  have hh : 0 ≤ t % 86400 / 3600 ∧ t % 86400 / 3600 < 24 := by omega
  have hm : 0 ≤ t % 86400 % 3600 / 60 ∧ t % 86400 % 3600 / 60 < 60 := by omega
  have hs : 0 ≤ t % 86400 % 60 ∧ t % 86400 % 60 < 60 := by omega
  rw [unix_to_ymd_hms_eq ht, ← hM]
  exact ⟨hmonth, hday, hh, hm, hs⟩

/-- There and back, on the representable times. -/
theorem to_unix_of_unix {t : Int} (ht : Representable t) : (unix_to_ymd_hms t).to_unix = t := by
  obtain ⟨era, yoe, doy, mp, hc⟩ := civil_of ht
  rw [Civil.to_unix, ymd_hms_to_unix_of hc, hc.hour, hc.minute, hc.second]
  omega

theorem unix_to_ymd_hms_ofStamp {t : Int} (ht : Representable t) : unix_to_ymd_hms t = (CivilTime.ofStamp t).1 := by
  have hstamp : CivilTime.stamp ⟨unix_to_ymd_hms t, unix_to_ymd_hms_valid ht⟩ = t := by
    rw [← to_unix_stamp, to_unix_of_unix ht]
  have h := CivilTime.ofStamp_stamp ⟨unix_to_ymd_hms t, unix_to_ymd_hms_valid ht⟩
  rw [hstamp] at h
  rw [h]

theorem unix_to_ymd_hms_strictMonoOn : StrictMonoOn unix_to_ymd_hms {t | Representable t} := by
  intro t ht u hu h
  rw [unix_to_ymd_hms_ofStamp ht, unix_to_ymd_hms_ofStamp hu]
  exact CivilTime.ofStamp_strictMono h

theorem to_unix_strictMonoOn : StrictMonoOn Civil.to_unix {c | c.Valid} := by
  intro c hc d hd h
  rw [to_unix_stamp ⟨c, hc⟩, to_unix_stamp ⟨d, hd⟩]
  exact CivilTime.stamp_strictMono h

/-! ## No overflow -/

/-- On a civil time with a representable time stamp no 32-bit operation overflows, in either direction. -/
theorem civil_checked {c : CivilTime} (ht : Representable c.stamp) :
    unix_to_ymd_hms_checked c.stamp = some c.1 ∧
      ymd_hms_to_unix_checked c.1.Y c.1.M c.1.D c.1.h c.1.m c.1.s = some c.stamp := by
  have hc := unix_to_ymd_hms_ofStamp ht
  rw [CivilTime.ofStamp_stamp] at hc
  obtain ⟨era, yoe, doy, mp, hparts⟩ := civil_of ht
  rw [hc] at hparts
  refine ⟨by rw [unix_to_ymd_hms_checked_eq ht, hc], ?_⟩
  rw [ymd_hms_to_unix_checked_eq hparts c.2.hour c.2.minute]
  exact congrArg some (to_unix_stamp c)

/-! ## The daily slot on the calendar -/

/-- The civil time `c` is at `hour`:`minute` sharp. -/
def Civil.At (minute hour : Int) (c : Civil) : Prop := c.h = hour ∧ c.m = minute ∧ c.s = 0

theorem at_of_slot {cron : Bytes} {minute hour t : Int} (h : cronSlot cron = some (minute, hour))
    (ht : t % 86400 = hour * 3600 + minute * 60) : (CivilTime.ofStamp t).1.At minute hour := by
  obtain ⟨hmin0, hmin1, hhour0, hhour1⟩ := cronSlot_range h
  have htime := (CivilTime.stamp_parts (CivilTime.ofStamp t)).2
  rw [CivilTime.stamp_ofStamp, ht] at htime
  have hh := (CivilTime.ofStamp t).2.hour
  have hm := (CivilTime.ofStamp t).2.minute
  have hs := (CivilTime.ofStamp t).2.second
  unfold Civil.At
  omega

theorem slotOn_parts {cron : Bytes} {minute hour : Int} (h : cronSlot cron = some (minute, hour)) (now : Int) :
    slotOn minute hour now / 86400 = now / 86400 ∧
      slotOn minute hour now % 86400 = hour * 3600 + minute * 60 := by
  have hrange := cronSlot_range h
  unfold slotOn
  omega

/-- The slot of a cron text is today, at its time of day. -/
theorem next_run_civil {cron : Bytes} {minute hour now : Int} (h : cronSlot cron = some (minute, hour))
    (ht : Representable now) :
    (CivilTime.ofStamp (eink_cron_next_run (some cron) now)).date = (CivilTime.ofStamp now).date ∧
      (CivilTime.ofStamp (eink_cron_next_run (some cron) now)).1.At minute hour := by
  obtain ⟨hday, htime⟩ := slotOn_parts h now
  rw [next_run_of_slot h ht]
  exact ⟨by rw [CivilTime.date_ofStamp, CivilTime.date_ofStamp, hday], at_of_slot h htime⟩

/-- The date of a time one day later. -/
theorem date_tomorrow (t : Int) : (CivilTime.ofStamp (t + 86400)).date = (CivilTime.ofStamp t).date.tomorrow := by
  have hnumber := (CivilTime.stamp_parts (CivilTime.ofStamp t)).1
  have hlater := (CivilTime.stamp_parts (CivilTime.ofStamp (t + 86400))).1
  rw [CivilTime.stamp_ofStamp] at hnumber hlater
  apply Date.number_strictMono.injective
  rw [Date.number_tomorrow, hlater, hnumber]
  omega

/-- The next slot after `now` is today, or tomorrow if today's is over. -/
theorem next_after_civil {cron : Bytes} {minute hour now : Int} (h : cronSlot cron = some (minute, hour))
    (ht : Representable now) :
    (CivilTime.ofStamp (eink_cron_next_after (some cron) now)).date =
        (if eink_cron_next_run (some cron) now > now then (CivilTime.ofStamp now).date
        else (CivilTime.ofStamp now).date.tomorrow) ∧
      (CivilTime.ofStamp (eink_cron_next_after (some cron) now)).1.At minute hour := by
  obtain ⟨htoday, hat⟩ := next_run_civil h ht
  unfold eink_cron_next_after
  dsimp only
  split
  · exact ⟨htoday, hat⟩
  · refine ⟨by rw [date_tomorrow, htoday], at_of_slot h ?_⟩
    rw [next_run_of_slot h ht, Int.add_emod_right]
    exact (slotOn_parts h now).2

end EinkNode.Scheduler
