import EinkNode.Lib.CInt
import EinkNode.Lib.Decimal
import EinkNode.Lib.Latest
import Mathlib.Data.Int.Order.Basic
/-!
# The scheduler core

The pure functions of `eink_scheduler_core.c`: civil dates, the daily cron
slot, and the choice of the job to show. Times are UTC seconds as `Int`; the
32-bit intermediates of the date arithmetic are explicit, and `Representable`
is the range in which none of them overflows.
-/
open NodeLib

namespace EinkNode.Scheduler

def EINK_MAX_JOBS : Nat := 32
def EINK_ID_MAX : Nat := 64
def EINK_CRON_MAX : Nat := 32

abbrev Id := CStr EINK_ID_MAX

structure Job where
  job_id : Id
  image_id : Id
  cron : CStr EINK_CRON_MAX
  next_run_unix : Int
deriving DecidableEq

/-- `struct eink_schedule`: the first `count` entries of the job table. -/
structure Schedule where
  jobs : List Job
  bound : jobs.length ≤ EINK_MAX_JOBS
deriving DecidableEq

def Schedule.empty : Schedule := ⟨[], by decide⟩

/-- The jobs that the table has room for. -/
def Schedule.take (jobs : List Job) : Schedule := ⟨jobs.take EINK_MAX_JOBS, List.length_take_le _ _⟩

/-- Rewrite every job in place. -/
def Schedule.map (f : Job → Job) (s : Schedule) : Schedule := ⟨s.jobs.map f, by simpa using s.bound⟩

@[simp] theorem Schedule.jobs_empty : Schedule.empty.jobs = [] := rfl

@[simp] theorem Schedule.jobs_map (f : Job → Job) (s : Schedule) : (s.map f).jobs = s.jobs.map f := rfl

/-! ## Civil dates -/

/-- Year, month, day, hour, minute and second. -/
structure Civil where
  Y : Int
  M : Int
  D : Int
  h : Int
  m : Int
  s : Int
deriving DecidableEq, Repr

def unix_to_ymd_hms (t : Int) : Civil :=
  let rem := if t.tmod 86400 < 0 then t.tmod 86400 + 86400 else t.tmod 86400
  let days := (if t.tmod 86400 < 0 then t.tdiv 86400 - 1 else t.tdiv 86400) + 719468
  let era := (if days ≥ 0 then days else days - 146096).tdiv 146097
  let doe := toUInt32 (days - era * 146097)
  let yoe := toUInt32 (doe - doe / 1460 + doe / 36524 - doe / 146096) / 365
  let y := toInt32 (toInt32 yoe + toInt32 (era * 400))
  let doy := toUInt32 (doe - toUInt32 (365 * yoe + yoe / 4 - yoe / 100))
  let mp := toUInt32 (5 * doy + 2) / 153
  let M := toInt32 (toUInt32 (if mp < 10 then mp + 3 else mp - 9))
  { Y := toInt32 (y + if M ≤ 2 then 1 else 0)
    M := M
    D := toInt32 (toUInt32 (doy - toUInt32 (153 * mp + 2) / 5 + 1))
    h := toInt32 (rem.tdiv 3600)
    m := toInt32 ((rem.tmod 3600).tdiv 60)
    s := toInt32 (rem.tmod 60) }

def ymd_hms_to_unix (Y M D h m s : Int) : Int :=
  let y := if M ≤ 2 then Y - 1 else Y
  let era := (if y ≥ 0 then y else y - 399).tdiv 400
  let yoe := toUInt32 (y - era * 400)
  let doy := toUInt32 (toUInt32 (153 * toUInt32 (M + if M > 2 then -3 else 9) + 2) / 5 + toUInt32 D - 1)
  let doe := toUInt32 (yoe * 365 + yoe / 4 - yoe / 100 + doy)
  let days := era * 146097 + doe - 719468
  days * 86400 + h * 3600 + m * 60 + s

/-- The times for which no 32-bit intermediate of the date arithmetic overflows. -/
def Representable (t : Int) : Prop := -(2 ^ 55) < t ∧ t < 2 ^ 55

instance (t : Int) : Decidable (Representable t) := inferInstanceAs (Decidable (_ ∧ _))

/-- The year of the era and the day of the year that belong to a day of the era. -/
theorem year_of_era (doe yoe : Int) (h0 : 0 ≤ doe) (h1 : doe < 146097)
    (hy : yoe = (doe - doe / 1460 + doe / 36524 - doe / 146096) / 365) :
    0 ≤ yoe ∧ yoe < 400 ∧ 0 ≤ doe - (365 * yoe + yoe / 4 - yoe / 100) ∧
      doe - (365 * yoe + yoe / 4 - yoe / 100) < 366 := by
  -- `omega` needs the century fixed before it sees how `yoe` follows `doe`.
  have hd : doe / 36524 = 0 ∨ doe / 36524 = 1 ∨ doe / 36524 = 2 ∨ doe / 36524 = 3 ∨ doe / 36524 = 4 := by
    omega
  have he : doe / 146096 = 0 ∨ doe / 146096 = 1 := by omega
  rcases he with he | he
  · rw [he] at hy
    have hg : yoe / 100 = doe / 36524 := by
      rcases hd with hd | hd | hd | hd | hd <;> rw [hd] at hy ⊢ <;> omega
    have hf : yoe / 4 = doe / 1460 ∨ yoe / 4 = doe / 1460 - 1 := by
      rcases hd with hd | hd | hd | hd | hd <;> rw [hd] at hy <;> omega
    refine ⟨by omega, by omega, ?_⟩
    rw [hg]
    rcases hf with hf | hf <;> rw [hf] <;>
      rcases hd with hd | hd | hd | hd | hd <;> rw [hd] at hy ⊢ <;> omega
  · have : doe = 146096 := by omega
    subst this; omega

/-- What `unix_to_ymd_hms` computes: the date of the era, year of the era and
month (counted from March) that the day falls into. -/
structure CivilOf (t : Int) (c : Civil) (era yoe doy mp : Int) : Prop where
  yoe_range : 0 ≤ yoe ∧ yoe < 400
  doy_range : 0 ≤ doy ∧ doy < 366
  mp_eq : mp = (5 * doy + 2) / 153
  day : t / 86400 + 719468 = era * 146097 + (yoe * 365 + yoe / 4 - yoe / 100 + doy)
  year : c.Y = yoe + era * 400 + if c.M ≤ 2 then 1 else 0
  month : c.M = if mp < 10 then mp + 3 else mp - 9
  dom : c.D = doy - (153 * mp + 2) / 5 + 1
  hour : c.h = t % 86400 / 3600
  minute : c.m = t % 86400 % 3600 / 60
  second : c.s = t % 86400 % 60

/-! The parts of a day count, in unbounded numbers: the day itself, counted from March of the year 0, its era
of 400 years, its day of the era, year of the era, day of the year and month (0 is March). -/

def dayOf (t : Int) : Int := t / 86400 + 719468

def eraOf (t : Int) : Int := dayOf t / 146097

def doeOf (t : Int) : Int := dayOf t - eraOf t * 146097

def yoeOf (t : Int) : Int := (doeOf t - doeOf t / 1460 + doeOf t / 36524 - doeOf t / 146096) / 365

def doyOf (t : Int) : Int := doeOf t - (365 * yoeOf t + yoeOf t / 4 - yoeOf t / 100)

def mpOf (t : Int) : Int := (5 * doyOf t + 2) / 153

theorem doe_range (t : Int) : 0 ≤ doeOf t ∧ doeOf t < 146097 := by
  unfold doeOf eraOf
  omega

theorem year_range (t : Int) : 0 ≤ yoeOf t ∧ yoeOf t < 400 ∧ 0 ≤ doyOf t ∧ doyOf t < 366 :=
  year_of_era (doeOf t) (yoeOf t) (doe_range t).1 (doe_range t).2 rfl

theorem month_range (t : Int) : 0 ≤ mpOf t ∧ mpOf t ≤ 11 := by
  have := year_range t
  unfold mpOf
  omega

/-- The era of a representable time is small enough for the years to fit an `int`. -/
theorem era_range {t : Int} (ht : Representable t) : -3000000 < eraOf t ∧ eraOf t < 3000000 := by
  obtain ⟨hlo, hhi⟩ := ht
  unfold eraOf dayOf
  omega

/-- How each part comes from the one before. -/
theorem parts_eq (t : Int) :
    dayOf t = t / 86400 + 719468 ∧ doeOf t = dayOf t - eraOf t * 146097 ∧
      yoeOf t = (doeOf t - doeOf t / 1460 + doeOf t / 36524 - doeOf t / 146096) / 365 ∧
      doyOf t = doeOf t - (365 * yoeOf t + yoeOf t / 4 - yoeOf t / 100) ∧ mpOf t = (5 * doyOf t + 2) / 153 ∧
      (if dayOf t ≥ 0 then dayOf t else dayOf t - 146096).tdiv 146097 = eraOf t :=
  ⟨rfl, rfl, rfl, rfl, rfl, tdiv_shifted (dayOf t) (show (0 : Int) < 146097 by decide)⟩

/-- What is computed, without the conversions: none changes a value of a representable time. -/
theorem unix_to_ymd_hms_eq {t : Int} (ht : Representable t) :
    unix_to_ymd_hms t =
      { Y := yoeOf t + eraOf t * 400 + if (if mpOf t < 10 then mpOf t + 3 else mpOf t - 9) ≤ 2 then 1 else 0
        M := if mpOf t < 10 then mpOf t + 3 else mpOf t - 9
        D := doyOf t - (153 * mpOf t + 2) / 5 + 1
        h := t % 86400 / 3600
        m := t % 86400 % 3600 / 60
        s := t % 86400 % 60 } := by
  have hrem0 := Int.emod_nonneg t (show (86400 : Int) ≠ 0 by decide)
  have hrem1 := Int.emod_lt_of_pos t (show (0 : Int) < 86400 by decide)
  obtain ⟨hdays, hdoe, hyoe, hdoy, hmp, hshift⟩ := parts_eq t
  obtain ⟨hdoe0, hdoe1⟩ := doe_range t
  obtain ⟨hy0, hy1, hd0, hd1⟩ := year_range t
  obtain ⟨he0, he1⟩ := era_range ht
  generalize dayOf t = days at *
  generalize eraOf t = era at *
  generalize doeOf t = doe at *
  generalize yoeOf t = yoe at *
  generalize doyOf t = doy at *
  generalize mpOf t = mp at *
  -- No cast changes a value in this range.
  have e1 : toUInt32 (days - era * 146097) = doe := by
    rw [← hdoe]
    exact toUInt32_of_fits hdoe0 (by omega)
  have e2 : toUInt32 (doe - doe / 1460 + doe / 36524 - doe / 146096) =
      doe - doe / 1460 + doe / 36524 - doe / 146096 := toUInt32_of_fits (by omega) (by omega)
  have e3 : toUInt32 (365 * yoe + yoe / 4 - yoe / 100) = 365 * yoe + yoe / 4 - yoe / 100 :=
    toUInt32_of_fits (by omega) (by omega)
  have e4 : toUInt32 (doe - (365 * yoe + yoe / 4 - yoe / 100)) = doy := by
    rw [← hdoy]
    exact toUInt32_of_fits hd0 (by omega)
  have e5 : toUInt32 (5 * doy + 2) = 5 * doy + 2 := toUInt32_of_fits (by omega) (by omega)
  have hM : toInt32 (toUInt32 (if mp < 10 then mp + 3 else mp - 9)) = if mp < 10 then mp + 3 else mp - 9 := by
    rw [toUInt32_of_fits (by split <;> omega) (by split <;> omega),
      toInt32_of_fits (by split <;> omega) (by split <;> omega)]
  have hD : toInt32 (toUInt32 (doy - toUInt32 (153 * mp + 2) / 5 + 1)) = doy - (153 * mp + 2) / 5 + 1 := by
    rw [toUInt32_of_fits (x := 153 * mp + 2) (by omega) (by omega), toUInt32_of_fits (by omega) (by omega),
      toInt32_of_fits (by omega) (by omega)]
  have hy : toInt32 (toInt32 yoe + toInt32 (era * 400)) = yoe + era * 400 := by
    rw [toInt32_of_fits (x := yoe) (by omega) (by omega), toInt32_of_fits (x := era * 400) (by omega) (by omega),
      toInt32_of_fits (by omega) (by omega)]
  unfold unix_to_ymd_hms
  simp only [tmod_corrected t (show (0 : Int) < 86400 by decide),
    tdiv_corrected t (show (0 : Int) < 86400 by decide), ← hdays]
  simp only [hshift, e1, e2, ← hyoe, e3, e4, e5, ← hmp, hM, hD, hy]
  rw [toInt32_of_fits (x := yoe + era * 400 + _) (by split <;> omega) (by split <;> omega),
    Int.tdiv_eq_ediv_of_nonneg hrem0, Int.tmod_eq_emod_of_nonneg hrem0, Int.tmod_eq_emod_of_nonneg hrem0,
    Int.tdiv_eq_ediv_of_nonneg (by omega), toInt32_of_fits (by omega) (by omega),
    toInt32_of_fits (by omega) (by omega), toInt32_of_fits (by omega) (by omega)]

theorem civil_of {t : Int} (ht : Representable t) :
    ∃ era yoe doy mp, CivilOf t (unix_to_ymd_hms t) era yoe doy mp := by
  obtain ⟨hy0, hy1, hd0, hd1⟩ := year_range t
  have hc := unix_to_ymd_hms_eq ht
  refine ⟨eraOf t, yoeOf t, doyOf t, mpOf t, ⟨⟨hy0, hy1⟩, ⟨hd0, hd1⟩, rfl, ?_, ?_, ?_, ?_, ?_, ?_, ?_⟩⟩
  · obtain ⟨hdays, hdoe, -, hdoy, -⟩ := parts_eq t
    omega
  all_goals rw [hc]

/-- What the way back makes of a date. -/
theorem CivilOf.back {t : Int} {c : Civil} {era yoe doy mp : Int} (hc : CivilOf t c era yoe doy mp) :
    0 ≤ mp ∧ mp ≤ 11 ∧ (if c.M ≤ 2 then c.Y - 1 else c.Y) = yoe + era * 400 ∧
      (if yoe + era * 400 ≥ 0 then yoe + era * 400 else yoe + era * 400 - 399).tdiv 400 = era ∧
      c.M + (if c.M > 2 then -3 else 9) = mp ∧ (153 * mp + 2) / 5 + c.D - 1 = doy := by
  obtain ⟨⟨hy0, hy1⟩, ⟨hd0, hd1⟩, hmp, hday, hY, hM, hD, -, -, -⟩ := hc
  have hmp0 : 0 ≤ mp := by omega
  have hmp1 : mp ≤ 11 := by omega
  refine ⟨hmp0, hmp1, ?_, ?_, ?_, by omega⟩
  · rw [hY]
    split <;> omega
  · have hshifted := tdiv_shifted (yoe + era * 400) (show (0 : Int) < 400 by decide)
    rw [show (400 : Int) - 1 = 399 from rfl] at hshifted
    rw [hshifted]
    omega
  · rw [hM]
    split <;> split <;> omega

/-- What `ymd_hms_to_unix` computes, without the conversions: none changes a value of a month and day that exist. -/
theorem ymd_hms_to_unix_eq {Y M D y mp : Int} (hy : y = if M ≤ 2 then Y - 1 else Y)
    (hmp : mp = M + if M > 2 then -3 else 9) (hmp' : 0 ≤ mp ∧ mp ≤ 11) (hD : 1 ≤ D ∧ D ≤ 31) (h m s : Int) :
    ymd_hms_to_unix Y M D h m s =
      (y / 400 * 146097 + (y % 400 * 365 + y % 400 / 4 - y % 400 / 100 + ((153 * mp + 2) / 5 + D - 1)) - 719468) *
        86400 + h * 3600 + m * 60 + s := by
  have hera : (if y ≥ 0 then y else y - 399).tdiv 400 = y / 400 := tdiv_shifted y (show (0 : Int) < 400 by decide)
  have hyoe : toUInt32 (y - y / 400 * 400) = y % 400 := by
    rw [toUInt32_of_fits (by omega) (by omega)]
    omega
  have hdoy : toUInt32 (toUInt32 (153 * toUInt32 mp + 2) / 5 + toUInt32 D - 1) = (153 * mp + 2) / 5 + D - 1 := by
    rw [toUInt32_of_fits (x := mp) (by omega) (by omega), toUInt32_of_fits (x := 153 * mp + 2) (by omega) (by omega),
      toUInt32_of_fits (x := D) (by omega) (by omega), toUInt32_of_fits (by omega) (by omega)]
  have hdoe : toUInt32 (y % 400 * 365 + y % 400 / 4 - y % 400 / 100 + ((153 * mp + 2) / 5 + D - 1)) =
      y % 400 * 365 + y % 400 / 4 - y % 400 / 100 + ((153 * mp + 2) / 5 + D - 1) :=
    toUInt32_of_fits (by omega) (by omega)
  simp only [ymd_hms_to_unix, ← hy, ← hmp, hera, hyoe, hdoy, hdoe]

/-- Going back from a date gives the day it came from, at any time of day. -/
theorem ymd_hms_to_unix_of {t : Int} {c : Civil} {era yoe doy mp : Int} (hc : CivilOf t c era yoe doy mp)
    (h m s : Int) : ymd_hms_to_unix c.Y c.M c.D h m s = t / 86400 * 86400 + h * 3600 + m * 60 + s := by
  obtain ⟨hmp0, hmp1, hy, -, hmon, hdom⟩ := hc.back
  obtain ⟨⟨hy0, hy1⟩, ⟨hd0, hd1⟩, hmp, hday, -, -, hD, -, -, -⟩ := hc
  have hera : (yoe + era * 400) / 400 = era := by omega
  have hyoe : (yoe + era * 400) % 400 = yoe := by omega
  rw [ymd_hms_to_unix_eq hy.symm hmon.symm ⟨hmp0, hmp1⟩ (by omega), hera, hyoe, hdom]
  omega

/-! ## The daily cron slot -/

/-- The minute and hour of a cron text, when both scan and are in range. -/
def cronSlot (cron : Bytes) : Option (Int × Int) :=
  match scanTwoInts cron with
  | none => none
  | some (minute, hour) =>
    if minute < 0 ∨ minute > 59 ∨ hour < 0 ∨ hour > 23 then none else some (minute, hour)

def eink_cron_next_run (cron : Option Bytes) (now_unix : Int) : Int :=
  match cron with
  | none => now_unix + 3600
  | some cron =>
    match scanTwoInts cron with
    | none => now_unix + 3600
    | some (minute, hour) =>
      if minute < 0 ∨ minute > 59 ∨ hour < 0 ∨ hour > 23 then now_unix + 3600
      else
        let c := unix_to_ymd_hms now_unix
        -- Today's slot, which may already be over.
        ymd_hms_to_unix c.Y c.M c.D hour minute 0

def eink_cron_next_after (cron : Option Bytes) (now_unix : Int) : Int :=
  let today := eink_cron_next_run cron now_unix
  if today > now_unix then today else today + 86400

/-- The slot `minute`, `hour` on the UTC day of `now`. -/
def slotOn (minute hour now : Int) : Int := now / 86400 * 86400 + hour * 3600 + minute * 60

theorem cronSlot_range {cron : Bytes} {minute hour : Int} (h : cronSlot cron = some (minute, hour)) :
    0 ≤ minute ∧ minute ≤ 59 ∧ 0 ≤ hour ∧ hour ≤ 23 := by
  unfold cronSlot at h
  split at h
  · cases h
  · split at h
    · cases h
    · cases h; omega

theorem next_run_of_slot {cron : Bytes} {minute hour : Int} (h : cronSlot cron = some (minute, hour))
    {now : Int} (ht : Representable now) : eink_cron_next_run (some cron) now = slotOn minute hour now := by
  obtain ⟨era, yoe, doy, mp, hc⟩ := civil_of ht
  unfold cronSlot at h
  unfold eink_cron_next_run
  split at h
  · cases h
  · next m hr hscan =>
    split at h
    · cases h
    · next hrange =>
      cases h
      simp only [hscan, if_neg hrange]
      rw [ymd_hms_to_unix_of hc, slotOn]; omega

theorem next_run_of_none {cron : Bytes} (h : cronSlot cron = none) (now : Int) :
    eink_cron_next_run (some cron) now = now + 3600 := by
  unfold cronSlot at h
  unfold eink_cron_next_run
  split at h
  · next hscan => simp [hscan]
  · next m hr hscan =>
    split at h
    · next hrange => simp only [hscan, if_pos hrange]
    · cases h

-- 2024-01-01 13:00, slot 12:30.
example : eink_cron_next_run (some (ascii "30 12 * * *")) (1704067200 + 13 * 3600) =
    1704067200 + 12 * 3600 + 30 * 60 := by decide

/-! ## Wakeups and decisions -/

def eink_scheduler_next_wakeup (sched : Option Schedule) (now_unix : Int) (poll_interval_sec : UInt32) : Int :=
  let poll : Int := if poll_interval_sec = 0 then 300 else poll_interval_sec.toNat
  let best := match sched with
    | none => -1
    | some sched => sched.jobs.foldl (fun best j =>
        let t := eink_cron_next_after (some j.cron.val) now_unix
        if best < 0 ∨ t < best then t else best) (-1)
  let poll_deadline := now_unix + poll
  let best := if best < 0 ∨ poll_deadline < best then poll_deadline else best
  -- Avoid spin if clock/cron glitch.
  if best < now_unix + 60 then now_unix + 60 else best

/-- `struct eink_sched_decision`. -/
inductive Decision where
  | NOP
  | SHOW (job_index : Nat)
deriving DecidableEq

/-- The loop of `eink_scheduler_decide`: the latest overdue job, with its `next_run_unix`. -/
def overdue (sched : Schedule) (now_unix : Int) : Option (Int × Nat) :=
  latest (fun j => decide (j.next_run_unix ≤ now_unix)) (·.next_run_unix) sched.jobs

def eink_scheduler_decide (sched : Option Schedule) (now_unix : Int) (last_displayed_job_id : Option Bytes) :
    Decision :=
  match sched with
  | none => .NOP
  | some sched =>
    match overdue sched now_unix with
    | none => .NOP
    | some (_, best_i) =>
      let best_id := sched.jobs[best_i]?.map (·.job_id.val)
      match last_displayed_job_id with
      | none => .SHOW best_i
      | some id => if id ≠ [] ∧ best_id = some id then .NOP else .SHOW best_i

end EinkNode.Scheduler
