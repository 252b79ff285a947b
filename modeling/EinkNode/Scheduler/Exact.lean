import EinkNode.Scheduler.Core
import Mathlib.Order.Bounds.Basic
/-!
# The daily slot is exact

The date arithmetic once more, with every 32-bit operation checked: for the
representable times none of them overflows. The slot of a cron text is then the
one second of the UTC day of `now` with its time of day, and the next one after
`now` is the least such second to come.
-/
open NodeLib

namespace EinkNode.Scheduler

/-! ## Checked arithmetic -/

/-- `unix_to_ymd_hms`, or nothing if a 32-bit operation or conversion overflows. -/
def unix_to_ymd_hms_checked (t : Int) : Option Civil := do
  let rem := if t.tmod 86400 < 0 then t.tmod 86400 + 86400 else t.tmod 86400
  let days := (if t.tmod 86400 < 0 then t.tdiv 86400 - 1 else t.tdiv 86400) + 719468
  let h ← intOp (rem.tdiv 3600)
  let m ← intOp ((rem.tmod 3600).tdiv 60)
  let s ← intOp (rem.tmod 60)
  let era := (if days ≥ 0 then days else days - 146096).tdiv 146097
  let doe ← uintOp (days - era * 146097)
  let yoe ← uintOp (doe - doe / 1460)
  let yoe ← uintOp (yoe + doe / 36524)
  let yoe ← uintOp (yoe - doe / 146096)
  let yoe := yoe / 365
  let y ← intOp yoe
  let era_years ← intOp (era * 400)
  let y ← intOp (y + era_years)
  let doy ← uintOp (365 * yoe)
  let doy ← uintOp (doy + yoe / 4)
  let doy ← uintOp (doy - yoe / 100)
  let doy ← uintOp (doe - doy)
  let mp ← uintOp (5 * doy)
  let mp ← uintOp (mp + 2)
  let mp := mp / 153
  let dom ← uintOp (153 * mp)
  let dom ← uintOp (dom + 2)
  let dom ← uintOp (doy - dom / 5)
  let dom ← uintOp (dom + 1)
  let D ← intOp dom
  let month ← uintOp (if mp < 10 then mp + 3 else mp - 9)
  let M ← intOp month
  let Y ← intOp (y + if M ≤ 2 then 1 else 0)
  pure ⟨Y, M, D, h, m, s⟩

/-- `ymd_hms_to_unix`, or nothing if a 32-bit operation or conversion overflows. -/
def ymd_hms_to_unix_checked (Y M D h m s : Int) : Option Int := do
  let y := if M ≤ 2 then Y - 1 else Y
  let era := (if y ≥ 0 then y else y - 399).tdiv 400
  let yoe ← uintOp (y - era * 400)
  let month ← intOp (M + if M > 2 then -3 else 9)
  let month ← uintOp month
  let doy ← uintOp (153 * month)
  let doy ← uintOp (doy + 2)
  let dom ← uintOp D
  let doy ← uintOp (doy / 5 + dom)
  let doy ← uintOp (doy - 1)
  let doe ← uintOp (yoe * 365)
  let doe ← uintOp (doe + yoe / 4)
  let doe ← uintOp (doe - yoe / 100)
  let doe ← uintOp (doe + doy)
  let days := era * 146097 + doe - 719468
  let hours ← intOp (h * 3600)
  let minutes ← intOp (m * 60)
  pure (days * 86400 + hours + minutes + s)

/-- `eink_cron_next_run` in checked arithmetic. -/
def eink_cron_next_run_checked (cron : Option Bytes) (now_unix : Int) : Option Int :=
  match cron with
  | none => some (now_unix + 3600)
  | some cron =>
    match scanTwoInts cron with
    | none => some (now_unix + 3600)
    | some (minute, hour) =>
      if minute < 0 ∨ minute > 59 ∨ hour < 0 ∨ hour > 23 then some (now_unix + 3600)
      else do
        let c ← unix_to_ymd_hms_checked now_unix
        ymd_hms_to_unix_checked c.Y c.M c.D hour minute 0

theorem unix_to_ymd_hms_checked_eq {t : Int} (ht : Representable t) :
    unix_to_ymd_hms_checked t = some (unix_to_ymd_hms t) := by
  have hrem0 := Int.emod_nonneg t (show (86400 : Int) ≠ 0 by decide)
  have hrem1 := Int.emod_lt_of_pos t (show (0 : Int) < 86400 by decide)
  obtain ⟨hdays, hdoe, hyoe, hdoy, hmp, hshift⟩ := parts_eq t
  obtain ⟨hdoe0, hdoe1⟩ := doe_range t
  obtain ⟨hy0, hy1, hd0, hd1⟩ := year_range t
  obtain ⟨hm0, hm1⟩ := month_range t
  obtain ⟨he0, he1⟩ := era_range ht
  rw [unix_to_ymd_hms_eq ht]
  unfold unix_to_ymd_hms_checked
  simp only [tmod_corrected t (show (0 : Int) < 86400 by decide),
    tdiv_corrected t (show (0 : Int) < 86400 by decide), ← hdays, hshift]
  rw [Int.tdiv_eq_ediv_of_nonneg hrem0, Int.tmod_eq_emod_of_nonneg hrem0, Int.tmod_eq_emod_of_nonneg hrem0,
    Int.tdiv_eq_ediv_of_nonneg (by omega)]
  -- With the bounds at hand each operation is linear arithmetic about the names below.
  generalize dayOf t = days at *
  generalize eraOf t = era at *
  generalize doeOf t = doe at *
  generalize yoeOf t = yoe at *
  generalize doyOf t = doy at *
  generalize mpOf t = mp at *
  rw [intOp_bind (by omega) (by omega), intOp_bind (by omega) (by omega), intOp_bind (by omega) (by omega), ← hdoe,
    uintOp_bind hdoe0 (by omega), uintOp_bind (by omega) (by omega), uintOp_bind (by omega) (by omega),
    uintOp_bind (by omega) (by omega)]
  rw [← hyoe]
  rw [intOp_bind (by omega) (by omega), intOp_bind (by omega) (by omega), intOp_bind (by omega) (by omega)]
  rw [uintOp_bind (by omega) (by omega), uintOp_bind (by omega) (by omega), uintOp_bind (by omega) (by omega)]
  rw [← hdoy, uintOp_bind hd0 (by omega)]
  rw [uintOp_bind (by omega) (by omega), uintOp_bind (by omega) (by omega)]
  rw [← hmp]
  rw [uintOp_bind (by omega) (by omega), uintOp_bind (by omega) (by omega), uintOp_bind (by omega) (by omega),
    uintOp_bind (by omega) (by omega), intOp_bind (by omega) (by omega)]
  rw [uintOp_bind (by split <;> omega) (by split <;> omega), intOp_bind (by split <;> omega) (by split <;> omega),
    intOp_bind (by split <;> split <;> omega) (by split <;> split <;> omega)]
  rfl

theorem ymd_hms_to_unix_checked_eq {t : Int} {c : Civil} {era yoe doy mp : Int} (hc : CivilOf t c era yoe doy mp)
    {h m : Int} (hh : 0 ≤ h ∧ h < 24) (hm : 0 ≤ m ∧ m < 60) (s : Int) :
    ymd_hms_to_unix_checked c.Y c.M c.D h m s = some (ymd_hms_to_unix c.Y c.M c.D h m s) := by
  rw [ymd_hms_to_unix_of hc]
  obtain ⟨hmp0, hmp1, hy, hera, hmon, hdoy⟩ := hc.back
  obtain ⟨⟨hy0, hy1⟩, ⟨hd0, hd1⟩, hmp, hday, -, -, hD, -, -, -⟩ := hc
  unfold ymd_hms_to_unix_checked
  simp only [hy, hera, hmon, Int.add_sub_cancel]
  rw [uintOp_bind hy0 (by omega), intOp_bind (by omega) (by omega), uintOp_bind hmp0 (by omega),
    uintOp_bind (by omega) (by omega), uintOp_bind (by omega) (by omega), uintOp_bind (by omega) (by omega),
    uintOp_bind (by omega) (by omega), hdoy, uintOp_bind hd0 (by omega)]
  rw [uintOp_bind (by omega) (by omega), uintOp_bind (by omega) (by omega), uintOp_bind (by omega) (by omega),
    uintOp_bind (by omega) (by omega)]
  rw [intOp_bind (by omega) (by omega), intOp_bind (by omega) (by omega)]
  apply congrArg some
  omega

/-- No 32-bit operation of the date arithmetic overflows on a representable time. -/
theorem next_run_checked_eq (cron : Option Bytes) {now : Int} (ht : Representable now) :
    eink_cron_next_run_checked cron now = some (eink_cron_next_run cron now) := by
  obtain ⟨era, yoe, doy, mp, hc⟩ := civil_of ht
  unfold eink_cron_next_run_checked eink_cron_next_run
  cases cron with
  | none => rfl
  | some text =>
    cases hscan : scanTwoInts text with
    | none => simp only [hscan]
    | some slot =>
      obtain ⟨minute, hour⟩ := slot
      simp only [hscan]
      split
      · rfl
      · next hrange =>
        rw [unix_to_ymd_hms_checked_eq ht, Option.bind_eq_bind, Option.bind_some,
          ymd_hms_to_unix_checked_eq hc (by omega) (by omega)]

/-! ## The slot -/

/-- The second of the UTC day of `now` at `hour`:`minute`, and there is no other. -/
theorem slotOn_unique {minute hour now : Int} (hm : 0 ≤ minute ∧ minute ≤ 59) (hh : 0 ≤ hour ∧ hour ≤ 23) (t : Int) :
    t / 86400 = now / 86400 ∧ t % 86400 = 3600 * hour + 60 * minute ↔ t = slotOn minute hour now := by
  unfold slotOn
  constructor
  · rintro ⟨hday, htime⟩
    omega
  · rintro rfl
    omega

/-- The slot after `now` is today's or tomorrow's, whichever comes first. -/
theorem next_after_of_slot {cron : Bytes} {minute hour now : Int}
    (hm : 0 ≤ minute ∧ minute ≤ 59) (hh : 0 ≤ hour ∧ hour ≤ 23)
    (hrun : eink_cron_next_run (some cron) now = slotOn minute hour now) :
    IsLeast {t | now < t ∧ t % 86400 = 3600 * hour + 60 * minute} (eink_cron_next_after (some cron) now) := by
  have hslot : eink_cron_next_after (some cron) now =
      if slotOn minute hour now > now then slotOn minute hour now else slotOn minute hour now + 86400 := by
    unfold eink_cron_next_after
    rw [hrun]
  rw [hslot]
  unfold slotOn
  constructor
  · rw [Set.mem_ofPred_eq]
    split <;> omega
  · rintro t ⟨hnow, htime⟩
    split <;> omega

/-- A cron text whose two ints are a time of day. -/
def DailyAt (cron : Option Bytes) (minute hour : Int) : Prop :=
  ∃ text, cron = some text ∧ scanTwoInts text = some (minute, hour) ∧ 0 ≤ minute ∧ minute ≤ 59 ∧ 0 ≤ hour ∧ hour ≤ 23

theorem cronSlot_of_dailyAt {text : Bytes} {minute hour : Int} (hscan : scanTwoInts text = some (minute, hour))
    (hm : 0 ≤ minute ∧ minute ≤ 59) (hh : 0 ≤ hour ∧ hour ≤ 23) : cronSlot text = some (minute, hour) := by
  unfold cronSlot
  rw [hscan]
  simp only []
  rw [if_neg (by omega)]

/-- A cron text that is no time of day has no slot. -/
theorem cronSlot_of_not_dailyAt {text : Bytes} (h : ∀ minute hour, ¬ DailyAt (some text) minute hour) :
    cronSlot text = none := by
  cases hslot : cronSlot text with
  | none => rfl
  | some slot =>
    obtain ⟨minute, hour⟩ := slot
    have hrange := cronSlot_range hslot
    unfold cronSlot at hslot
    split at hslot
    · cases hslot
    · next m hr hscan =>
      split at hslot
      · cases hslot
      · cases hslot
        exact absurd ⟨text, rfl, hscan, hrange.1, hrange.2.1, hrange.2.2⟩ (h minute hour)

theorem next_run_of_not_dailyAt {cron : Option Bytes} (h : ∀ minute hour, ¬ DailyAt cron minute hour) (now : Int) :
    eink_cron_next_run cron now = now + 3600 ∧ eink_cron_next_after cron now = now + 3600 := by
  have hrun : eink_cron_next_run cron now = now + 3600 := by
    cases cron with
    | none => rfl
    | some text => exact next_run_of_none (cronSlot_of_not_dailyAt h) now
  refine ⟨hrun, ?_⟩
  unfold eink_cron_next_after
  rw [hrun]
  exact if_pos (by omega)

/-- The cron arithmetic is exact: a time of day gives its second of the UTC day of `now` and the least such second
after `now`, every other text an hour from `now`; and nothing overflows on the way. -/
theorem cron_exact {now : Int} (ht : Representable now) (cron : Option Bytes) :
    (∀ minute hour, DailyAt cron minute hour →
      (∀ t, t / 86400 = now / 86400 ∧ t % 86400 = 3600 * hour + 60 * minute ↔ t = eink_cron_next_run cron now) ∧
      IsLeast {t | now < t ∧ t % 86400 = 3600 * hour + 60 * minute} (eink_cron_next_after cron now)) ∧
    ((∀ minute hour, ¬ DailyAt cron minute hour) →
      eink_cron_next_run cron now = now + 3600 ∧ eink_cron_next_after cron now = now + 3600) ∧
    eink_cron_next_run_checked cron now = some (eink_cron_next_run cron now) := by
  refine ⟨?_, fun h => next_run_of_not_dailyAt h now, next_run_checked_eq cron ht⟩
  rintro minute hour ⟨text, rfl, hscan, hm0, hm1, hh0, hh1⟩
  have hrun := next_run_of_slot (cronSlot_of_dailyAt hscan ⟨hm0, hm1⟩ ⟨hh0, hh1⟩) ht
  constructor
  · intro t
    rw [hrun]
    exact slotOn_unique ⟨hm0, hm1⟩ ⟨hh0, hh1⟩ t
  · exact next_after_of_slot ⟨hm0, hm1⟩ ⟨hh0, hh1⟩ hrun

/-- 2024-01-01 13:00, with the slot at 12:30: today's slot is over, and the next one is tomorrow's. -/
theorem cron_exact_noon : eink_cron_next_run (some (ascii "30 12 * * *")) 1704114000 = 1704112200 ∧
    IsLeast {t | 1704114000 < t ∧ t % 86400 = 45000}
      (eink_cron_next_after (some (ascii "30 12 * * *")) 1704114000) := by
  have hdaily : DailyAt (some (ascii "30 12 * * *")) 30 12 :=
    ⟨_, rfl, by decide, by decide, by decide, by decide, by decide⟩
  have h := (cron_exact (show Representable 1704114000 by decide) (some (ascii "30 12 * * *"))).1 30 12 hdaily
  exact ⟨((h.1 1704112200).1 (by decide)).symm, h.2⟩

/-! ## Two ints are not two words -/

/-- The first two words of a text, between blanks. -/
def firstWords (s : Bytes) : Bytes × Bytes :=
  let s := s.dropWhile isSpace
  (s.takeWhile (!isSpace ·), ((s.dropWhile (!isSpace ·)).dropWhile isSpace).takeWhile (!isSpace ·))

/-- The first two words each begin with an int, and the ints are a time of day. -/
def WordsAt (text : Bytes) (minute hour : Int) : Prop :=
  (∃ rest, scanInt (firstWords text).1 = some (minute, rest)) ∧
    (∃ rest, scanInt (firstWords text).2 = some (hour, rest)) ∧ 0 ≤ minute ∧ minute ≤ 59 ∧ 0 ≤ hour ∧ hour ≤ 23

/-- A sign ends the first number: the words of `10+5 * * *` are no time of day, and yet it runs at 05:10. -/
theorem cron_exact_sign : Representable 0 ∧ (∀ minute hour, ¬ WordsAt (ascii "10+5 * * *") minute hour) ∧
    eink_cron_next_run (some (ascii "10+5 * * *")) 0 = 5 * 3600 + 10 * 60 ∧
    eink_cron_next_run (some (ascii "10+5 * * *")) 0 ≠ 0 + 3600 := by
  have hsecond : scanInt (firstWords (ascii "10+5 * * *")).2 = none := by decide
  refine ⟨by decide, ?_, by decide, by decide⟩
  rintro minute hour ⟨-, ⟨rest, h⟩, -⟩
  rw [hsecond] at h
  cases h

end EinkNode.Scheduler
