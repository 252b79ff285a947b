import EinkNode.Lib.Decimal
import EinkNode.Scheduler.Civil
/-!
# The wakeup date in the telemetry

`eink_http.c` has its own copy of the date conversion and prints the date in
ISO 8601. We read such a text as a civil time, and state that the conversions
are inverse to each other and that the text says the time it was made from.
-/
open NodeLib NodeLib.Calendar EinkNode.Scheduler

namespace EinkNode.Http

/-- The copy in `eink_http.c`. -/
def unix_to_ymd_hms (t : Int) : Civil :=
  let rem := if t.tmod 86400 < 0 then t.tmod 86400 + 86400 else t.tmod 86400
  let days := (if t.tmod 86400 < 0 then t.tdiv 86400 - 1 else t.tdiv 86400) + 719468
  let era := (if days ≥ 0 then days else days - 146096).tdiv 146097
  let doe := toUInt32 (days - era * 146097)
  let yoe := toUInt32 (doe - doe / 1460 + doe / 36524 - doe / 146096) / 365
  let y := toInt32 (toInt32 yoe + toInt32 (era * 400))
  let doy := toUInt32 (doe - toUInt32 (365 * yoe + yoe / 4 - yoe / 100))
  let mp := toUInt32 (5 * doy + 2) / 153
  let M := toInt32 (toUInt32 (if mp < 10 then mp + 3 else mp - 9))
  { Y := toInt32 (y + if M ≤ 2 then 1 else 0)
    M := M
    D := toInt32 (toUInt32 (doy - toUInt32 (153 * mp + 2) / 5 + 1))
    h := toInt32 (rem.tdiv 3600)
    m := toInt32 ((rem.tmod 3600).tdiv 60)
    s := toInt32 (rem.tmod 60) }

/-- `"%04d-%02d-%02dT%02d:%02d:%02dZ"` -/
def civil_text (c : Civil) : Bytes :=
  decimalPadded 4 c.Y ++ ascii "-" ++ decimalPadded 2 c.M ++ ascii "-" ++ decimalPadded 2 c.D ++ ascii "T" ++
    decimalPadded 2 c.h ++ ascii ":" ++ decimalPadded 2 c.m ++ ascii ":" ++ decimalPadded 2 c.s ++ ascii "Z"

/-- The string in `out` afterwards. -/
def iso8601_utc (unix_s : Int) (out_cap : Nat) : Bytes := snprintf out_cap (civil_text (unix_to_ymd_hms unix_s))

/-- `next_wakeup_date` of the telemetry: `wake` holds 40 bytes. -/
def next_wakeup_date (next_wakeup_unix time : Int) : Bytes :=
  iso8601_utc (if next_wakeup_unix > 0 then next_wakeup_unix else time + 300) 40

theorem unix_to_ymd_hms_copy : unix_to_ymd_hms = Scheduler.unix_to_ymd_hms := rfl

/-! ## Reading the text -/

/-- What follows the byte `c`. -/
def readByte (c : UInt8) : Bytes → Option Bytes
  | [] => none
  | d :: s => if d = c then some s else none

/-- The civil time that a text `YYYY-MM-DDThh:mm:ssZ` names, if there is such a time. -/
def readUtc (text : Bytes) : Option CivilTime := do
  let (Y, rest) ← readDigits 4 text
  let rest ← readByte 45 rest
  let (M, rest) ← readDigits 2 rest
  let rest ← readByte 45 rest
  let (D, rest) ← readDigits 2 rest
  let rest ← readByte 84 rest
  let (h, rest) ← readDigits 2 rest
  let rest ← readByte 58 rest
  let (m, rest) ← readDigits 2 rest
  let rest ← readByte 58 rest
  let (s, rest) ← readDigits 2 rest
  let rest ← readByte 90 rest
  if hc : Civil.Valid ⟨Y, M, D, h, m, s⟩ ∧ rest = [] then some ⟨⟨Y, M, D, h, m, s⟩, hc.1⟩ else none

@[simp] theorem readByte_cons (c : UInt8) (s : Bytes) : readByte c (c :: s) = some s := if_pos rfl

/-- Two digits are enough for every part but the year. -/
theorem parts_fit (c : CivilTime) : (0 ≤ c.1.M ∧ c.1.M.natAbs < 10 ^ 2) ∧ (0 ≤ c.1.D ∧ c.1.D.natAbs < 10 ^ 2) ∧
    (0 ≤ c.1.h ∧ c.1.h.natAbs < 10 ^ 2) ∧ (0 ≤ c.1.m ∧ c.1.m.natAbs < 10 ^ 2) ∧
    (0 ≤ c.1.s ∧ c.1.s.natAbs < 10 ^ 2) := by
  have hM := c.2.month
  have hD := c.2.day
  have hD31 := monthLength_le c.1.Y c.1.M
  have hh := c.2.hour
  have hm := c.2.minute
  have hs := c.2.second
  omega

theorem length_civil_text (c : CivilTime) (h0 : 0 ≤ c.1.Y) (h1 : c.1.Y ≤ 9999) : (civil_text c.1).length = 20 := by
  obtain ⟨⟨hM0, hM1⟩, ⟨hD0, hD1⟩, ⟨hh0, hh1⟩, ⟨hm0, hm1⟩, ⟨hs0, hs1⟩⟩ := parts_fit c
  have h4 : c.1.Y.natAbs < 10 ^ 4 := by omega
  have hw : 0 < 2 := by decide
  simp only [civil_text, List.length_append, length_decimalPadded (show 0 < 4 by decide) h0 h4,
    length_decimalPadded hw hM0 hM1, length_decimalPadded hw hD0 hD1, length_decimalPadded hw hh0 hh1,
    length_decimalPadded hw hm0 hm1, length_decimalPadded hw hs0 hs1]
  rfl

theorem readUtc_civil_text (c : CivilTime) (h0 : 0 ≤ c.1.Y) (h1 : c.1.Y ≤ 9999) :
    readUtc (civil_text c.1) = some c := by
  obtain ⟨⟨hM0, hM1⟩, ⟨hD0, hD1⟩, ⟨hh0, hh1⟩, ⟨hm0, hm1⟩, ⟨hs0, hs1⟩⟩ := parts_fit c
  have h4 : c.1.Y.natAbs < 10 ^ 4 := by omega
  have hw : 0 < 2 := by decide
  have hdash : ascii "-" = [45] := rfl
  have hT : ascii "T" = [84] := rfl
  have hcolon : ascii ":" = [58] := rfl
  have hZ : ascii "Z" = [90] := rfl
  -- Each field is read off the text in front, and then the byte behind it.
  simp only [readUtc, civil_text, hdash, hT, hcolon, hZ, List.append_assoc, List.cons_append, List.nil_append,
    readDigits_padded (show 0 < 4 by decide) h0 h4, readDigits_padded hw hM0 hM1, readDigits_padded hw hD0 hD1,
    readDigits_padded hw hh0 hh1, readDigits_padded hw hm0 hm1, readDigits_padded hw hs0 hs1, readByte_cons,
    Option.bind_eq_bind, Option.bind_some]
  exact dif_pos ⟨c.2, trivial⟩

/-- The text of a year of four digits names the time that it was made from. -/
theorem readUtc_iso8601 {c : CivilTime} (h0 : 0 ≤ c.1.Y) (h1 : c.1.Y ≤ 9999) {out_cap : Nat} (hcap : 21 ≤ out_cap) :
    readUtc (iso8601_utc c.stamp out_cap) = some c := by
  have ht := CivilTime.representable_of_year h0 h1
  have hlen := length_civil_text c h0 h1
  rw [iso8601_utc, unix_to_ymd_hms_copy, unix_to_ymd_hms_ofStamp ht, CivilTime.ofStamp_stamp, snprintf,
    List.take_of_length_le (by omega), readUtc_civil_text c h0 h1]

-- The last day of the year 2000 is its 366th.
example : iso8601_utc 978307199 40 = ascii "2000-12-31T23:59:59Z" := by decide

/-- The telemetry says when the node wakes up. -/
theorem readUtc_next_wakeup {next_wakeup_unix : Int} (h0 : 0 < next_wakeup_unix)
    (h1 : (CivilTime.ofStamp next_wakeup_unix).1.Y ≤ 9999) (time : Int) :
    readUtc (next_wakeup_date next_wakeup_unix time) = some (CivilTime.ofStamp next_wakeup_unix) := by
  have hnumber := (CivilTime.stamp_parts (CivilTime.ofStamp next_wakeup_unix)).1
  have hyear := (Date.number_year (CivilTime.ofStamp next_wakeup_unix).date).2
  have hY : (CivilTime.ofStamp next_wakeup_unix).date.year = (CivilTime.ofStamp next_wakeup_unix).1.Y := rfl
  rw [CivilTime.stamp_ofStamp] at hnumber
  rw [hY] at hyear
  unfold daysBeforeYear at hyear
  have htext := readUtc_iso8601 (show 0 ≤ (CivilTime.ofStamp next_wakeup_unix).1.Y by omega) h1
    (show 21 ≤ 40 by decide)
  rw [CivilTime.stamp_ofStamp] at htext
  rw [next_wakeup_date, if_pos h0, htext]

/-! ## The conversions are inverse to each other -/

/-- On the representable times the two conversions are inverse to each other and keep the order. The time stamp
of a civil time is the one that its date has in the calendar, and the text of a year of four digits names a civil
time with just the time stamp that was printed. -/
theorem civil_conversions_inverse :
    (∀ t, Representable t → (Scheduler.unix_to_ymd_hms t).Valid ∧ (Scheduler.unix_to_ymd_hms t).to_unix = t) ∧
    (∀ c : CivilTime, c.1.to_unix = c.stamp ∧
      (Representable c.stamp → Scheduler.unix_to_ymd_hms c.1.to_unix = c.1)) ∧
    StrictMonoOn Scheduler.unix_to_ymd_hms {t | Representable t} ∧
    StrictMonoOn Civil.to_unix {c | c.Valid} ∧
    (∀ t, 0 ≤ (CivilTime.ofStamp t).1.Y → (CivilTime.ofStamp t).1.Y ≤ 9999 → ∀ out_cap, 21 ≤ out_cap →
      (readUtc (iso8601_utc t out_cap)).map CivilTime.stamp = some t) := by
  refine ⟨?_, ?_, unix_to_ymd_hms_strictMonoOn, to_unix_strictMonoOn, ?_⟩
  · intro t ht
    exact ⟨unix_to_ymd_hms_valid ht, to_unix_of_unix ht⟩
  · intro c
    have hstamp := to_unix_stamp c
    refine ⟨hstamp, fun ht => ?_⟩
    rw [hstamp, unix_to_ymd_hms_ofStamp ht, CivilTime.ofStamp_stamp]
  · intro t h0 h1 out_cap hcap
    have htext := readUtc_iso8601 h0 h1 hcap
    rw [CivilTime.stamp_ofStamp] at htext
    rw [htext, Option.map_some, CivilTime.stamp_ofStamp]

end EinkNode.Http
