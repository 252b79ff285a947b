import EinkNode.Lib.Scan
import EinkNode.Store.Reboot
/-!
# Reading the schedule inside its buffers

`eink_store_load_schedule` with its pointers. A read behind the terminator of the
file's buffer, or of the buffer of one object, has no result here. Whatever the
file holds, there is a result, and it is the one of the parser on texts.
-/
open NodeLib EinkNode.Scheduler

namespace EinkNode.Store

namespace Scanned

/-- The first `c` behind `key`. -/
def find_after (objbuf key : Bytes) (c : UInt8) : Option (Option Nat) := do
  match ← Scan.strstr objbuf 0 key with
  | none => some none
  | some k => Scan.strchr objbuf (k + key.length) c

def quoted_after (objbuf key : Bytes) (cap : Nat) : Option Bytes := do
  match ← find_after objbuf key 34 with
  | none => some []
  | some q => Scan.copy_until 34 objbuf (q + 1) (cap - 1)

def number_after (objbuf key : Bytes) : Option Int := do
  match ← find_after objbuf key 58 with
  | none => some 0
  | some k => (Scan.text objbuf (k + 1)).map strtoll

/-- One object, in its buffer. -/
def parse_job (objbuf : Bytes) : Option (Except Int Job) := do
  let job_id ← quoted_after objbuf (ascii "\"job_id\"") EINK_ID_MAX
  let image_id ← quoted_after objbuf (ascii "\"image_id\"") EINK_ID_MAX
  let cron ← quoted_after objbuf (ascii "\"cron\"") EINK_CRON_MAX
  let next_run ← number_after objbuf (ascii "\"next_run\"")
  if job_id = [] ∨ image_id = [] then some (.error (-EINVAL))
  else
    some (.ok
      { job_id := .copy _ job_id, image_id := .copy _ image_id, cron := .copy _ cron, next_run_unix := next_run })

/-- The loop over the array; `jobs` are the first `count` jobs. -/
def parse_jobs (buf : Bytes) (p : Nat) (jobs : List Job) : Option (Except Int (List Job)) := do
  let d ← buf[p]?
  if _h : d = 0 ∨ EINK_MAX_JOBS ≤ jobs.length then some (.ok jobs)
  else
    let p ← Scan.skip isFiller buf p
    let d ← buf[p]?
    if d = 93 then some (.ok jobs)
    else if d ≠ 123 then some (.error (-EINVAL))
    else
      match ← Scan.strchr buf p 125 with
      | none => some (.error (-EINVAL))
      | some stop =>
        let olen := stop - p + 1
        if olen ≥ 384 then some (.error (-ENOMEM))
        else
          let obj ← Scan.read_n buf p olen
          match ← parse_job (obj ++ [0]) with
          | .error e => some (.error e)
          | .ok j => parse_jobs buf (stop + 1) (jobs ++ [j])
termination_by EINK_MAX_JOBS - jobs.length
decreasing_by
  rw [List.length_append, List.length_singleton]
  omega

/-- From the buffer with its terminator on. -/
def parse_schedule (buf : Bytes) : Option (Except Int (List Job)) := do
  match ← Scan.strstr buf 0 (ascii "\"jobs\"") with
  | none => some (.error (-EINVAL))
  | some p =>
    match ← Scan.strchr buf p 91 with
    | none => some (.error (-EINVAL))
    | some p => parse_jobs buf (p + 1) []

variable (b : Build)

/-- What is returned, and the jobs that the schedule counts afterwards. -/
def eink_store_load_schedule : FS (Option (Int × List Job)) := do
  match ← read_head (path_sched b) 8191 with
  | .error e => pure (some (e, []))
  | .ok raw =>
    match parse_schedule (raw ++ [0]) with
    | none => pure none
    | some (.error e) => pure (some (e, []))
    | some (.ok jobs) => pure (some (0, jobs))

end Scanned

open Scanned

/-! ## One object -/

variable {mem objbuf s t key : Bytes} {c : UInt8} {p : Nat}

/-- What is found behind the key, in the text and in the buffer. -/
theorem find_after_eq (h : Scan.At objbuf 0 s) (hkey : (0 : UInt8) ∉ key) (hc : c ≠ 0) :
    find_after objbuf key c =
      some (((strstr s key).bind fun k => strchr (k.drop key.length) c).map fun t => s.length - t.length) := by
  unfold find_after
  rw [Scan.strstr_eq h hkey]
  cases hk : strstr s key with
  | none => rfl
  | some k =>
    have hsuffix := Scan.suffix_of_strstr hk
    have hlen := (Scan.prefix_of_strstr hk).length_le
    have hle := hsuffix.length_le
    have hat := (h.suffix hsuffix).drop hlen
    refine (Scan.strchr_eq hat hc).trans ?_
    simp only [Option.bind_some, List.length_drop, Nat.zero_add]
    cases ht : strchr (k.drop key.length) c with
    | none => rfl
    | some t =>
      have htle := (Scan.suffix_of_strchr ht).length_le
      rw [List.length_drop] at htle
      simp only [Option.map_some, Option.some.injEq]
      omega

theorem suffix_of_find_after (h : ((strstr s key).bind fun k => strchr (k.drop key.length) c) = some t) :
    t <:+ s ∧ ∃ t', t = c :: t' := by
  obtain ⟨k, hk, ht⟩ := Option.bind_eq_some_iff.1 h
  refine ⟨?_, Scan.cons_of_strchr ht⟩
  exact (Scan.suffix_of_strchr ht).trans ((List.drop_suffix _ _).trans (Scan.suffix_of_strstr hk))

theorem scanned_quoted_after (h : Scan.At objbuf 0 s) (hkey : (0 : UInt8) ∉ key) (cap : Nat) :
    Scanned.quoted_after objbuf key cap = some (quoted_after s key cap) := by
  unfold Scanned.quoted_after quoted_after
  rw [find_after_eq h hkey (by decide)]
  cases ht : (strstr s key).bind fun k => strchr (k.drop key.length) 34 with
  | none => rfl
  | some t =>
    obtain ⟨hsuffix, t', rfl⟩ := suffix_of_find_after ht
    have hat := (h.suffix hsuffix).tail
    rw [Nat.zero_add] at hat
    exact Scan.copy_until_eq hat _

theorem scanned_number_after (h : Scan.At objbuf 0 s) (hkey : (0 : UInt8) ∉ key) :
    Scanned.number_after objbuf key = some (number_after s key) := by
  unfold Scanned.number_after number_after
  rw [find_after_eq h hkey (by decide)]
  cases ht : (strstr s key).bind fun k => strchr (k.drop key.length) 58 with
  | none => rfl
  | some t =>
    obtain ⟨hsuffix, t', rfl⟩ := suffix_of_find_after ht
    have hat := (h.suffix hsuffix).tail
    rw [Nat.zero_add] at hat
    exact congrArg (Option.map strtoll) (Scan.text_eq hat)

theorem scanned_parse_job (h : (0 : UInt8) ∉ s) : Scanned.parse_job (s ++ [0]) = some (parse_job s) := by
  have hat : Scan.At (s ++ [0]) 0 s := .start h []
  unfold Scanned.parse_job parse_job
  rw [scanned_quoted_after hat (by decide), scanned_quoted_after hat (by decide),
    scanned_quoted_after hat (by decide), scanned_number_after hat (by decide)]
  simp only [Option.bind_eq_bind, Option.bind_some]
  split
  · rfl
  · rfl

/-! ## The array -/

/-- An object ends at its closing brace: the text goes on behind it, and the object lies in the text. -/
theorem object_end {obj rest : Bytes} (h : Scan.At mem p (c :: obj)) (hend : strchr obj 125 = some (125 :: rest)) :
    Scan.At mem (p + ((c :: obj).length - (125 :: rest).length) + 1) rest ∧
      p + ((c :: obj).length - (125 :: rest).length) - p + 1 = obj.length - (125 :: rest).length + 2 ∧
      obj.length - (125 :: rest).length + 2 ≤ (c :: obj).length := by
  have hsuffix := (Scan.suffix_of_strchr hend).trans (List.suffix_cons c obj)
  have hle := (Scan.suffix_of_strchr hend).length_le
  refine ⟨(h.suffix hsuffix).tail, ?_, ?_⟩
  · simp only [List.length_cons] at hle ⊢
    omega
  · simp only [List.length_cons] at hle ⊢
    omega

/-- The loop on the buffer is the loop on the text: no turn leaves the string. -/
theorem scanned_parse_jobs {turns : Nat} (jobs : List Job) (h : Scan.At mem p s) (hturns : s.length ≤ turns) :
    Scanned.parse_jobs mem p jobs = some (parse_jobs turns jobs s) := by
  induction turns generalizing jobs p s with
  | zero =>
    obtain rfl := List.eq_nil_of_length_eq_zero (Nat.le_zero.1 hturns)
    rw [Scanned.parse_jobs, h.end]
    rfl
  | succ turns ih =>
    rw [Scanned.parse_jobs, parse_jobs]
    by_cases hstop : s = [] ∨ jobs.length ≥ EINK_MAX_JOBS
    · rw [if_pos hstop]
      cases s with
      | nil =>
        rw [h.end]
        rfl
      | cons d s =>
        have hmax := hstop.resolve_left (List.cons_ne_nil d s)
        rw [h.head]
        exact dif_pos (.inr hmax)
    · rw [if_neg hstop]
      obtain ⟨hne, hmore⟩ := not_or.1 hstop
      obtain ⟨d, s', rfl⟩ := List.exists_cons_of_ne_nil hne
      have hd : ¬ (d = 0 ∨ EINK_MAX_JOBS ≤ jobs.length) := not_or.2 ⟨h.ne_zero, hmore⟩
      have hskip := h.skipped isFiller
      have hfiller := (List.dropWhile_suffix isFiller (l := d :: s')).length_le
      rw [h.head]
      simp only [Option.bind_eq_bind, Option.bind_some, dif_neg hd, Scan.skip_eq h (f := isFiller) (by decide)]
      generalize p + ((d :: s').takeWhile isFiller).length = p' at hskip ⊢
      generalize (d :: s').dropWhile isFiller = obj at hskip hfiller ⊢
      cases obj with
      | nil =>
        rw [hskip.end]
        rfl
      | cons c obj =>
        rw [hskip.head]
        simp only [Option.bind_some]
        by_cases hclose : c = 93
        · rw [if_pos hclose, if_pos hclose]
        rw [if_neg hclose, if_neg hclose]
        by_cases hopen : c ≠ 123
        · rw [if_pos hopen, if_pos hopen]
        rw [if_neg hopen, if_neg hopen]
        have hfind : strchr (c :: obj) 125 = strchr obj 125 := by
          rw [Scan.strchr_cons, if_neg]
          rw [not_not.1 hopen]
          decide
        rw [Scan.strchr_eq hskip (by decide), hfind]
        cases htail : strchr obj 125 with
        | none => rfl
        | some tail =>
          obtain ⟨rest, rfl⟩ := Scan.cons_of_strchr htail
          have hle := (Scan.suffix_of_strchr htail).length_le
          obtain ⟨hnext, holen, hfits⟩ := object_end hskip htail
          rw [List.length_cons] at hle
          simp only [Option.map_some, Option.bind_some, List.drop_succ_cons, List.drop_zero]
          -- The object is cut out of the text that the loop is at.
          rw [holen]
          generalize obj.length - (125 :: rest).length + 2 = olen at hfits ⊢
          have hlen : ((c :: obj).take olen).length = olen := by rw [List.length_take, Nat.min_eq_left hfits]
          rw [hlen]
          by_cases hlong : olen ≥ 384
          · rw [if_pos hlong, if_pos hlong]
          rw [if_neg hlong, if_neg hlong, Scan.read_n_eq hskip hfits]
          have hzero : (0 : UInt8) ∉ (c :: obj).take olen := fun hmem => hskip.noNul (List.mem_of_mem_take hmem)
          simp only [Option.bind_some, scanned_parse_job hzero]
          cases parse_job ((c :: obj).take olen) with
          | error e => rfl
          | ok j =>
            refine ih _ hnext ?_
            simp only [List.length_cons] at hturns hfiller hle
            omega

/-- A byte buffer with its terminator, read as a string. -/
theorem at_cstring (raw : Bytes) : Scan.At (raw ++ [0]) 0 (cstring raw) := by
  refine ⟨?_, zero_notMem_cstring raw⟩
  have hsplit : cstring raw ++ raw.dropWhile (· ≠ 0) = raw := List.takeWhile_append_dropWhile
  cases hrest : raw.dropWhile (· ≠ 0) with
  | nil =>
    rw [hrest, List.append_nil] at hsplit
    exact ⟨[], by rw [List.drop_zero, hsplit]⟩
  | cons c rest =>
    have hc := List.head?_dropWhile_not (· ≠ (0 : UInt8)) raw
    rw [hrest] at hc hsplit
    have hzero : c = 0 := by simpa using hc
    subst hzero
    refine ⟨rest ++ [0], ?_⟩
    rw [List.drop_zero, ← List.cons_append, ← List.append_assoc, hsplit]

theorem scanned_parse_schedule (raw : Bytes) :
    Scanned.parse_schedule (raw ++ [0]) = some ((parse_schedule raw).map Schedule.jobs) := by
  have hat := at_cstring raw
  unfold Scanned.parse_schedule parse_schedule
  rw [Scan.strstr_eq hat (by decide)]
  cases hk : strstr (cstring raw) (ascii "\"jobs\"") with
  | none => rfl
  | some k =>
    have hjobs := hat.suffix (Scan.suffix_of_strstr hk)
    simp only [Option.map_some, Option.bind_eq_bind, Option.bind_some, Scan.strchr_eq hjobs (c := 91) (by decide)]
    cases ht : strchr k 91 with
    | none => rfl
    | some t =>
      obtain ⟨rest, rfl⟩ := Scan.cons_of_strchr ht
      have hrest := (hjobs.suffix (Scan.suffix_of_strchr ht)).tail
      have hsame := scanned_parse_jobs [] hrest (Nat.le_refl _)
      simp only [Option.map_some, List.drop_succ_cons, List.drop_zero, List.length_cons, Nat.add_sub_cancel]
      refine hsame.trans ?_
      cases hp : parse_jobs rest.length [] rest with
      | error e => rfl
      | ok jobs =>
        have htake : (Schedule.take jobs).jobs = jobs :=
          List.take_of_length_le ((parse_jobs_extends hp).2 (Nat.zero_le _))
        simp only [Except.map, htake]

/-! ## What is loaded -/

theorem scanned_load_schedule (b : Build) (d : Disk Path) :
    (Scanned.eink_store_load_schedule b d).1 = some (match (eink_store_load_schedule b d).1 with
      | .error e => (e, [])
      | .ok sched => (0, sched.jobs)) := by
  unfold Scanned.eink_store_load_schedule eink_store_load_schedule
  simp only [bind_app]
  cases (read_head (path_sched b) 8191 d).1 with
  | error e => rfl
  | ok raw =>
    dsimp only
    rw [scanned_parse_schedule]
    cases parse_schedule raw with
    | error e => rfl
    | ok sched => rfl

/-- Both names of the job are there, and fit. -/
structure Named (j : Job) : Prop where
  job_id : j.job_id.val ≠ [] ∧ j.job_id.val.length ≤ 63
  image_id : j.image_id.val ≠ [] ∧ j.image_id.val.length ≤ 63

theorem mem_quoted_after {cap : Nat} (h : c ∈ quoted_after s key cap) : c ∈ s := by
  unfold quoted_after at h
  cases ht : (strstr s key).bind fun k => strchr (k.drop key.length) 34 with
  | none =>
    rw [ht] at h
    cases h
  | some t =>
    rw [ht] at h
    have hmem := (List.takeWhile_prefix _).subset (List.mem_of_mem_take h)
    exact (suffix_of_find_after ht).1.subset (List.mem_of_mem_drop hmem)

/-- Either an error, or jobs with names. -/
def Outcome : Except Int (List Job) → Prop
  | .error e => e < 0
  | .ok jobs => ∀ j ∈ jobs, Named j

theorem named_of_parse_job {j : Job} (h0 : (0 : UInt8) ∉ s) (h : parse_job s = .ok j) : Named j := by
  have hcopy (key : Bytes) (hne : quoted_after s key EINK_ID_MAX ≠ []) :
      (CStr.copy EINK_ID_MAX (quoted_after s key EINK_ID_MAX)).val ≠ [] := by
    rw [CStr.val_copy, cstring_of_notMem fun hmem => h0 (mem_quoted_after hmem)]
    obtain ⟨c, rest, hc⟩ := List.exists_cons_of_ne_nil hne
    rw [hc]
    exact List.cons_ne_nil _ _
  unfold parse_job at h
  dsimp only at h
  split at h
  · cases h
  · next hne =>
    cases h
    obtain ⟨hjob, himage⟩ := not_or.1 hne
    exact ⟨⟨hcopy _ hjob, CStr.fits _⟩, ⟨hcopy _ himage, CStr.fits _⟩⟩

theorem parse_job_error {e : Int} (h : parse_job s = .error e) : e < 0 := by
  unfold parse_job at h
  dsimp only at h
  split at h
  · cases h
    exact show -EINVAL < 0 by decide
  · cases h

theorem outcome_parse_jobs (turns : Nat) {jobs : List Job} (h0 : (0 : UInt8) ∉ s) (hjobs : ∀ j ∈ jobs, Named j) :
    Outcome (parse_jobs turns jobs s) := by
  have hinval : Outcome (.error (-EINVAL)) := show -EINVAL < 0 by decide
  induction turns generalizing jobs s with
  | zero => exact hjobs
  | succ turns ih =>
    rw [parse_jobs]
    split
    · exact hjobs
    split
    · exact hinval
    · next c obj hobj =>
      have hobj0 : (0 : UInt8) ∉ c :: obj := fun h => h0 ((List.dropWhile_suffix isFiller).subset (hobj ▸ h))
      split
      · exact hjobs
      split
      · exact hinval
      split
      · exact hinval
      · next tail htail =>
        have htail0 : (0 : UInt8) ∉ tail.drop 1 := fun h =>
          hobj0 (List.mem_cons_of_mem c ((Scan.suffix_of_strchr htail).subset (List.mem_of_mem_drop h)))
        dsimp only
        split
        · exact show -ENOMEM < 0 by decide
        · split
          · next e he => exact parse_job_error he
          · next j hj =>
            refine ih htail0 fun j' hj' => ?_
            rcases List.mem_append.1 hj' with hj' | hj'
            · exact hjobs j' hj'
            · rw [List.mem_singleton.1 hj']
              exact named_of_parse_job (fun h => hobj0 (List.mem_of_mem_take h)) hj

theorem outcome_parse_schedule (raw : Bytes) : Outcome ((parse_schedule raw).map Schedule.jobs) := by
  unfold parse_schedule
  split
  · exact show -EINVAL < 0 by decide
  · next p hp =>
    obtain ⟨k, hk, ht⟩ := Option.bind_eq_some_iff.1 hp
    have hsuffix := (Scan.suffix_of_strchr ht).trans (Scan.suffix_of_strstr hk)
    have h0 : (0 : UInt8) ∉ p.drop 1 := fun h =>
      zero_notMem_cstring raw (hsuffix.subset (List.mem_of_mem_drop h))
    have hnone : ∀ j ∈ ([] : List Job), Named j := nofun
    have hout := outcome_parse_jobs (p.length - 1) h0 hnone
    cases hjobs : parse_jobs (p.length - 1) [] (p.drop 1) with
    | error e =>
      rw [hjobs] at hout
      exact hout
    | ok jobs =>
      rw [hjobs] at hout
      exact fun j hj => hout j (List.mem_of_mem_take hj)

/-- Whatever the file holds: no scan leaves its buffer, and the schedule is loaded
with all names there, or not at all. -/
theorem schedule_loaded_whole (b : Build) (d : Disk Path) :
    ∃ ret jobs, (Scanned.eink_store_load_schedule b d).1 = some (ret, jobs) ∧
      (ret = 0 ∧ jobs.length ≤ 32 ∧ (∀ j ∈ jobs, (j.job_id.val ≠ [] ∧ j.job_id.val.length ≤ 63) ∧
          j.image_id.val ≠ [] ∧ j.image_id.val.length ≤ 63) ∨
        ret < 0 ∧ jobs = []) := by
  have hload := scanned_load_schedule b d
  have hread := negErr_read_head (path_sched b) 8191 d
  unfold eink_store_load_schedule at hload
  simp only [bind_app] at hload
  cases hraw : (read_head (path_sched b) 8191 d).1 with
  | error e =>
    rw [hraw] at hload hread
    exact ⟨e, [], hload, .inr ⟨hread, rfl⟩⟩
  | ok raw =>
    have hout := outcome_parse_schedule raw
    rw [hraw] at hload
    dsimp only at hload
    cases hparse : parse_schedule raw with
    | error e =>
      rw [hparse] at hload hout
      exact ⟨e, [], hload, .inr ⟨hout, rfl⟩⟩
    | ok sched =>
      rw [hparse] at hload hout
      exact ⟨0, sched.jobs, hload, .inl ⟨rfl, sched.bound, fun j hj => ⟨(hout j hj).job_id, (hout j hj).image_id⟩⟩⟩

end EinkNode.Store
