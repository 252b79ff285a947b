import EinkNode.Scheduler.Daily
/-!
# Tick and repaint

`decide` compares the stored `next_run_unix`, `repaint` and `current_image`
compute the occurrences anew. Right after `set_schedule` both take the same job,
but for crons that name no slot: their fallback is never due, and still counts
as an occurrence 23 hours ago.
-/
open NodeLib

namespace EinkNode.Scheduler

/-- The job that `repaint` and `current_image` take by its slot. -/
def current_job (st : State) (now : Int) : Option Nat := (current_slot st.sched now).map (·.2)

/-- The job that `decide` takes when none has been displayed is the one that `repaint` takes. -/
def Agree (st : State) (now : Int) : Prop :=
  ∀ i, eink_scheduler_decide (some st.sched) now (some []) = .SHOW i → current_job st now = some i

/-- No job is due, or every cron that names no slot has its fallback before a due job. -/
def FallbackBehind (s : Schedule) (now : Int) : Prop :=
  (∀ j ∈ s.jobs, now < eink_cron_next_run (some j.cron.val) now) ∨
    ∀ (n : Nat) (j : Job), s.jobs[n]? = some j → cronSlot j.cron.val = none →
      ∃ (i : Nat) (d : Job), s.jobs[i]? = some d ∧ eink_cron_next_run (some d.cron.val) now ≤ now ∧
        toLex (now - 82800, n) < toLex (eink_cron_next_run (some d.cron.val) now, i)

/-! ## Slots of one day -/

/-- Midnight of the date that the slots of `now` are computed from. -/
def dayStart (now : Int) : Int :=
  let c := unix_to_ymd_hms now
  ymd_hms_to_unix c.Y c.M c.D 0 0 0

/-- No assumption on `now`: if the date arithmetic overflows, it does so for all crons alike. -/
theorem next_run_dayStart {j : Job} (hj : (cronSlot j.cron.val).isSome) (now : Int) :
    eink_cron_next_run (some j.cron.val) now = dayStart now + timeOfDay j := by
  obtain ⟨⟨minute, hour⟩, hs⟩ := Option.isSome_iff_exists.1 hj
  have htime : timeOfDay j = hour * 3600 + minute * 60 := by simp only [timeOfDay, hs]
  rw [htime]
  unfold cronSlot at hs
  split at hs
  · cases hs
  · next m h hscan =>
    split at hs
    · cases hs
    · next hrange =>
      cases hs
      simp only [eink_cron_next_run, hscan, if_neg hrange, dayStart, ymd_hms_to_unix]
      omega

theorem not_due_of_none {j : Job} (hj : cronSlot j.cron.val = none) (now : Int) :
    now < eink_cron_next_run (some j.cron.val) now := by
  rw [next_run_of_none hj]
  omega

theorem isSome_of_due {j : Job} {now : Int} (h : eink_cron_next_run (some j.cron.val) now ≤ now) :
    (cronSlot j.cron.val).isSome := by
  rw [Option.isSome_iff_ne_none]
  exact fun hnone => absurd h (not_le.2 (not_due_of_none hnone now))

theorem occurrence_of_due {j : Job} {now : Int} (h : eink_cron_next_run (some j.cron.val) now ≤ now) :
    occurrence now j = eink_cron_next_run (some j.cron.val) now := by
  simp only [occurrence, if_neg (not_lt.2 h)]

theorem occurrence_of_none {j : Job} (hj : cronSlot j.cron.val = none) (now : Int) :
    occurrence now j = now - 82800 := by
  simp only [occurrence, next_run_of_none hj]
  split <;> omega

/-- Yesterday's slot of a job comes before today's slot of any. -/
theorem occurrence_lt {j d : Job} {now : Int} (hj : (cronSlot j.cron.val).isSome)
    (hlate : now < eink_cron_next_run (some j.cron.val) now) (hd : (cronSlot d.cron.val).isSome) :
    occurrence now j < eink_cron_next_run (some d.cron.val) now := by
  have h1 := timeOfDay_range j
  have h2 := timeOfDay_range d
  rw [occurrence, if_pos hlate, next_run_dayStart hj, next_run_dayStart hd]
  omega

/-! ## Right after `set_schedule` -/

theorem getElem?_recompute {now : Int} {s : Schedule} {i : Nat} {j : Job} (h : s.jobs[i]? = some j) :
    (recompute now s).jobs[i]? = some { j with next_run_unix := eink_cron_next_run (some j.cron.val) now } := by
  rw [recompute, Schedule.jobs_map, List.getElem?_map, h]
  rfl

theorem of_getElem?_recompute {now : Int} {s : Schedule} {i : Nat} {j' : Job}
    (h : (recompute now s).jobs[i]? = some j') :
    ∃ j, s.jobs[i]? = some j ∧ j' = { j with next_run_unix := eink_cron_next_run (some j.cron.val) now } := by
  rw [recompute, Schedule.jobs_map, List.getElem?_map, Option.map_eq_some_iff] at h
  obtain ⟨j, hj, rfl⟩ := h
  exact ⟨j, hj, rfl⟩

/-- The due job that `decide` takes, in terms of the crons. -/
theorem decide_recompute {s : Schedule} {now : Int} {i : Nat}
    (h : eink_scheduler_decide (some (recompute now s)) now (some []) = .SHOW i) :
    ∃ d, s.jobs[i]? = some d ∧ eink_cron_next_run (some d.cron.val) now ≤ now ∧
      ∀ (n : Nat) (j : Job), s.jobs[n]? = some j → eink_cron_next_run (some j.cron.val) now ≤ now →
        toLex (eink_cron_next_run (some j.cron.val) now, n) ≤ toLex (eink_cron_next_run (some d.cron.val) now, i) := by
  unfold eink_scheduler_decide at h
  cases hover : overdue (recompute now s) now with
  | none => simp [hover] at h
  | some p =>
    obtain ⟨k, i'⟩ := p
    obtain rfl : i' = i := by simpa [hover] using h
    have hl := isLatest_of_latest hover
    obtain ⟨d', hd', hdue, rfl⟩ := hl.here
    obtain ⟨d, hd, rfl⟩ := of_getElem?_recompute hd'
    refine ⟨d, hd, by simpa using hdue, fun n j hj hjdue => ?_⟩
    exact hl.le (getElem?_recompute hj) (by simpa using hjdue)

theorem decide_none {s : Schedule} {now : Int}
    (h : ∀ j ∈ s.jobs, now < eink_cron_next_run (some j.cron.val) now) (i : Nat) :
    eink_scheduler_decide (some (recompute now s)) now (some []) ≠ .SHOW i := by
  intro hshow
  obtain ⟨d, hd, hdue, -⟩ := decide_recompute hshow
  exact absurd hdue (not_le.2 (h d (List.mem_of_getElem? hd)))

/-- What `repaint` finds, in terms of the crons. -/
theorem slot_recompute {s : Schedule} {now k : Int} {m : Nat} (h : current_slot (recompute now s) now = some (k, m)) :
    ∃ w, s.jobs[m]? = some w ∧ occurrence now w = k ∧
      ∀ (n : Nat) (j : Job), s.jobs[n]? = some j → occurrence now j ≤ now →
        toLex (occurrence now j, n) ≤ toLex (k, m) := by
  unfold current_slot at h
  split at h
  · have hl := isLatest_of_latest h
    obtain ⟨w', hw', -, rfl⟩ := hl.here
    obtain ⟨w, hw, rfl⟩ := of_getElem?_recompute hw'
    refine ⟨w, hw, rfl, fun n j hj hle => ?_⟩
    have hpair := hl.le (getElem?_recompute hj) (decide_eq_true (show occurrence now _ ≤ now from hle))
    exact hpair
  · cases h

theorem decide_of_due {s : Schedule} {now : Int} {j : Job} (hmem : j ∈ s.jobs)
    (hdue : eink_cron_next_run (some j.cron.val) now ≤ now) :
    ∃ i, eink_scheduler_decide (some (recompute now s)) now (some []) = .SHOW i := by
  obtain ⟨n, hn⟩ := List.getElem?_of_mem hmem
  cases hover : overdue (recompute now s) now with
  | none =>
    have := latest_eq_none.1 hover _ (List.mem_of_getElem? (getElem?_recompute hn))
    exact absurd hdue (by simpa using this)
  | some p => exact ⟨p.2, by simp [eink_scheduler_decide, hover]⟩

theorem slot_of_due {s : Schedule} {now : Int} (hnow : 1700000000 ≤ now) {j : Job} (hmem : j ∈ s.jobs)
    (hdue : eink_cron_next_run (some j.cron.val) now ≤ now) :
    ∃ k m, current_slot (recompute now s) now = some (k, m) := by
  obtain ⟨n, hn⟩ := List.getElem?_of_mem hmem
  have hclock : wall_clock_ok now = true := decide_eq_true hnow
  rw [current_slot, if_pos hclock]
  rcases latest_spec (fun j => decide (occurrence now j ≤ now)) (occurrence now) (recompute now s).jobs with
    ⟨-, hall⟩ | ⟨k, m, hslot, -⟩
  · have hpass := hall _ (List.mem_of_getElem? (getElem?_recompute hn))
    have hocc : occurrence now j ≤ now := by rwa [occurrence_of_due hdue]
    exact absurd hocc (of_decide_eq_false hpass)
  · exact ⟨k, m, hslot⟩

/-- Right after `set_schedule`, tick and repaint take the same job exactly if the fallback of
every cron that names no slot stays behind a due job, or no job is due. -/
theorem tick_repaint_agree_iff (st : State) (s : Schedule) (now clock : Int) (hnow : 1700000000 ≤ now) :
    Agree (eink_scheduler_set_schedule st (some s) now clock).2 now ↔ FallbackBehind s now := by
  have hsched : (eink_scheduler_set_schedule st (some s) now clock).2.sched = recompute now s := by
    simp only [eink_scheduler_set_schedule, if_neg (show ¬now ≤ 0 by omega)]
  rw [Agree, current_job, hsched]
  by_cases hnone : ∀ j ∈ s.jobs, now < eink_cron_next_run (some j.cron.val) now
  · exact ⟨fun _ => .inl hnone, fun _ i hi => absurd hi (decide_none hnone i)⟩
  · obtain ⟨due, hmem, hdue⟩ : ∃ j ∈ s.jobs, eink_cron_next_run (some j.cron.val) now ≤ now := by
      simpa using hnone
    obtain ⟨k, m, hslot⟩ := slot_of_due hnow hmem hdue
    obtain ⟨w, hw, rfl, htop⟩ := slot_recompute hslot
    obtain ⟨i, hi⟩ := decide_of_due hmem hdue
    obtain ⟨d, hd, hdue, hlast⟩ := decide_recompute hi
    have hle := htop i d hd (by rwa [occurrence_of_due hdue])
    rw [occurrence_of_due hdue] at hle
    rw [hslot]
    constructor
    · intro hagree
      refine .inr fun n j hj hcron => ⟨i, d, hd, hdue, ?_⟩
      obtain rfl : m = i := Option.some.inj (hagree i hi)
      obtain rfl : w = d := Option.some.inj (hw.symm.trans hd)
      have hfallback := htop n j hj (by rw [occurrence_of_none hcron]; omega)
      rw [occurrence_of_none hcron, occurrence_of_due hdue] at hfallback
      refine lt_of_le_of_ne hfallback fun heq => ?_
      -- The due job has a slot.
      obtain rfl : n = m := congrArg (fun p => (ofLex p).2) heq
      obtain rfl : j = w := Option.some.inj (hj.symm.trans hd)
      exact absurd (isSome_of_due hdue) (by rw [hcron]; decide)
    · intro hbehind i' hi'
      obtain rfl : i = i' := by rw [hi] at hi'; exact Decision.SHOW.inj hi'
      rw [Option.map_some, Option.some_inj]
      cases hcron : cronSlot w.cron.val with
      | none =>
        obtain ⟨i', d', hd', hdue', hlt⟩ := (hbehind.resolve_left hnone) m w hw hcron
        have hle' := htop i' d' hd' (by rwa [occurrence_of_due hdue'])
        rw [occurrence_of_due hdue', occurrence_of_none hcron] at hle'
        exact absurd hlt (not_lt.2 hle')
      | some slot =>
        have hslotted : (cronSlot w.cron.val).isSome := by rw [hcron]; rfl
        by_cases hwdue : eink_cron_next_run (some w.cron.val) now ≤ now
        · have hge := hlast m w hw hwdue
          rw [occurrence_of_due hwdue] at hle
          exact congrArg (fun p => (ofLex p).2) (le_antisymm hge hle)
        · have hlt := occurrence_lt hslotted (not_le.1 hwdue) (isSome_of_due hdue)
          rw [Prod.Lex.toLex_le_toLex] at hle
          simp only at hle
          omega

/-! ## A cron that names no slot -/

/-- A at 00:10, and a job without a time of day. -/
def namedAndUnnamed : Schedule := ⟨[job "A" "10 0 * * *", job "B" "@daily"], by decide⟩

/-- 23:30 on 2024-01-01. -/
def lateEvening : Int := 1704067200 + 84600

/-- At 01:00 the fallback of B is 23 hours old and A is due since 00:10, and both show A. -/
theorem tick_repaint_agree_iff_morning :
    eink_scheduler_decide (some (eink_scheduler_set_schedule .reset (some namedAndUnnamed) 1704070800 0).2.sched)
      1704070800 (some []) = .SHOW 0 ∧
    Agree (eink_scheduler_set_schedule .reset (some namedAndUnnamed) 1704070800 0).2 1704070800 := by
  have hlt : (1704070800 : Int) - 82800 < eink_cron_next_run (some (job "A" "10 0 * * *").cron.val) 1704070800 := by
    decide
  have hbehind : FallbackBehind namedAndUnnamed 1704070800 :=
    .inr fun n j _ _ => ⟨0, job "A" "10 0 * * *", rfl, by decide, Prod.Lex.toLex_lt_toLex.2 (.inl hlt)⟩
  exact ⟨by decide, (tick_repaint_agree_iff .reset namedAndUnnamed 1704070800 0 (by decide)).2 hbehind⟩

/-- At 23:30 tick shows A and repaint shows B. -/
theorem fallback_wins_repaint :
    ¬ ∀ (st : State) (s : Schedule) (now clock : Int), 1700000000 ≤ now →
      Agree (eink_scheduler_set_schedule st (some s) now clock).2 now := by
  intro h
  have hagree := h .reset namedAndUnnamed lateEvening 0 (by decide) 0 (by decide)
  exact absurd hagree (by decide)

end EinkNode.Scheduler
