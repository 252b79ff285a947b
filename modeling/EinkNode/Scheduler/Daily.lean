import EinkNode.Scheduler.Service
/-!
# The daily schedule

What the schedule is for: at any time the job on the panel is the one whose
daily slot came last. `eink_scheduler_decide` goes by `next_run_unix`, which
only `init` and `set_schedule` compute, so it keeps to that for the rest of the
UTC day and may leave it after midnight. `eink_scheduler_repaint` computes the
slots anew and always keeps to it.
-/
open NodeLib

namespace EinkNode.Scheduler

/-- Seconds after midnight of the slot that the cron names. -/
def timeOfDay (j : Job) : Int :=
  match cronSlot j.cron.val with
  | some (minute, hour) => hour * 3600 + minute * 60
  | none => 0

/-- The most recent daily occurrence at or before `now`. -/
def lastOccurrence (now : Int) (j : Job) : Int :=
  let today := now / 86400 * 86400 + timeOfDay j
  if today ≤ now then today else today - 86400

/-- Every cron of the schedule is a minute and an hour. -/
def Daily (s : Schedule) : Prop := ∀ j ∈ s.jobs, (cronSlot j.cron.val).isSome

instance (s : Schedule) : Decidable (Daily s) := inferInstanceAs (Decidable (∀ j ∈ s.jobs, _))

theorem timeOfDay_range (j : Job) : 0 ≤ timeOfDay j ∧ timeOfDay j < 86400 := by
  unfold timeOfDay
  split
  · next h => have := cronSlot_range h; omega
  · omega

theorem next_run_today {j : Job} (hj : (cronSlot j.cron.val).isSome) {now : Int} (ht : Representable now) :
    eink_cron_next_run (some j.cron.val) now = now / 86400 * 86400 + timeOfDay j := by
  obtain ⟨⟨minute, hour⟩, hs⟩ := Option.isSome_iff_exists.1 hj
  rw [next_run_of_slot hs ht, slotOn]
  simp only [timeOfDay, hs]
  omega

theorem occurrence_eq {j : Job} (hj : (cronSlot j.cron.val).isSome) {now : Int} (ht : Representable now) :
    occurrence now j = lastOccurrence now j := by
  simp only [occurrence, lastOccurrence, next_run_today hj ht]
  split <;> split <;> omega

theorem lastOccurrence_le (now : Int) (j : Job) : lastOccurrence now j ≤ now := by
  have := timeOfDay_range j
  unfold lastOccurrence
  dsimp only
  split <;> omega

/-- `j` is one of the jobs whose slot came last. -/
def OnPanel (s : Schedule) (now : Int) (j : Job) : Prop :=
  j ∈ s.jobs ∧ ∀ j' ∈ s.jobs, lastOccurrence now j' ≤ lastOccurrence now j

/-- If `decide` finds a job, shown or suppressed, it is one whose slot came last. -/
def FollowsSchedule (s : Schedule) (now : Int) : Prop :=
  ∀ best i, overdue s now = some (best, i) → ∃ j, s.jobs[i]? = some j ∧ OnPanel s now j

/-- The siblings of `tick` that compute the slots anew find the job whose slot came last. -/
theorem current_slot_follows_schedule {s : Schedule} {now : Int} (hs : Daily s) (ht : Representable now)
    {best : Int} {i : Nat} (h : current_slot s now = some (best, i)) :
    ∃ j, s.jobs[i]? = some j ∧ OnPanel s now j := by
  unfold current_slot at h
  split at h
  · obtain ⟨⟨j, hj, -, hk⟩, htop⟩ := isLatest_of_latest h
    have hmem := List.mem_of_getElem? hj
    refine ⟨j, hj, hmem, fun j' hj' => ?_⟩
    obtain ⟨n, hn⟩ := List.getElem?_of_mem hj'
    have hle : occurrence now j' ≤ now := by
      rw [occurrence_eq (hs j' hj') ht]; exact lastOccurrence_le now j'
    have := (htop n j' hn (by simpa using hle)).1
    rwa [← hk, occurrence_eq (hs j' hj') ht, occurrence_eq (hs j hmem) ht] at this
  · cases h

/-! ## How long `next_run_unix` stays true -/

/-- `next_run_unix` is as computed on the UTC day of `r`. -/
def ComputedAt (s : Schedule) (r : Int) : Prop :=
  ∀ j ∈ s.jobs, j.next_run_unix = r / 86400 * 86400 + timeOfDay j

theorem computedAt_recompute {s : Schedule} (hs : Daily s) {r : Int} (ht : Representable r) :
    ComputedAt (recompute r s) r := by
  intro j hj
  obtain ⟨j0, hj0, rfl⟩ := List.mem_map.1 hj
  exact next_run_today (hs j0 hj0) ht

/-- What keeps slots that were computed at `r` true at `now`: `now` is on the
same UTC day, or all slots of that day are over, or none is. -/
def StillCurrent (s : Schedule) (r now : Int) : Prop :=
  r / 86400 = now / 86400 ∨ (∀ j ∈ s.jobs, timeOfDay j ≤ now % 86400) ∨
    ∀ j ∈ s.jobs, now % 86400 < timeOfDay j

theorem followsSchedule_iff {s : Schedule} {r now : Int} (hc : ComputedAt s r) (hr : r ≤ now) :
    FollowsSchedule s now ↔ StillCurrent s r now := by
  constructor
  · intro hf
    by_contra hcur
    simp only [StillCurrent, not_or, not_forall, not_le, not_lt] at hcur
    obtain ⟨hday, ⟨late, hlate, hlt⟩, early, hearly, hle⟩ := hcur
    -- On a later day every slot is overdue, so the last one of the day is found.
    have hdue : ∀ j ∈ s.jobs, j.next_run_unix ≤ now := by
      intro j hj
      have := timeOfDay_range j
      rw [hc j hj]; omega
    rcases latest_spec (fun j : Job => decide (j.next_run_unix ≤ now)) (·.next_run_unix) s.jobs with
      ⟨-, hall⟩ | ⟨best, i, hs, hl⟩
    · have := hall late hlate
      simp [hdue late hlate] at this
    · obtain ⟨j, hj, hmem, hlast⟩ := hf best i hs
      obtain ⟨⟨j', hj', -, hk⟩, htop⟩ := hl
      obtain rfl : j = j' := by simpa [hj] using hj'
      obtain ⟨n, hn⟩ := List.getElem?_of_mem hlate
      have h1 := (htop n late hn (by simpa using hdue late hlate)).1
      have h2 := hlast early hearly
      rw [← hk, hc late hlate, hc j hmem] at h1
      have hr1 := timeOfDay_range j
      have hr2 := timeOfDay_range early
      simp only [lastOccurrence] at h2
      split at h2 <;> split at h2 <;> omega
  · intro hcur best i hs
    obtain ⟨⟨j, hj, hok, hk⟩, htop⟩ := isLatest_of_latest hs
    have hmem := List.mem_of_getElem? hj
    have hdue : j.next_run_unix ≤ now := by simpa using hok
    rw [hc j hmem] at hdue
    refine ⟨j, hj, hmem, fun j' hj' => ?_⟩
    obtain ⟨n, hn⟩ := List.getElem?_of_mem hj'
    have htop' : j'.next_run_unix ≤ now → j'.next_run_unix ≤ j.next_run_unix := by
      intro h
      rw [hk]
      exact (htop n j' hn (by simpa using h)).1
    rw [hc j hmem, hc j' hj'] at htop'
    have hr1 := timeOfDay_range j
    have hr2 := timeOfDay_range j'
    simp only [lastOccurrence]
    rcases hcur with hday | hall | hnone
    · split <;> split <;> omega
    · have := hall j hmem
      have := hall j' hj'
      split <;> split <;> omega
    · have := hnone j hmem
      have := hnone j' hj'
      split <;> split <;> omega

/-! ## Every run -/

/-- A run on a clock that is set and never goes back, with daily schedules only. -/
structure DailyRun (es : List Event) : Prop where
  sorted : (es.map Event.time).Pairwise (· ≤ ·)
  clock : ∀ e ∈ es, 1700000000 ≤ e.time ∧ Representable e.time
  daily : ∀ e ∈ es, ∀ s ∈ e.given, Daily s

/-- The clock at the last `init` or `set_schedule`. -/
def recomputedStep (last : Option Int) : Event → Option Int
  | .init now _ _ => some now
  | .set_schedule none _ _ => last
  | .set_schedule (some _) now clock => some (if now ≤ 0 then clock else now)
  | _ => last

def recomputedAt (es : List Event) : Option Int := run recomputedStep none es

/-- The slots in memory are those of the last recomputation. -/
structure SlotsFrom (s : Schedule) (last : Option Int) (t : Int) : Prop where
  unset : last = none → s.jobs = []
  computed : ∀ r, last = some r → r ≤ t ∧ ComputedAt s r

theorem slotsFrom_step (ff : Bool) {st : State} {last : Option Int} {e : Event} {t : Int}
    (h : SlotsFrom st.sched last t) (hle : e.time ≤ t) (hc : Representable e.time) (hd : ∀ s ∈ e.given, Daily s) :
    SlotsFrom (step ff st e).sched (recomputedStep last e) t := by
  cases e with
  | init now stored_job stored =>
    refine ⟨nofun, fun r hr => ?_⟩
    cases hr
    refine ⟨hle, ?_⟩
    cases stored with
    | none => simp [step, eink_scheduler_init, ComputedAt]
    | some s =>
      simp only [step, eink_scheduler_init]
      split
      · exact computedAt_recompute (hd s rfl) hc
      · simp [ComputedAt]
  | set_schedule sched now clock =>
    cases sched with
    | none => exact h
    | some s =>
      refine ⟨nofun, fun r hr => ?_⟩
      cases hr
      exact ⟨hle, computedAt_recompute (hd s rfl) hc⟩
  | tick now a => simpa [step, recomputedStep] using h
  | repaint now a => simpa [step, recomputedStep] using h

theorem slotsFrom_run (ff : Bool) {es : List Event} {t : Int} (hle : ∀ e ∈ es, e.time ≤ t)
    (hc : ∀ e ∈ es, Representable e.time) (hd : ∀ e ∈ es, ∀ s ∈ e.given, Daily s) :
    SlotsFrom (run (step ff) .reset es).sched (recomputedAt es) t := by
  induction es using List.reverseRecOn with
  | nil => exact ⟨fun _ => rfl, nofun⟩
  | append_singleton es e ih =>
    simp only [List.mem_append, List.mem_singleton, or_imp, forall_and, forall_eq] at hle hc hd
    rw [recomputedAt, run_concat, run_concat]
    exact slotsFrom_step ff (ih hle.1 hc.1 hd.1) hle.2 hc.2 hd.2

/-- What keeps the tick at `now` true to the schedule, after the events before it. -/
def TickCurrent (s : Schedule) (last : Option Int) (now : Int) : Prop := ∀ r ∈ last, StillCurrent s r now

/-- At every tick of every run, `decide` follows the daily schedule exactly when the
slots in memory are still current. -/
theorem tick_follows_schedule_iff (ff : Bool) (before after : List Event) (now : Int) (a : ShowAnswers)
    (h : DailyRun (before ++ .tick now a :: after)) :
    FollowsSchedule (run (step ff) .reset before).sched now ↔
      TickCurrent (run (step ff) .reset before).sched (recomputedAt before) now := by
  have hle : ∀ e ∈ before, e.time ≤ now := by
    intro e he
    have hs := h.sorted
    rw [List.map_append, List.pairwise_append] at hs
    exact hs.2.2 _ (List.mem_map_of_mem he) now (by simp [Event.time])
  have hinv := slotsFrom_run ff hle (fun e he => (h.clock e (by simp [he])).2) (fun e he => h.daily e (by simp [he]))
  cases hlast : recomputedAt before with
  | none =>
    have hj := hinv.unset hlast
    refine ⟨fun _ => nofun, fun _ best i hs => ?_⟩
    rw [overdue, hj] at hs
    cases hs
  | some r =>
    obtain ⟨hr, hc⟩ := hinv.computed r hlast
    rw [followsSchedule_iff hc hr]
    simp [TickCurrent]

/-! ## The day after -/

def job (id cron : String) : Job :=
  { job_id := .copy _ (ascii id), image_id := .copy _ (ascii id), cron := .copy _ (ascii cron), next_run_unix := 0 }

/-- A at 08:00 and B at 20:00. -/
def twoJobs : Schedule := ⟨[job "A" "0 8 * * *", job "B" "0 20 * * *"], by decide⟩

/-- The schedule comes in at noon, and the tick is at 10:00 of the next day. -/
def noonThenMorning : List Event :=
  [.set_schedule (some twoJobs) (1704067200 + 12 * 3600) 0]

def nextMorning : Int := 1704067200 + 86400 + 10 * 3600

def shown : ShowAnswers := ⟨0, true, 0, 0, 0⟩

theorem noonThenMorning_daily : DailyRun (noonThenMorning ++ .tick nextMorning shown :: []) where
  sorted := by decide
  clock := by decide
  daily := by
    intro e he s hs
    simp only [noonThenMorning, List.cons_append, List.nil_append, List.mem_cons, List.not_mem_nil, or_false] at he
    rcases he with rfl | rfl
    · cases hs; decide
    · cases hs

theorem tick_follows_schedule_iff_next_morning :
    DailyRun (noonThenMorning ++ .tick nextMorning shown :: []) ∧
      (FollowsSchedule (run (step false) .reset noonThenMorning).sched nextMorning ↔
        TickCurrent (run (step false) .reset noonThenMorning).sched (recomputedAt noonThenMorning) nextMorning) :=
  ⟨noonThenMorning_daily, tick_follows_schedule_iff false noonThenMorning [] nextMorning shown noonThenMorning_daily⟩

/-- The tick finds B, whose last slot was yesterday at 20:00, although A's was today at 08:00. -/
theorem tick_leaves_schedule :
    ¬ ∀ (ff : Bool) (before after : List Event) (now : Int) (a : ShowAnswers),
      DailyRun (before ++ .tick now a :: after) → FollowsSchedule (run (step ff) .reset before).sched now := by
  intro h
  have hf := h false noonThenMorning [] nextMorning shown noonThenMorning_daily
  obtain ⟨j, hj, -, hlast⟩ := hf (1704067200 + 20 * 3600) 1 (by decide)
  have hA := hlast ((run (step false) .reset noonThenMorning).sched.jobs.head (by decide)) (List.head_mem _)
  have hB : j = (run (step false) .reset noonThenMorning).sched.jobs.getLast (by decide) := by
    refine Option.some.inj (hj.symm.trans ?_)
    decide
  rw [hB] at hA
  exact absurd hA (by decide)

end EinkNode.Scheduler
