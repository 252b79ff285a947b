import EinkNode.Scheduler.Agree
import EinkNode.Scheduler.Ticks
/-!
# Painting before the clock is set

`repaint` and `current_image` look at the clock before they trust it, `tick` does
not: on a clock that has started at the epoch it takes the slots of that day for
due and leaves the job that was shown last.
-/
open NodeLib

namespace EinkNode.Scheduler

/-- A paint round: `tick`, and `repaint` when `tick` returned 0. -/
structure Round where
  tick_now : Int
  repaint_now : Int
  tick : ShowAnswers
  repaint : ShowAnswers

/-- The call of `eink_display_show_path` that `show_job_locked_copy` makes for `job`. -/
def show_command (job : Job) (a : ShowAnswers) : Option Job :=
  if a.resolve_show_path ≠ 0 then none else if !a.has_valid_image then none else some job

def tick_command (st : State) (now : Int) (a : ShowAnswers) : Option Job :=
  match eink_scheduler_decide (some st.sched) now (some st.last_job.val) with
  | .NOP => none
  | .SHOW i => st.sched.jobs[i]?.bind (show_command · a)

def repaint_command (st : State) (now : Int) (a : ShowAnswers) : Option Job :=
  match (current_slot st.sched now).bind fun best => st.sched.jobs[best.2]? with
  | some job => show_command job a
  | none => (last_job_entry st).bind (show_command · a)

variable (ff : Bool)

def round_step (st : State) (r : Round) : State :=
  let ticked := eink_scheduler_tick ff st r.tick_now r.tick
  if ticked.1 = 0 then (eink_scheduler_repaint ff ticked.2 r.repaint_now r.repaint).2 else ticked.2

/-- The jobs that the round sends to the display. -/
def round_commands (st : State) (r : Round) : List Job :=
  let ticked := eink_scheduler_tick ff st r.tick_now r.tick
  (tick_command st r.tick_now r.tick).toList ++
    if ticked.1 = 0 then (repaint_command ticked.2 r.repaint_now r.repaint).toList else []

/-- Every command of the rounds is for the job `last`, which stays the last one. -/
def KeepsShowing (last : Id) (st : State) (rounds : List Round) : Prop :=
  Meets (round_step ff) (fun st r => (∀ j ∈ round_commands ff st r, j.job_id = last) ∧
    (round_step ff st r).last_job = last) st rounds

/-- A slot of another job that counts as due at `now`, computed at `boot`, comes before one of `last`. -/
def LastJobLatest (s : Schedule) (last : Id) (boot now : Int) : Prop :=
  ∀ (n : Nat) (j : Job), s.jobs[n]? = some j → eink_cron_next_run (some j.cron.val) boot ≤ now → j.job_id ≠ last →
    ∃ (i : Nat) (d : Job), s.jobs[i]? = some d ∧ d.job_id = last ∧ eink_cron_next_run (some d.cron.val) boot ≤ now ∧
      toLex (eink_cron_next_run (some j.cron.val) boot, n) < toLex (eink_cron_next_run (some d.cron.val) boot, i)

variable {ff} {s : Schedule} {last : Id} {boot now : Int} {st : State}

theorem init_jobs (boot : Int) (last : Id) (s : Schedule) :
    (eink_scheduler_init boot last (some s)).sched.jobs = (recompute boot s).jobs := by
  simp only [eink_scheduler_init]
  split
  · rfl
  · next h => simp [recompute, List.eq_nil_of_length_eq_zero (Nat.eq_zero_of_not_pos h)]

/-- The state of a run in which nothing has been advanced. -/
structure Unmoved (s : Schedule) (last : Id) (boot : Int) (st : State) : Prop where
  jobs : st.sched.jobs = (recompute boot s).jobs
  last_job : st.last_job = last

/-- The largest due job is one of `last`, or nothing is due. -/
theorem lastJobLatest_iff (h : Unmoved s last boot st) :
    LastJobLatest s last boot now ↔ ∀ i j, LargestDue st.sched now i j → j.job_id = last := by
  have hentry {i : Nat} {j : Job} (hj : s.jobs[i]? = some j) := h.jobs ▸ @getElem?_recompute boot s i j hj
  constructor
  · intro hlatest i j' hlarge
    obtain ⟨j, hj, rfl⟩ := of_getElem?_recompute (h.jobs ▸ hlarge.entry)
    by_contra hid
    obtain ⟨i', d, hd, -, hdue, hlt⟩ := hlatest i j hj hlarge.due hid
    exact absurd hlt (not_lt.2 (hlarge.top i' _ (hentry hd) hdue))
  · intro hall n j hj hdue hid
    cases hover : overdue st.sched now with
    | none => exact absurd hdue (not_le.2 (overdue_eq_none.1 hover _ (List.mem_of_getElem? (hentry hj))))
    | some p =>
      obtain ⟨d', hlarge, -⟩ := largestDue_of_overdue (show overdue st.sched now = some (p.1, p.2) from hover)
      have hlast := hall p.2 d' hlarge
      have hle := hlarge.top n _ (hentry hj) hdue
      have hsame : n = p.2 → j.job_id = d'.job_id := by
        rintro rfl
        have heq := hlarge.entry
        rw [hentry hj, Option.some_inj] at heq
        rw [← heq]
      obtain ⟨d, hd, rfl⟩ := of_getElem?_recompute (h.jobs ▸ hlarge.entry)
      refine ⟨p.2, d, hd, hlast, hlarge.due, lt_of_le_of_ne hle fun heq => hid ?_⟩
      rw [hsame (congrArg (fun q => (ofLex q).2) heq), hlast]

/-! ## One round -/

variable (ff) in
theorem tick_command_of_zero {a : ShowAnswers} (h : (eink_scheduler_tick ff st now a).1 = 0) :
    tick_command st now a = none := by
  rw [tick_command]
  rw [eink_scheduler_tick] at h
  cases hdecide : eink_scheduler_decide (some st.sched) now (some st.last_job.val) with
  | NOP => rfl
  | SHOW i =>
    cases hj : st.sched.jobs[i]? with
    | none => simp only [hj, Option.bind_none]
    | some j =>
      simp only [hdecide, hj] at h
      exact absurd h (show_job_ne_zero _ _ _ _)

theorem show_command_eq {job j : Job} {a : ShowAnswers} (h : show_command job a = some j) : j = job := by
  unfold show_command at h
  split at h
  · cases h
  · split at h
    · cases h
    · exact (Option.some.inj h).symm

theorem last_job_entry_id {j : Job} (h : last_job_entry st = some j) : j.job_id = st.last_job := by
  unfold last_job_entry at h
  split at h
  · cases h
  · simpa using List.find?_some h

variable (ff) in
/-- A repaint on an unset clock is for the last job, and leaves it so. -/
theorem repaint_unset (h : Unmoved s last boot st) (hnow : now < 1700000000) (a : ShowAnswers) :
    Unmoved s last boot (eink_scheduler_repaint ff st now a).2 ∧ ∀ j ∈ repaint_command st now a, j.job_id = last := by
  have hslot : current_slot st.sched now = none := if_neg (by simpa [wall_clock_ok] using hnow)
  rw [repaint_command, eink_scheduler_repaint, hslot]
  cases hentry : last_job_entry st with
  | none => exact ⟨h, nofun⟩
  | some job =>
    refine ⟨⟨?_, ?_⟩, fun j hj => ?_⟩
    · simp only [Option.bind_none, show_job_sched]
      exact h.jobs
    · rcases show_job_last_job ff st job false a with hsame | ⟨hadv, -⟩
      · exact hsame.trans h.last_job
      · cases hadv
    · rw [show_command_eq hj, last_job_entry_id hentry, h.last_job]

variable (ff) in
/-- A round in which the largest due job is the last one shows that one. -/
theorem round_unmoved {r : Round} (h : Unmoved s last boot st) (hid : last.val ≠ [])
    (hlatest : LastJobLatest s last boot r.tick_now) (hnow : r.repaint_now < 1700000000) :
    Unmoved s last boot (round_step ff st r) ∧ ∀ j ∈ round_commands ff st r, j.job_id = last := by
  have htick : eink_scheduler_tick ff st r.tick_now r.tick = (0, st) := by
    rcases tick_cases ff st r.tick_now r.tick with ⟨htick, -⟩ | ⟨i, j, -, hlarge, hshown, -, -⟩
    · exact htick
    · refine absurd ⟨?_, ?_⟩ hshown
      · rwa [h.last_job]
      · rw [(lastJobLatest_iff h).1 hlatest i j hlarge, h.last_job]
  have hnone : tick_command st r.tick_now r.tick = none := tick_command_of_zero ff (by rw [htick])
  obtain ⟨hunmoved, hcommand⟩ := repaint_unset ff h hnow r.repaint
  simp only [round_step, round_commands, htick, hnone, if_true]
  refine ⟨hunmoved, fun j hj => hcommand j ?_⟩
  simpa using hj

/-- With a store and a display that do what they are asked, any other due job is shown. -/
theorem lastJobLatest_of_round {r : Round} (h : Unmoved s last boot st) (hr : r.tick = shown)
    (hcommands : ∀ j ∈ round_commands ff st r, j.job_id = last) : LastJobLatest s last boot r.tick_now := by
  refine (lastJobLatest_iff h).2 fun i j hlarge => ?_
  rcases tick_cases ff st r.tick_now r.tick with ⟨-, hnothing⟩ | ⟨i', j', -, hlarge', -, hdecide, -⟩
  · rcases hnothing with hnone | ⟨i', j', hlarge', -, hid⟩
    · exact absurd hlarge.due (not_le.2 (overdue_eq_none.1 hnone j (List.mem_of_getElem? hlarge.entry)))
    · rw [hlarge.unique hlarge', hid, h.last_job]
  · rw [hlarge.unique hlarge']
    refine hcommands j' (List.mem_append_left _ ?_)
    simp [tick_command, hdecide, hlarge'.entry, hr, show_command, shown]

/-! ## Every run of rounds -/

theorem unmoved_init (boot : Int) (last : Id) (s : Schedule) :
    Unmoved s last boot (eink_scheduler_init boot last (some s)) :=
  ⟨init_jobs boot last s, rfl⟩

theorem keepsShowing_of_latest {rounds : List Round} (h : Unmoved s last boot st) (hid : last.val ≠ [])
    (hrounds : ∀ r ∈ rounds, LastJobLatest s last boot r.tick_now ∧ r.repaint_now < 1700000000) :
    KeepsShowing ff last st rounds := by
  induction rounds generalizing st with
  | nil => trivial
  | cons r rounds ih =>
    obtain ⟨hlatest, hnow⟩ := hrounds r List.mem_cons_self
    obtain ⟨hunmoved, hcommands⟩ := round_unmoved ff h hid hlatest hnow
    exact ⟨⟨hcommands, hunmoved.last_job⟩, ih hunmoved fun r' hr' => hrounds r' (List.mem_cons_of_mem r hr')⟩

theorem latest_of_keepsShowing {rounds : List Round} (h : Unmoved s last boot st) (hid : last.val ≠ [])
    (hnow : ∀ r ∈ rounds, r.tick = shown ∧ r.repaint_now < 1700000000) (hkeeps : KeepsShowing ff last st rounds) :
    ∀ r ∈ rounds, LastJobLatest s last boot r.tick_now := by
  induction rounds generalizing st with
  | nil =>
    intro r hr
    cases hr
  | cons r rounds ih =>
    obtain ⟨⟨hcommands, -⟩, hrest⟩ := hkeeps
    obtain ⟨hshown, hunset⟩ := hnow r List.mem_cons_self
    have hlatest := lastJobLatest_of_round h hshown hcommands
    have hunmoved := (round_unmoved ff h hid hlatest hunset).1
    intro r' hr'
    rcases List.mem_cons.1 hr' with rfl | hr'
    · exact hlatest
    · exact ih hunmoved (fun x hx => hnow x (List.mem_cons_of_mem r hx)) hrest r' hr'

/-- Painting on an unset clock keeps to the last job, whatever the store and the display answer, exactly if at
each reading of `tick` every other due slot comes before a due slot of the last job. -/
theorem unset_clock_keeps_showing_iff (ff : Bool) (s : Schedule) (last : Id) (boot : Int) (clocks : List (Int × Int))
    (hid : last.val ≠ []) (hunset : ∀ c ∈ clocks, c.2 < 1700000000) :
    (∀ rounds : List Round, rounds.map (fun r => (r.tick_now, r.repaint_now)) = clocks →
        KeepsShowing ff last (eink_scheduler_init boot last (some s)) rounds) ↔
      ∀ c ∈ clocks, LastJobLatest s last boot c.1 := by
  constructor
  · intro hkeeps c hc
    have hclocks : (clocks.map fun c => Round.mk c.1 c.2 shown shown).map (fun r => (r.tick_now, r.repaint_now)) =
        clocks := by
      rw [List.map_map]
      exact List.map_id clocks
    refine latest_of_keepsShowing (unmoved_init boot last s) hid ?_ (hkeeps _ hclocks) ⟨c.1, c.2, shown, shown⟩
      (List.mem_map_of_mem hc)
    intro r hr
    obtain ⟨c', hc', rfl⟩ := List.mem_map.1 hr
    exact ⟨rfl, hunset c' hc'⟩
  · rintro hlatest rounds rfl
    refine keepsShowing_of_latest (unmoved_init boot last s) hid fun r hr => ?_
    have hc := List.mem_map_of_mem (f := fun r : Round => (r.tick_now, r.repaint_now)) hr
    exact ⟨hlatest _ hc, hunset _ hc⟩

/-- A at 00:01 and B at 00:00. -/
def laterJobs : Schedule := ⟨[job "A" "1 0 * * *", job "B" "0 0 * * *"], by decide⟩

/-- From two minutes after the epoch on both are due, and A, which has the later slot, stays. -/
theorem unset_clock_keeps_showing_iff_later :
    KeepsShowing false (job "A" "").job_id (eink_scheduler_init 120 (job "A" "").job_id (some laterJobs))
      [⟨120, 121, shown, shown⟩, ⟨420, 425, shown, shown⟩] := by
  have hlatest : ∀ c ∈ [((120 : Int), (121 : Int)), (420, 425)],
      LastJobLatest laterJobs (job "A" "").job_id 120 c.1 := by
    intro c hc n j hj _ hne
    have hpast : 120 ≤ c.1 := by
      simp only [List.mem_cons, List.not_mem_nil, or_false] at hc
      rcases hc with rfl | rfl
      · decide
      · decide
    match n with
    | 0 =>
      cases hj
      exact absurd rfl hne
    | 1 =>
      cases hj
      exact ⟨0, job "A" "1 0 * * *", rfl, rfl, le_trans (by decide) hpast,
        Prod.Lex.toLex_lt_toLex.2 (.inl (by decide))⟩
  exact (unset_clock_keeps_showing_iff false laterJobs (job "A" "").job_id 120 _
    (by decide) (by decide)).2 hlatest _ rfl

/-- A at 00:00 and B at 00:01. -/
def earlyJobs : Schedule := ⟨[job "A" "0 0 * * *", job "B" "1 0 * * *"], by decide⟩

/-- Two minutes after a start at the epoch, A is left for B. -/
theorem unset_clock_leaves_last_job :
    ¬ ∀ (ff : Bool) (s : Schedule) (last : Id) (boot : Int) (rounds : List Round), last.val ≠ [] →
      (∃ j ∈ s.jobs, j.job_id = last) → 0 ≤ boot ∧ boot < 1700000000 →
      (∀ r ∈ rounds, 0 ≤ r.tick_now ∧ r.tick_now < 1700000000 ∧ 0 ≤ r.repaint_now ∧ r.repaint_now < 1700000000) →
      KeepsShowing ff last (eink_scheduler_init boot last (some s)) rounds := by
  intro h
  have hkeeps := h false earlyJobs (job "A" "").job_id 120 [⟨120, 120, shown, shown⟩] (by decide)
    (by decide) (by decide) (by simp)
  exact absurd hkeeps.1.2 (by decide)

end EinkNode.Scheduler
