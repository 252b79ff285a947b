import EinkNode.Scheduler.Daily
/-!
# Ticks alone

While nothing sets the schedule and nothing repaints, more and more jobs become
due and the latest of them only moves on, so a tick never goes back to a job.
-/
open NodeLib

namespace EinkNode.Scheduler

/-- A call of `eink_scheduler_tick`: the clock and what the store and the display answer. -/
structure Tick where
  now : Int
  a : ShowAnswers

variable (ff : Bool)

def tickStep (st : State) (t : Tick) : State := (eink_scheduler_tick ff st t.now t.a).2

/-- `next_run_unix` and index of the job that the tick advances `last_job` to. -/
def advance (st : State) (t : Tick) : Option (Int ×ₗ Nat) :=
  if (tickStep ff st t).last_job = st.last_job then none
  else
    match eink_scheduler_decide (some st.sched) t.now (some st.last_job.val) with
    | .NOP => none
    | .SHOW i => st.sched.jobs[i]?.map fun j => toLex (j.next_run_unix, i)

/-- The jobs that a run of ticks advances to, in their order. -/
def advances (st : State) : List Tick → List (Int ×ₗ Nat)
  | [] => []
  | t :: ts => (advance ff st t).toList ++ advances (tickStep ff st t) ts

/-- The lexicographically largest due job is the `i`-th one, `j`. -/
structure LargestDue (s : Schedule) (now : Int) (i : Nat) (j : Job) : Prop where
  entry : s.jobs[i]? = some j
  due : j.next_run_unix ≤ now
  top : ∀ (i' : Nat) (j' : Job), s.jobs[i']? = some j' → j'.next_run_unix ≤ now →
    toLex (j'.next_run_unix, i') ≤ toLex (j.next_run_unix, i)

variable {ff} {st : State} {now : Int}

/-! ## One tick -/

theorem largestDue_of_overdue {s : Schedule} {k : Int} {i : Nat} (h : overdue s now = some (k, i)) :
    ∃ j, LargestDue s now i j ∧ j.next_run_unix = k := by
  have hl := isLatest_of_latest h
  obtain ⟨j, hj, hdue, rfl⟩ := hl.here
  exact ⟨j, ⟨hj, by simpa using hdue, fun i' j' hj' hdue' => hl.le hj' (by simpa using hdue')⟩, rfl⟩

theorem overdue_eq_none {s : Schedule} : overdue s now = none ↔ ∀ j ∈ s.jobs, now < j.next_run_unix := by
  rw [overdue, latest_eq_none]
  simp

/-- What one tick does: nothing, or it shows the largest due job, which is not the one shown last. -/
theorem tick_cases (ff : Bool) (st : State) (now : Int) (a : ShowAnswers) :
    eink_scheduler_tick ff st now a = (0, st) ∧ (overdue st.sched now = none ∨
        ∃ i j, LargestDue st.sched now i j ∧ st.last_job.val ≠ [] ∧ j.job_id = st.last_job) ∨
      ∃ i j, overdue st.sched now = some (j.next_run_unix, i) ∧ LargestDue st.sched now i j ∧
        ¬(st.last_job.val ≠ [] ∧ j.job_id = st.last_job) ∧
        eink_scheduler_decide (some st.sched) now (some st.last_job.val) = .SHOW i ∧
        eink_scheduler_tick ff st now a = show_job_locked_copy ff st j true a := by
  cases hover : overdue st.sched now with
  | none => exact .inl ⟨by simp [eink_scheduler_tick, eink_scheduler_decide, hover], .inl rfl⟩
  | some p =>
    obtain ⟨k, i⟩ := p
    obtain ⟨j, hlarge, rfl⟩ := largestDue_of_overdue hover
    have hid : st.sched.jobs[i]?.map (·.job_id.val) = some st.last_job.val ↔ j.job_id = st.last_job := by
      rw [hlarge.entry, Option.map_some, Option.some_inj]
      exact ⟨CStr.ext, congrArg _⟩
    by_cases hshown : st.last_job.val ≠ [] ∧ j.job_id = st.last_job
    · refine .inl ⟨?_, .inr ⟨i, j, hlarge, hshown⟩⟩
      simp only [eink_scheduler_tick, eink_scheduler_decide, hover, hid, if_pos hshown]
    · have hdecide : eink_scheduler_decide (some st.sched) now (some st.last_job.val) = .SHOW i := by
        simp only [eink_scheduler_decide, hover, hid, if_neg hshown]
      refine .inr ⟨i, j, rfl, hlarge, hshown, hdecide, ?_⟩
      simp only [eink_scheduler_tick, hdecide, hlarge.entry]

/-- A call that gets as far as the store does not return 0. -/
theorem show_job_ne_zero (st : State) (job : Job) (adv : Bool) (a : ShowAnswers) :
    (show_job_locked_copy ff st job adv a).1 ≠ 0 := by
  have hnoent : -ENOENT ≠ 0 := by decide
  unfold show_job_locked_copy
  split
  · exact hnoent
  · split
    · exact hnoent
    · split
      · assumption
      · split
        · next h => simpa using (Bool.and_eq_true_iff.1 h).2
        · split
          · next h => simpa using (Bool.and_eq_true_iff.1 h).2
          · exact Int.one_ne_zero

variable (ff) in
/-- What a call can do to the last job. -/
theorem show_job_last_job (st : State) (job : Job) (adv : Bool) (a : ShowAnswers) :
    (show_job_locked_copy ff st job adv a).2.last_job = st.last_job ∨
      adv = true ∧ (show_job_locked_copy ff st job adv a).2.last_job = job.job_id := by
  unfold show_job_locked_copy
  iterate 5 (split; · exact .inl rfl)
  cases adv with
  | true => exact .inr ⟨rfl, CStr.copy_val job.job_id⟩
  | false => exact .inl rfl

theorem LargestDue.unique {s : Schedule} {i i' : Nat} {j j' : Job} (h : LargestDue s now i j)
    (h' : LargestDue s now i' j') : j = j' := by
  have heq := le_antisymm (h'.top i j h.entry h.due) (h.top i' j' h'.entry h'.due)
  have hi : i = i' := congrArg (fun p => (ofLex p).2) heq
  have hj := h.entry
  rw [hi, h'.entry] at hj
  exact (Option.some.inj hj).symm

theorem tick_eq_zero (hids : ∀ j ∈ st.sched.jobs, j.job_id.val ≠ []) (a : ShowAnswers) :
    (eink_scheduler_tick ff st now a).1 = 0 ↔
      (∀ j ∈ st.sched.jobs, now < j.next_run_unix) ∨
        ∃ i j, LargestDue st.sched now i j ∧ j.job_id = st.last_job := by
  rcases tick_cases ff st now a with ⟨htick, hnothing⟩ | ⟨i, j, hover, hlarge, hshown, -, htick⟩
  · rw [htick]
    refine ⟨fun _ => ?_, fun _ => rfl⟩
    rcases hnothing with hnone | ⟨i, j, hlarge, -, hid⟩
    · exact .inl (overdue_eq_none.1 hnone)
    · exact .inr ⟨i, j, hlarge, hid⟩
  · rw [htick]
    refine ⟨fun h => absurd h (show_job_ne_zero _ _ _ _), ?_⟩
    rintro (hnone | ⟨i', j', hlarge', hid⟩)
    · exact absurd hlarge.due (not_le.2 (hnone j (List.mem_of_getElem? hlarge.entry)))
    · obtain rfl := hlarge.unique hlarge'
      exact absurd ⟨hid ▸ hids j (List.mem_of_getElem? hlarge.entry), hid⟩ hshown

/-- An advance shows the largest due job, and it is a new one. -/
theorem advance_some {t : Tick} {p : Int ×ₗ Nat} (h : advance ff st t = some p) :
    overdue st.sched t.now = some (ofLex p) ∧ ∃ j, st.sched.jobs[(ofLex p).2]? = some j ∧
      j.next_run_unix = (ofLex p).1 ∧ j.job_id ≠ st.last_job ∧ (tickStep ff st t).last_job = j.job_id := by
  unfold advance at h
  split at h
  · cases h
  · next hmoved =>
    rcases tick_cases ff st t.now t.a with ⟨htick, -⟩ | ⟨i, j, hover, hlarge, -, hdecide, htick⟩
    · rw [tickStep, htick] at hmoved
      exact absurd rfl hmoved
    · simp only [hdecide, hlarge.entry, Option.map_some, Option.some.injEq] at h
      subst h
      have hlast : (tickStep ff st t).last_job = j.job_id := by
        rcases show_job_last_job ff st j true t.a with hsame | ⟨-, hlast⟩
        · rw [tickStep, htick] at hmoved
          exact absurd hsame hmoved
        · rw [tickStep, htick]
          exact hlast
      exact ⟨hover, j, hlarge.entry, rfl, fun hid => hmoved (hlast.trans hid), hlast⟩

theorem advance_none {t : Tick} (h : advance ff st t = none) : (tickStep ff st t).last_job = st.last_job := by
  by_contra hmoved
  rcases tick_cases ff st t.now t.a with ⟨htick, -⟩ | ⟨i, j, -, hlarge, -, hdecide, -⟩
  · rw [tickStep, htick] at hmoved
    exact hmoved rfl
  · rw [advance, if_neg hmoved] at h
    simp [hdecide, hlarge.entry] at h

@[simp]
theorem tickStep_sched (t : Tick) : (tickStep ff st t).sched = st.sched := tick_sched ..

/-! ## A run of ticks -/

/-- After an advance, only later jobs are advanced to. -/
theorem advances_gt {ts : List Tick} {before : Int} {p : Int ×ₗ Nat} {j : Job}
    (hover : overdue st.sched before = some (ofLex p)) (hj : st.sched.jobs[(ofLex p).2]? = some j)
    (hlast : st.last_job = j.job_id) (hsorted : (ts.map Tick.now).Pairwise (· ≤ ·))
    (hle : ∀ t ∈ ts, before ≤ t.now) : ∀ q ∈ advances ff st ts, p < q := by
  induction ts generalizing st before p j with
  | nil => intro q hq; cases hq
  | cons t ts ih =>
    rw [List.map_cons, List.pairwise_cons] at hsorted
    have hlater : ∀ t' ∈ ts, t.now ≤ t'.now := fun t' ht' => hsorted.1 _ (List.mem_map_of_mem ht')
    intro q hq
    rw [advances] at hq
    cases hadv : advance ff st t with
    | none =>
      rw [hadv] at hq
      exact ih (by rwa [tickStep_sched]) (by rwa [tickStep_sched]) ((advance_none hadv).trans hlast) hsorted.2
        (fun t' ht' => hle t' (List.mem_cons_of_mem t ht')) q hq
    | some r =>
      obtain ⟨hover', j', hj', -, hnew, hlast'⟩ := advance_some hadv
      -- More is due than before, and the largest due job is another one.
      have hpr : p < r := by
        have hdue (x : Job) (hx : decide (x.next_run_unix ≤ before) = true) :
            decide (x.next_run_unix ≤ t.now) = true := by
          have := hle t List.mem_cons_self
          simp only [decide_eq_true_eq] at hx ⊢
          omega
        obtain ⟨r', hr', hpr⟩ := latest_mono hdue hover
        rw [overdue] at hover'
        rw [hover', Option.some_inj] at hr'
        subst hr'
        refine lt_of_le_of_ne hpr fun heq => hnew ?_
        have : p = r := heq
        rw [← this, hj] at hj'
        rw [← Option.some.inj hj', hlast]
      rw [hadv, Option.toList_some, List.singleton_append, List.mem_cons] at hq
      rcases hq with rfl | hq
      · exact hpr
      · exact hpr.trans (ih (by rwa [tickStep_sched]) (by rwa [tickStep_sched]) hlast' hsorted.2 hlater q hq)

theorem advances_pairwise {ts : List Tick} (hsorted : (ts.map Tick.now).Pairwise (· ≤ ·)) :
    (advances ff st ts).Pairwise (· < ·) := by
  induction ts generalizing st with
  | nil => exact List.Pairwise.nil
  | cons t ts ih =>
    rw [List.map_cons, List.pairwise_cons] at hsorted
    rw [advances]
    cases hadv : advance ff st t with
    | none => exact ih hsorted.2
    | some p =>
      obtain ⟨hover, j, hj, -, -, hlast⟩ := advance_some hadv
      rw [Option.toList_some, List.singleton_append, List.pairwise_cons]
      refine ⟨advances_gt (by rwa [tickStep_sched]) (by rwa [tickStep_sched]) hlast hsorted.2 ?_, ih hsorted.2⟩
      exact fun t' ht' => hsorted.1 _ (List.mem_map_of_mem ht')

/-- Every advance is to a job of the schedule, with its slot. -/
theorem mem_advances {ts : List Tick} {p : Int ×ₗ Nat} (h : p ∈ advances ff st ts) :
    ∃ j, st.sched.jobs[(ofLex p).2]? = some j ∧ j.next_run_unix = (ofLex p).1 := by
  induction ts generalizing st with
  | nil => cases h
  | cons t ts ih =>
    rw [advances, List.mem_append, Option.mem_toList] at h
    rcases h with h | h
    · obtain ⟨-, j, hj, hslot, -, -⟩ := advance_some h
      exact ⟨j, hj, hslot⟩
    · simpa using ih h

/-- In a run of ticks on a clock that does not go back, the jobs advanced to come in the order of
their slots and indices, each at most once. A tick has nothing to do exactly if nothing is due or
the largest due job has the id of the last one. -/
theorem ticks_never_go_back (ff : Bool) (st : State) (hids : ∀ j ∈ st.sched.jobs, j.job_id.val ≠ []) (ts : List Tick)
    (hsorted : (ts.map Tick.now).Pairwise (· ≤ ·)) :
    (advances ff st ts).Pairwise (· < ·) ∧
      ((advances ff st ts).map fun p => (ofLex p).2).Nodup ∧
      Meets (tickStep ff) (fun st' t => (eink_scheduler_tick ff st' t.now t.a).1 = 0 ↔
        (∀ j ∈ st.sched.jobs, t.now < j.next_run_unix) ∨
          ∃ i j, LargestDue st.sched t.now i j ∧ j.job_id = st'.last_job) st ts := by
  refine ⟨advances_pairwise hsorted, ?_, ?_⟩
  · refine List.pairwise_map.2 ((advances_pairwise hsorted).imp_of_mem fun {p q} hp hq hlt hindex => ?_)
    obtain ⟨j, hj, hp⟩ := mem_advances hp
    obtain ⟨j', hj', hq⟩ := mem_advances hq
    rw [hindex, hj', Option.some_inj] at hj
    exact absurd (show p = q from Prod.ext (by rw [← hj, hq] at hp; exact hp.symm) hindex) (ne_of_lt hlt)
  · refine meets_of_invariant (fun st' => st'.sched = st.sched) rfl (fun st' t h => by rw [tickStep_sched, h]) ?_
    intro st' t h
    rw [← h]
    exact tick_eq_zero (h ▸ hids) t.a

/-- A at 08:00 and B at 20:00, before either is due. -/
def morning : State where
  sched := ⟨[{ job "A" "0 8 * * *" with next_run_unix := 1704096000 },
    { job "B" "0 20 * * *" with next_run_unix := 1704139200 }], by decide⟩
  last_job := .empty _

/-- One tick at 09:00, when A is due, and one at 21:00, when both are. -/
def dayTicks : List Tick := [⟨1704099600, shown⟩, ⟨1704142800, shown⟩]

theorem ticks_never_go_back_day : advances false morning dayTicks = [toLex (1704096000, 0), toLex (1704139200, 1)] ∧
    (advances false morning dayTicks).Pairwise (· < ·) :=
  ⟨by decide, (ticks_never_go_back false morning (by decide) dayTicks (by decide)).1⟩

end EinkNode.Scheduler
