import EinkNode.Lib.Errno
import EinkNode.Lib.Runs
import EinkNode.Scheduler.Core
/-!
# The scheduler service

`eink_scheduler.c`: the schedule and the last displayed job, both behind one
mutex, and the calls that read or change them. The clock, the store and the
display are arguments of each call.
-/
open NodeLib

namespace EinkNode.Scheduler

/-- The statics of the file. -/
structure State where
  sched : Schedule
  last_job : Id
deriving DecidableEq

/-- Zeroed memory, before `eink_scheduler_init`. -/
def State.reset : State := ⟨.empty, .empty _⟩

def wall_clock_ok (now : Int) : Bool := decide (now ≥ 1700000000)

/-- `next_run_unix = eink_cron_next_run(cron, now)` for every job. -/
def recompute (now : Int) (s : Schedule) : Schedule :=
  s.map fun j => { j with next_run_unix := eink_cron_next_run (some j.cron.val) now }

/-- `last_job` and the schedule are what the store has, if it has a schedule that loads. -/
def eink_scheduler_init (now : Int) (stored_job : Id) (stored : Option Schedule) : State :=
  { last_job := stored_job
    sched := match stored with
      | some s => if s.jobs.length > 0 then recompute now s else .empty
      | none => .empty }

def eink_scheduler_set_schedule (st : State) (sched : Option Schedule) (now clock : Int) : Int × State :=
  match sched with
  | none => (-EINVAL, st)
  | some s => (0, { st with sched := recompute (if now ≤ 0 then clock else now) s })

/-- What the store and the display answer to one `show_job_locked_copy`. -/
structure ShowAnswers where
  resolve_show_path : Int
  has_valid_image : Bool
  show_path : Int
  wait_idle : Int
  last_result : Int

/-- `fire_and_forget` is `CONFIG_APP_EINK_DISPLAY_FIRE_AND_FORGET`. -/
def show_job_locked_copy (fire_and_forget : Bool) (st : State) (job : Job) (advance_state : Bool)
    (a : ShowAnswers) : Int × State :=
  if a.resolve_show_path ≠ 0 then (-ENOENT, st)
  else if !a.has_valid_image then (-ENOENT, st)
  else if a.show_path ≠ 0 then (a.show_path, st)
  else if !fire_and_forget && a.wait_idle != 0 then (a.wait_idle, st)
  else if !fire_and_forget && a.last_result != 0 then (a.last_result, st)
  else (1, if advance_state then { st with last_job := .copy _ job.job_id.val } else st)

def eink_scheduler_tick (fire_and_forget : Bool) (st : State) (now : Int) (a : ShowAnswers) : Int × State :=
  match eink_scheduler_decide (some st.sched) now (some st.last_job.val) with
  | .NOP => (0, st)
  | .SHOW i =>
    match st.sched.jobs[i]? with
    | some job => show_job_locked_copy fire_and_forget st job true a
    | none => (0, st)

/-- The latest time at or before `now` that the cron of `j` names, as `repaint` computes it. -/
def occurrence (now : Int) (j : Job) : Int :=
  let occ := eink_cron_next_run (some j.cron.val) now
  if occ > now then occ - 86400 else occ

/-- The loop of `repaint` and `current_image`. -/
def current_slot (sched : Schedule) (now : Int) : Option (Int × Nat) :=
  if wall_clock_ok now then latest (fun j => decide (occurrence now j ≤ now)) (occurrence now) sched.jobs
  else none

/-- The job last displayed, when the schedule still has it. -/
def last_job_entry (st : State) : Option Job :=
  if st.last_job.val = [] then none else st.sched.jobs.find? fun j => j.job_id = st.last_job

def eink_scheduler_repaint (fire_and_forget : Bool) (st : State) (now : Int) (a : ShowAnswers) : Int × State :=
  match (current_slot st.sched now).bind fun best => st.sched.jobs[best.2]? with
  | some job =>
    show_job_locked_copy fire_and_forget st job (st.last_job.val = [] || st.last_job ≠ job.job_id) a
  | none =>
    match last_job_entry st with
    | some job => show_job_locked_copy fire_and_forget st job false a
    | none => (0, st)

/-- The image that `tick` would show now. -/
def eink_scheduler_due_image (st : State) (now : Int) : Option Id :=
  match eink_scheduler_decide (some st.sched) now (some st.last_job.val) with
  | .NOP => none
  | .SHOW i => st.sched.jobs[i]?.map (·.image_id)

/-- The image that should be on the panel now. -/
def eink_scheduler_current_image (st : State) (now : Int) : Option Id :=
  match (current_slot st.sched now).bind fun best => st.sched.jobs[best.2]? with
  | some job => some job.image_id
  | none => (last_job_entry st).map (·.image_id)

/-! ## Runs -/

/-- A call, with the clock it reads and what it is answered. -/
inductive Event where
  | init (now : Int) (stored_job : Id) (stored : Option Schedule)
  | set_schedule (sched : Option Schedule) (now clock : Int)
  | tick (now : Int) (a : ShowAnswers)
  | repaint (now : Int) (a : ShowAnswers)

/-- The wall-clock reading that the call uses. -/
def Event.time : Event → Int
  | .init now _ _ => now
  | .set_schedule _ now clock => if now ≤ 0 then clock else now
  | .tick now _ => now
  | .repaint now _ => now

/-- The schedule that the call brings in. -/
def Event.given : Event → Option Schedule
  | .init _ _ stored => stored
  | .set_schedule sched _ _ => sched
  | _ => none

def step (fire_and_forget : Bool) (st : State) : Event → State
  | .init now stored_job stored => eink_scheduler_init now stored_job stored
  | .set_schedule sched now clock => (eink_scheduler_set_schedule st sched now clock).2
  | .tick now a => (eink_scheduler_tick fire_and_forget st now a).2
  | .repaint now a => (eink_scheduler_repaint fire_and_forget st now a).2

/-- No call that shows a job touches the schedule. -/
@[simp]
theorem show_job_sched (ff : Bool) (st : State) (job : Job) (adv : Bool) (a : ShowAnswers) :
    (show_job_locked_copy ff st job adv a).2.sched = st.sched := by
  unfold show_job_locked_copy
  repeat (first | rfl | split)

@[simp]
theorem tick_sched (ff : Bool) (st : State) (now : Int) (a : ShowAnswers) :
    (eink_scheduler_tick ff st now a).2.sched = st.sched := by
  unfold eink_scheduler_tick
  split
  · rfl
  · split
    · exact show_job_sched ..
    · rfl

@[simp]
theorem repaint_sched (ff : Bool) (st : State) (now : Int) (a : ShowAnswers) :
    (eink_scheduler_repaint ff st now a).2.sched = st.sched := by
  unfold eink_scheduler_repaint
  split
  · exact show_job_sched ..
  · split
    · exact show_job_sched ..
    · rfl

end EinkNode.Scheduler
