import EinkNode.Power.Wake
import EinkNode.Scheduler.Wakeup
/-!
# When the next wake is programmed

With the clock set, `eink_wake_run_once` takes the scheduler's next wakeup,
which is floored at a minute. With the clock unset it adds the poll interval
itself, and an interval of less than a minute becomes twelve hours.
-/
open NodeLib EinkNode.Scheduler

namespace EinkNode.Power

/-- The time is not later than the poll interval asks, up to the floor of a minute, and not sooner. -/
def InTime (now poll next : Int) : Prop := now + min 60 poll ≤ next ∧ next ≤ max (now + 60) (now + poll)

instance (now poll next : Int) : Decidable (InTime now poll next) := inferInstanceAs (Decidable (_ ∧ _))

/-- The floor and the deadline of the poll bound the wakeup, whatever the slots are. -/
theorem next_wakeup_inTime (sched : Option Schedule) (now : Int) (p : UInt32) :
    InTime now (poll_seconds p) (eink_scheduler_next_wakeup sched now p) := by
  rw [next_wakeup_eq, InTime]
  generalize earliest (-1) (next_slots sched now) = best
  generalize poll_seconds p = poll
  split <;> omega

section
variable {b : WakeBuild}

/-- What is programmed, in a build with HTTP. -/
theorem next_wake_step (hhttp : b.APP_EINK_HTTP = true) {w : Wake} (hpc : w.pc = .next_wake) (a : Answers) :
    (eink_wake_run_once b w a).status.next_wake_unix =
      if a.now < 1700000000 then
        if a.now + b.HTTP_POLL_INTERVAL.toNat < a.now + 60 then a.now + 12 * 3600
        else a.now + b.HTTP_POLL_INTERVAL.toNat
      else eink_scheduler_next_wakeup (some w.st.sched) a.now b.HTTP_POLL_INTERVAL := by
  unfold eink_wake_run_once
  rw [hpc]
  dsimp only [eink_power_set_next_wake, next_wake_time]
  rw [hhttp, if_pos rfl]

/-- The next wake is in time if and only if the clock is set or the interval is a minute at least. -/
theorem next_wake_inTime_iff (hhttp : b.APP_EINK_HTTP = true) (hpoll : 30 ≤ b.HTTP_POLL_INTERVAL.toNat) {w : Wake}
    (hpc : w.pc = .next_wake) (a : Answers) :
    InTime a.now b.HTTP_POLL_INTERVAL.toNat (eink_wake_run_once b w a).status.next_wake_unix ↔
      1700000000 ≤ a.now ∨ 60 ≤ b.HTTP_POLL_INTERVAL.toNat := by
  rw [next_wake_step hhttp hpc]
  by_cases hset : a.now < 1700000000
  · rw [if_pos hset, InTime]
    by_cases hshort : a.now + b.HTTP_POLL_INTERVAL.toNat < a.now + 60
    · -- Twelve hours are more than any interval that comes here.
      rw [if_pos hshort]
      omega
    · rw [if_neg hshort]
      omega
  · have hne : b.HTTP_POLL_INTERVAL ≠ 0 := by
      intro h0
      rw [h0] at hpoll
      exact absurd hpoll (by decide)
    have htime := next_wakeup_inTime (some w.st.sched) a.now b.HTTP_POLL_INTERVAL
    rw [poll_seconds, if_neg hne] at htime
    rw [if_neg hset]
    exact ⟨fun _ => .inl (not_lt.1 hset), fun _ => htime⟩

end

/-- The shortest interval that the build can be given. -/
def shortPoll : WakeBuild := { offlineBuild with APP_EINK_HTTP := true, HTTP_POLL_INTERVAL := 30 }

/-- The wake with nothing in its schedule that is about to program the next one. -/
def aboutToSleep : Wake := { wakeup .reset with pc := .next_wake }

theorem next_wake_inTime_set : InTime 1704067200 30
    (eink_wake_run_once shortPoll aboutToSleep { plainAnswers with now := 1704067200 }).status.next_wake_unix :=
  (next_wake_inTime_iff rfl (by decide) rfl { plainAnswers with now := 1704067200 }).2 (.inl (by decide))

/-- With the clock unset the wake comes twelve hours later instead of half a minute. -/
theorem next_wake_late : ¬ InTime 0 30
    (eink_wake_run_once shortPoll aboutToSleep { plainAnswers with now := 0 }).status.next_wake_unix := by
  decide

end EinkNode.Power
