import EinkNode.Scheduler.Exact
import Mathlib.Order.MinMax
/-!
# The next wakeup

`eink_scheduler_next_wakeup` takes the earliest slot to come or the deadline of
the poll, and never less than a minute. A slot is strictly in the future, so
that the minimum over any schedule is a time, and no slot is slept through.
-/
open NodeLib

namespace EinkNode.Scheduler

/-- The poll interval; 0 stands for five minutes. -/
def poll_seconds (poll_interval_sec : UInt32) : Int := if poll_interval_sec = 0 then 300 else poll_interval_sec.toNat

/-- The next slot of every job. -/
def next_slots (sched : Option Schedule) (now : Int) : List Int :=
  match sched with
  | none => []
  | some sched => sched.jobs.map fun j => eink_cron_next_after (some j.cron.val) now

theorem lt_cron_next_after {now : Int} (ht : Representable now) (cron : Option Bytes) :
    now < eink_cron_next_after cron now := by
  unfold eink_cron_next_after
  cases cron with
  | none =>
    have hrun : eink_cron_next_run none now = now + 3600 := rfl
    rw [hrun]
    dsimp only
    split <;> omega
  | some text =>
    cases hslot : cronSlot text with
    | none =>
      rw [next_run_of_none hslot]
      dsimp only
      split <;> omega
    | some slot =>
      obtain ⟨minute, hour⟩ := slot
      have hrange := cronSlot_range hslot
      rw [next_run_of_slot hslot ht, slotOn]
      dsimp only
      split <;> omega

/-- The loop over the jobs, the deadline and the floor. -/
theorem next_wakeup_eq (sched : Option Schedule) (now : Int) (p : UInt32) :
    eink_scheduler_next_wakeup sched now p =
      max (now + 60) (if earliest (-1) (next_slots sched now) < 0 then now + poll_seconds p
        else min (now + poll_seconds p) (earliest (-1) (next_slots sched now))) := by
  have hloop : eink_scheduler_next_wakeup sched now p =
      (let best := earliest (-1) (next_slots sched now)
      let best := if best < 0 ∨ now + poll_seconds p < best then now + poll_seconds p else best
      if best < now + 60 then now + 60 else best) := by
    cases sched with
    | none => rfl
    | some sched =>
      rw [next_slots, earliest, List.foldl_map]
      rfl
  rw [hloop]
  generalize earliest (-1) (next_slots sched now) = best
  dsimp only
  split <;> split <;> omega

/-- No slot is slept through: the wakeup is the earliest slot or the poll, and at least a minute away. -/
theorem next_wakeup_exact {now : Int} (h0 : 0 ≤ now) (hmax : now < 2 ^ 55) (sched : Option Schedule) (p : UInt32) :
    now + 60 ≤ eink_scheduler_next_wakeup sched now p ∧
    eink_scheduler_next_wakeup sched now p ≤ max (now + 60) (now + poll_seconds p) ∧
    (∀ t ∈ next_slots sched now, eink_scheduler_next_wakeup sched now p ≤ max (now + 60) t) ∧
    (eink_scheduler_next_wakeup sched now p = now + 60 ∨ eink_scheduler_next_wakeup sched now p = now + poll_seconds p ∨
      eink_scheduler_next_wakeup sched now p ∈ next_slots sched now) := by
  have ht : Representable now := ⟨by omega, hmax⟩
  have hfuture : ∀ t ∈ next_slots sched now, now < t := by
    intro t htmem
    cases sched with
    | none => cases htmem
    | some sched =>
      obtain ⟨j, -, rfl⟩ := List.mem_map.1 htmem
      exact lt_cron_next_after ht _
  have hnonneg : ∀ t ∈ next_slots sched now, 0 ≤ t := fun t htmem => by have := hfuture t htmem; omega
  rw [next_wakeup_eq]
  rcases earliest_cases hnonneg with ⟨hnil, hnone⟩ | ⟨hmem, hleast⟩
  · rw [hnone, hnil, if_pos (by decide)]
    refine ⟨le_max_left _ _, le_refl _, fun t htmem => (nomatch htmem), ?_⟩
    rcases max_choice (now + 60) (now + poll_seconds p) with h | h
    · exact .inl h
    · exact .inr (.inl h)
  · have hpos := hnonneg _ hmem
    rw [if_neg (not_lt.2 hpos)]
    refine ⟨le_max_left _ _, max_le_max_left _ (min_le_left _ _), fun t htmem => ?_, ?_⟩
    · exact max_le_max_left _ (le_trans (min_le_right _ _) (hleast htmem))
    · rcases max_choice (now + 60) (min (now + poll_seconds p) (earliest (-1) (next_slots sched now))) with h | h
      · exact .inl h
      · rw [h]
        rcases min_choice (now + poll_seconds p) (earliest (-1) (next_slots sched now)) with h' | h'
        · exact .inr (.inl h')
        · rw [h']
          exact .inr (.inr hmem)

/-- A job at half past twelve, one at ten past midnight, and one whose cron line does not parse. -/
def threeJobs : Schedule :=
  .take [⟨.copy _ (ascii "a"), .copy _ (ascii "m"), .copy _ (ascii "30 12 * * *"), 0⟩,
    ⟨.copy _ (ascii "b"), .copy _ (ascii "m"), .copy _ (ascii "10 0 * * *"), 0⟩,
    ⟨.copy _ (ascii "c"), .copy _ (ascii "m"), .copy _ (ascii "@daily"), 0⟩]

/-- At midnight with a poll an hour later: of the three slots, the node wakes at the second. -/
theorem next_wakeup_exact_midnight :
    next_slots (some threeJobs) 1704067200 = [1704112200, 1704067800, 1704070800] ∧
    eink_scheduler_next_wakeup (some threeJobs) 1704067200 3600 = 1704067800 ∧
    1704067200 + 60 ≤ eink_scheduler_next_wakeup (some threeJobs) 1704067200 3600 ∧
    eink_scheduler_next_wakeup (some threeJobs) 1704067200 3600 ≤
      max (1704067200 + 60) (1704067200 + poll_seconds 3600) ∧
    (∀ t ∈ next_slots (some threeJobs) 1704067200,
      eink_scheduler_next_wakeup (some threeJobs) 1704067200 3600 ≤ max (1704067200 + 60) t) ∧
    (eink_scheduler_next_wakeup (some threeJobs) 1704067200 3600 = 1704067200 + 60 ∨
      eink_scheduler_next_wakeup (some threeJobs) 1704067200 3600 = 1704067200 + poll_seconds 3600 ∨
      eink_scheduler_next_wakeup (some threeJobs) 1704067200 3600 ∈ next_slots (some threeJobs) 1704067200) :=
  ⟨by decide +kernel, by decide +kernel, next_wakeup_exact (by decide) (by decide) (some threeJobs) 3600⟩
end EinkNode.Scheduler
