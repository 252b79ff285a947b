import EinkNode.Lib.Runs
import EinkNode.Store.Meta
/-!
# The wall clock across wakes

`ensure_wall_clock` of `eink_http.c` and the cycle that it is part of: a wake
sets the clock, a sync saves the time, the power goes off, and the next wake
starts without a clock. The clock comes from the saved time if there is one, so
each cycle may add to its error. We say which cycles do not.
-/
open NodeLib EinkNode.Store

namespace EinkNode.Http

/-- What setting the clock and asking for the time return. -/
structure ClockAnswers where
  settime_last_sync : Int
  sntp_simple : Except Int Int
  settime_sntp : Int

/-- The result, and what the clock says afterwards. `config_sntp` is `CONFIG_SNTP`. -/
def ask_sntp (config_sntp : Bool) (now : Int) (a : ClockAnswers) : Int × Int :=
  if !config_sntp then (0, now)
  else
    match a.sntp_simple with
    | .error ret => (ret, now)
    | .ok seconds => if a.settime_sntp ≠ 0 then (a.settime_sntp, now) else (0, seconds)

variable (b : Build)

def ensure_wall_clock (config_sntp : Bool) (now : Int) (a : ClockAnswers) : FS (Int × Int) := do
  if now ≥ 1704067200 then pure (0, now)
  else
    match ← eink_store_load_last_sync b with
    | .error _ => pure (ask_sntp config_sntp now a)
    | .ok last_sync =>
      pure (if last_sync ≥ 1704067200 ∧ a.settime_last_sync = 0 then (0, last_sync) else ask_sntp config_sntp now a)

/-! ## Cycles -/

/-- One cycle: a wake with no clock set, a sync that saves the time `syncing`
seconds later, `finishing` more seconds awake and `off` seconds without power. -/
structure Cycle where
  boot_clock : Int
  unset : boot_clock < 1704067200
  settime_last_sync : Int
  settime_sntp : Int
  syncing : Nat
  finishing : Nat
  off : Nat

/-- What there is at the start of a wake: the true time and the files. -/
structure Node where
  true_time : Int
  files : Path → Option Bytes

/-- The result of `ensure_wall_clock` and the clock after it. SNTP tells the true time. -/
def set_clock (n : Node) (w : Cycle) : Int × Int :=
  (ensure_wall_clock b true w.boot_clock ⟨w.settime_last_sync, .ok n.true_time, w.settime_sntp⟩ (.calm n.files)).1

/-- The time that the sync saves. -/
def saved_time (n : Node) (w : Cycle) : Int := (set_clock b n w).2 + w.syncing

def cycle (n : Node) (w : Cycle) : Node :=
  { true_time := n.true_time + w.syncing + w.finishing + w.off
    files := (eink_store_save_last_sync b (saved_time b n w) (.calm n.files)).2.files }

/-- By how much the clock is behind. -/
def clock_error (n : Node) (w : Cycle) : Int := n.true_time - (set_clock b n w).2

/-- The time that is saved fits 64 bits. -/
def TimeFits (n : Node) (w : Cycle) : Prop := -(2 ^ 63) ≤ saved_time b n w ∧ saved_time b n w < 2 ^ 63

/-- After the next wake has set its clock, it is behind by no more than the cycle `w` has lasted. -/
def ErrorBounded (n : Node) (w w' : Cycle) : Prop :=
  (set_clock b (cycle b n w) w').1 = 0 → clock_error b (cycle b n w) w' ≤ w.syncing + w.finishing + w.off

/-- The next wake takes the time that `w` saved. -/
def TakesSaved (n : Node) (w w' : Cycle) : Prop := saved_time b n w ≥ 1704067200 ∧ w'.settime_last_sync = 0

instance (n : Node) (w w' : Cycle) : Decidable (TakesSaved b n w w') := inferInstanceAs (Decidable (_ ∧ _))

/-- If the next wake takes the time that `w` saved, the clock was behind by no
more than the time it took to save it. -/
def SmallErrorOrAsked (n : Node) (w w' : Cycle) : Prop := TakesSaved b n w w' → clock_error b n w ≤ w.syncing

instance : DecidableRel (TimeFits b) := fun _ _ => inferInstanceAs (Decidable (_ ∧ _))

instance (n : Node) (w w' : Cycle) : Decidable (ErrorBounded b n w w') := inferInstanceAs (Decidable (_ → _))

instance (n : Node) (w w' : Cycle) : Decidable (SmallErrorOrAsked b n w w') := inferInstanceAs (Decidable (_ → _))

/-- The next wake goes on from the saved time, or asks. -/
theorem set_clock_after {n : Node} {w : Cycle} (hfit : TimeFits b n w) (w' : Cycle) :
    set_clock b (cycle b n w) w' =
      if TakesSaved b n w w' then (0, saved_time b n w)
      else if w'.settime_sntp ≠ 0 then (w'.settime_sntp, w'.boot_clock)
      else (0, (cycle b n w).true_time) := by
  obtain ⟨files, hsave, hload⟩ := load_last_sync_saved b hfit.1 hfit.2 n.files
  have hcycle : (cycle b n w).files = files := by simp [cycle, hsave]
  have hboot : ¬ w'.boot_clock ≥ 1704067200 := by
    have := w'.unset
    omega
  simp only [set_clock, ensure_wall_clock, if_neg hboot, bind_app, hcycle, hload]
  rfl

theorem errorBounded_iff {n : Node} {w : Cycle} (hfit : TimeFits b n w) (w' : Cycle) :
    ErrorBounded b n w w' ↔ SmallErrorOrAsked b n w w' := by
  have htime : (cycle b n w).true_time = n.true_time + w.syncing + w.finishing + w.off := rfl
  unfold ErrorBounded SmallErrorOrAsked
  rw [clock_error, set_clock_after b hfit w']
  by_cases htakes : TakesSaved b n w w'
  · rw [if_pos htakes]
    simp only [htime, htakes, forall_const, saved_time, clock_error]
    omega
  · rw [if_neg htakes]
    split
    · next hset => simp [hset, htakes]
    · simp only [htakes, false_implies, Int.sub_self, forall_const, iff_true]
      omega

/-- In every run: the clock is behind by no more than the last cycle after
every wake but the first, if and only if every wake that goes on from a saved
time finds one that was itself behind by no more than the time it took to save it. -/
theorem clock_error_bounded_iff {n : Node} {ws : List Cycle} (hfit : Meets (cycle b) (TimeFits b) n ws) :
    MeetsPairs (cycle b) (ErrorBounded b) n ws ↔ MeetsPairs (cycle b) (SmallErrorOrAsked b) n ws :=
  meetsPairs_congr hfit fun _ _ w' h => errorBounded_iff b h w'

/-! ## Four cycles -/

/-- Five seconds to sync, and `off` seconds without power. -/
def shortWake (off : Nat) : Cycle := ⟨0, by decide, 0, 0, 5, 0, off⟩

/-- A store without any file. -/
def freshNode : Node := ⟨1800000000, fun _ => none⟩

/-- Cycles with the power off for a few seconds only, then for an hour: no error adds up. -/
theorem clock_error_bounded_iff_short :
    MeetsPairs (cycle lz4Build) (ErrorBounded lz4Build) freshNode
      [shortWake 3, shortWake 3600, shortWake 3600] :=
  (clock_error_bounded_iff lz4Build (by decide +kernel)).2 (by decide +kernel)

/-- An hour without power each: the third wake is two hours behind. -/
theorem clock_error_adds_up :
    Meets (cycle lz4Build) (TimeFits lz4Build) freshNode [shortWake 3600, shortWake 3600, shortWake 3600] ∧
      ¬ MeetsPairs (cycle lz4Build) (ErrorBounded lz4Build) freshNode
        [shortWake 3600, shortWake 3600, shortWake 3600] := by decide +kernel

end EinkNode.Http
