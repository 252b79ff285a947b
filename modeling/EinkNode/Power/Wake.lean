import EinkNode.Scheduler.Await
/-!
# One wake of a battery node

`eink_wake_run_once` with the rails of `eink_power.c`, in a build that does not
wait for the panel: the wake goes on and asks for sleep while the display's
worker may still be at a command. The steps of the worker, and calls of other
clients, come between any two steps of the wake. Writes to the GPIOs succeed.
-/
open NodeLib EinkNode.Display EinkNode.Scheduler

namespace EinkNode.Power

inductive WakeReason where
  | UNKNOWN | SRTC | SERVICE | IW612_HOST | COLD
deriving DecidableEq

/-- `struct eink_power_status`. -/
structure PowerStatus where
  wake_reason : WakeReason
  cm4_held_in_reset : Bool
  iw612_powered : Bool
  iw612_wowlan : Bool
  panel_powered : Bool
  data_nor_powered : Bool
  iw612_gpio_bound : Bool
  panel_gpio_bound : Bool
  next_wake_unix : Int
deriving DecidableEq

/-- `g_status` after a reset. -/
def PowerStatus.reset : PowerStatus := ⟨.COLD, true, false, false, false, false, false, false, 0⟩

/-- The Kconfig options and the device tree, as far as a wake depends on them. -/
structure WakeBuild where
  APP_EINK_HTTP : Bool
  WAKE_SKIP_RADIO_IF_CURRENT : Bool
  HTTP_POLL_INTERVAL : UInt32
  HAS_IW612_GPIO : Bool
  HAS_PANEL_GPIO : Bool
  FULL_FRAMEBUFFER : Bool

/-! ## The rails -/

/-- `released` is `BT_RELEASE_M4`. -/
def eink_power_assert_cm4_held (released : Bool) (s : PowerStatus) : Int × PowerStatus :=
  if released then (-EFAULT, { s with cm4_held_in_reset := false }) else (0, { s with cm4_held_in_reset := true })

/-- A GPIO port: whether its device is ready, and what configuring a pin returns. -/
structure GpioPort where
  ready : Bool
  configure : Int

def gpio_configure_output (g : GpioPort) : Int :=
  if !g.ready then -ENODEV else if g.configure < 0 then g.configure else 0

variable (b : WakeBuild)

def init_iw612 (g : GpioPort) (s : PowerStatus) : Int × PowerStatus :=
  if b.HAS_IW612_GPIO then
    if gpio_configure_output g < 0 then (gpio_configure_output g, s) else (0, { s with iw612_gpio_bound := true })
  else (0, { s with iw612_gpio_bound := false })

def init_panel (g : GpioPort) (s : PowerStatus) : Int × PowerStatus :=
  if b.HAS_PANEL_GPIO then
    if gpio_configure_output g < 0 then (gpio_configure_output g, s) else (0, { s with panel_gpio_bound := true })
  else (0, { s with panel_gpio_bound := false })

def eink_power_init (released : Bool) (iw612 panel : GpioPort) (s : PowerStatus) : Int × PowerStatus :=
  let r := eink_power_assert_cm4_held released s
  if r.1 < 0 then r
  else
    let r := init_iw612 b iw612 r.2
    if r.1 < 0 then r else init_panel b panel r.2

def eink_power_set_next_wake (unix_sec : Int) (s : PowerStatus) : PowerStatus := { s with next_wake_unix := unix_sec }

/-- `gpio` is what `gpio_pin_set_dt` returns. -/
def eink_power_iw612_set (gpio : Int) (on : Bool) (s : PowerStatus) : Int × PowerStatus :=
  if b.HAS_IW612_GPIO && s.iw612_gpio_bound && decide (gpio < 0) then (gpio, s)
  else (0, { s with iw612_powered := on, iw612_wowlan := if on then s.iw612_wowlan else false })

def eink_power_panel_set (gpio : Int) (on : Bool) (s : PowerStatus) : Int × PowerStatus :=
  if b.HAS_PANEL_GPIO && s.panel_gpio_bound && decide (gpio < 0) then (gpio, s)
  else (0, { s with panel_powered := on })

def eink_power_data_nor_set (on : Bool) (s : PowerStatus) : Int × PowerStatus := (0, { s with data_nor_powered := on })

/-! ## The wake -/

/-- Where `eink_wake_run_once` is: what it does next. At `sleep` it has come to the request of
`eink_power_enter_snvs`; it has `returned` where it gives up before. -/
inductive Pc where
  | init | tick | repaint | radio | sync | gate | next_wake | enter_snvs | rails | cut | sleep | returned
deriving DecidableEq

/-- The wake with the display, its history and the scheduler's statics. -/
structure Wake where
  pc : Pc
  status : PowerStatus
  display : Traced
  st : State

/-- What a step of the wake is answered: the power policy, the clock, the store's answers for the image to show and
its path, whether the radio is needed, and the scheduler's statics after the sync. What the sync and the flush
return is only logged. -/
structure Answers where
  cm4_released : Bool
  iw612_port : GpioPort
  panel_port : GpioPort
  now : Int
  shown : ShowAnswers
  path : Bytes
  radio_sync_needed : Bool
  synced : State

inductive Event where
  | wake (a : Answers)
  | display (e : Display.Event)

/-- The job that `eink_scheduler_tick` shows. -/
def tick_job (st : State) (now : Int) : Option Job :=
  match eink_scheduler_decide (some st.sched) now (some st.last_job.val) with
  | .NOP => none
  | .SHOW i => st.sched.jobs[i]?

/-- The job that `eink_scheduler_repaint` shows. -/
def repaint_job (st : State) (now : Int) : Option Job :=
  match (current_slot st.sched now).bind fun best => st.sched.jobs[best.2]? with
  | some job => some job
  | none => last_job_entry st

/-- The display's part of `show_job_locked_copy`, and what it answers. -/
def show_on_display (t : Traced) (job : Option Job) (a : Answers) : Traced × Int :=
  match job with
  | some job =>
    if a.shown.resolve_show_path = 0 ∧ a.shown.has_valid_image = true then
      (Display.step b.FULL_FRAMEBUFFER t (.call (show_call job a.path)),
        (Display.call b.FULL_FRAMEBUFFER t.service (show_call job a.path)).1)
    else (t, 0)
  | none => (t, 0)

/-- The time that is programmed for the next wake. -/
def next_wake_time (st : State) (now : Int) : Int :=
  let poll : UInt32 := if b.APP_EINK_HTTP then b.HTTP_POLL_INTERVAL else 300
  if now < 1700000000 then
    if now + poll.toNat < now + 60 then now + 12 * 3600 else now + poll.toNat
  else eink_scheduler_next_wakeup (some st.sched) now poll

/-- The next step of `eink_wake_run_once`. -/
def eink_wake_run_once (w : Wake) (a : Answers) : Wake :=
  match w.pc with
  | .init =>
    let r := eink_power_init b a.cm4_released a.iw612_port a.panel_port w.status
    { w with status := r.2, pc := if r.1 < 0 then .returned else .tick }
  | .tick =>
    let d := show_on_display b w.display (tick_job w.st a.now) a
    let r := eink_scheduler_tick true w.st a.now { a.shown with show_path := d.2 }
    { w with display := d.1, st := r.2, pc := if r.1 = 0 then .repaint else .radio }
  | .repaint =>
    let d := show_on_display b w.display (repaint_job w.st a.now) a
    { w with
      display := d.1
      st := (eink_scheduler_repaint true w.st a.now { a.shown with show_path := d.2 }).2
      pc := .radio }
  | .radio =>
    if !b.APP_EINK_HTTP then { w with pc := .next_wake }
    else if b.WAKE_SKIP_RADIO_IF_CURRENT && !a.radio_sync_needed then { w with pc := .next_wake }
    else
      let r := eink_power_iw612_set b 0 true w.status
      { w with status := r.2, pc := if r.1 = 0 then .sync else .gate }
  | .sync => { w with st := a.synced, pc := .gate }
  -- The radio is switched off here also when switching it on has failed.
  | .gate => { w with status := (eink_power_iw612_set b 0 false w.status).2, pc := .next_wake }
  | .next_wake =>
    { w with status := eink_power_set_next_wake (next_wake_time b w.st a.now) w.status, pc := .enter_snvs }
  | .enter_snvs =>
    let r := eink_power_assert_cm4_held a.cm4_released w.status
    if r.1 < 0 then { w with status := r.2, pc := .returned }
    else { w with status := (eink_power_iw612_set b 0 false r.2).2, pc := .rails }
  -- A command in flight keeps the rails as they are; nothing has switched them on.
  | .rails => { w with pc := if eink_display_is_busy w.display.service then .sleep else .cut }
  | .cut =>
    let s := (eink_power_panel_set b 0 false w.status).2
    { w with status := (eink_power_data_nor_set false s).2, pc := .sleep }
  | .sleep => w
  | .returned => w

def step (w : Wake) : Event → Wake
  | .wake a => eink_wake_run_once b w a
  | .display e => { w with display := Display.step b.FULL_FRAMEBUFFER w.display e }

/-- A cold start, with what the scheduler has loaded. -/
def wakeup (st : State) : Wake := ⟨.init, .reset, Display.start, st⟩

/-- The rails are right when the device asks for sleep. -/
def RailsRight (w : Wake) : Prop :=
  w.pc = .sleep → w.status.iw612_powered = false ∧
    (eink_display_is_busy w.display.service = true → w.status.panel_powered = true ∧ w.status.data_nor_powered = true)

/-! ## What holds in every state -/

/-- The panel and the data NOR are never switched on, and the radio is off from the entry of sleep. -/
structure Inv (w : Wake) : Prop where
  display : Display.Inv w.display
  panel : w.status.panel_powered = false
  data_nor : w.status.data_nor_powered = false
  radio : w.pc = .rails ∨ w.pc = .cut ∨ w.pc = .sleep → w.status.iw612_powered = false

/-- Nothing but the radio's rail and what is not a rail has changed. -/
def SameRails (s s' : PowerStatus) : Prop :=
  s'.panel_powered = s.panel_powered ∧ s'.data_nor_powered = s.data_nor_powered

theorem SameRails.trans {s s' s'' : PowerStatus} (h : SameRails s s') (h' : SameRails s' s'') : SameRails s s'' :=
  ⟨h'.1.trans h.1, h'.2.trans h.2⟩

theorem sameRails_cm4 (released : Bool) (s : PowerStatus) : SameRails s (eink_power_assert_cm4_held released s).2 := by
  unfold eink_power_assert_cm4_held
  split <;> exact ⟨rfl, rfl⟩

section
variable {b : WakeBuild}

theorem sameRails_init_iw612 (g : GpioPort) (s : PowerStatus) : SameRails s (init_iw612 b g s).2 := by
  unfold init_iw612
  split
  · split <;> exact ⟨rfl, rfl⟩
  · exact ⟨rfl, rfl⟩

theorem sameRails_init_panel (g : GpioPort) (s : PowerStatus) : SameRails s (init_panel b g s).2 := by
  unfold init_panel
  split
  · split <;> exact ⟨rfl, rfl⟩
  · exact ⟨rfl, rfl⟩

theorem sameRails_power_init (released : Bool) (iw612 panel : GpioPort) (s : PowerStatus) :
    SameRails s (eink_power_init b released iw612 panel s).2 := by
  have hcm4 := sameRails_cm4 released s
  unfold eink_power_init
  dsimp only
  split
  · exact hcm4
  · have hiw612 := hcm4.trans (sameRails_init_iw612 (b := b) iw612 _)
    split
    · exact hiw612
    · exact hiw612.trans (sameRails_init_panel panel _)

theorem sameRails_iw612_set (gpio : Int) (on : Bool) (s : PowerStatus) :
    SameRails s (eink_power_iw612_set b gpio on s).2 := by
  unfold eink_power_iw612_set
  split <;> exact ⟨rfl, rfl⟩

/-- A write that succeeds switches the rail. -/
theorem iw612_set_ok (on : Bool) (s : PowerStatus) : (eink_power_iw612_set b 0 on s).2.iw612_powered = on := by
  simp [eink_power_iw612_set]

theorem panel_set_ok (on : Bool) (s : PowerStatus) :
    (eink_power_panel_set b 0 on s).2 = { s with panel_powered := on } := by
  simp [eink_power_panel_set]

theorem inv_show_on_display {t : Traced} (h : Display.Inv t) (job : Option Job) (a : Answers) :
    Display.Inv (show_on_display b t job a).1 := by
  unfold show_on_display
  split
  · split
    · dsimp only
      exact inv_step _ _ h
    · exact h
  · exact h

variable {w : Wake}

theorem inv_wakeup (st : State) : Inv (wakeup st) := by
  refine ⟨inv_start, rfl, rfl, ?_⟩
  rintro (h | h | h) <;> cases h

/-- A step that leaves the panel's and the data NOR's rails alone, and does not come to sleep. -/
theorem Inv.awake (h : Inv w) {w' : Wake} (hd : Display.Inv w'.display) (hs : SameRails w.status w'.status)
    (hpc : ¬ (w'.pc = .rails ∨ w'.pc = .cut ∨ w'.pc = .sleep)) : Inv w' :=
  ⟨hd, hs.1.trans h.panel, hs.2.trans h.data_nor, fun h => absurd h hpc⟩

theorem inv_wake (h : Inv w) (a : Answers) : Inv (eink_wake_run_once b w a) := by
  have hsame : SameRails w.status w.status := ⟨rfl, rfl⟩
  unfold eink_wake_run_once
  cases hpc : w.pc with
  | init =>
    refine h.awake h.display (sameRails_power_init _ _ _ _) ?_
    dsimp only
    split <;> simp
  | tick =>
    refine h.awake (inv_show_on_display h.display _ _) hsame ?_
    dsimp only
    split <;> simp
  | repaint => exact h.awake (inv_show_on_display h.display _ _) hsame (by simp)
  | radio =>
    dsimp only
    split
    · exact h.awake h.display hsame (by simp)
    · split
      · exact h.awake h.display hsame (by simp)
      · refine h.awake h.display (sameRails_iw612_set _ _ _) ?_
        dsimp only
        split <;> simp
  | sync => exact h.awake h.display hsame (by simp)
  | gate => exact h.awake h.display (sameRails_iw612_set _ _ _) (by simp)
  | next_wake => exact h.awake h.display ⟨rfl, rfl⟩ (by simp)
  | enter_snvs =>
    have hcm4 := sameRails_cm4 a.cm4_released w.status
    dsimp only
    split
    · exact h.awake h.display hcm4 (by simp)
    · have hrails := hcm4.trans (sameRails_iw612_set (b := b) 0 false _)
      exact ⟨h.display, hrails.1.trans h.panel, hrails.2.trans h.data_nor, fun _ => iw612_set_ok false _⟩
  | rails => exact ⟨h.display, h.panel, h.data_nor, fun _ => h.radio (.inl hpc)⟩
  | cut =>
    dsimp only
    rw [panel_set_ok]
    exact ⟨h.display, rfl, rfl, fun _ => h.radio (.inr (.inl hpc))⟩
  | sleep => exact h
  | returned => exact h

theorem inv_wake_step (h : Inv w) (e : Event) : Inv (step b w e) := by
  cases e with
  | wake a => exact inv_wake h a
  | display e => exact ⟨inv_step _ e h.display, h.panel, h.data_nor, h.radio⟩

variable (b) in
theorem inv_wake_run (st : State) (es : List Event) : Inv (run (step b) (wakeup st) es) :=
  run_inv Inv (inv_wakeup st) fun _ e _ h => inv_wake_step h e

end

/-- Whatever the wake meets, the radio is off when it asks for sleep; the other rails are right exactly when no
command that the display has accepted is still to be completed. -/
theorem rails_right_iff (st : State) (es : List Event) :
    ((run (step b) (wakeup st) es).pc = .sleep → (run (step b) (wakeup st) es).status.iw612_powered = false) ∧
    (RailsRight (run (step b) (wakeup st) es) ↔
      ((run (step b) (wakeup st) es).pc = .sleep → ¬ Outstanding (run (step b) (wakeup st) es).display)) := by
  have hinv := inv_wake_run b st es
  generalize run (step b) (wakeup st) es = w at hinv ⊢
  refine ⟨fun hpc => hinv.radio (.inr (.inr hpc)), ?_⟩
  constructor
  · intro hright hpc hout
    have hpowered := ((hright hpc).2 (hinv.display.outstanding_iff.1 hout)).1
    rw [hinv.panel] at hpowered
    cases hpowered
  · intro hdone hpc
    refine ⟨hinv.radio (.inr (.inr hpc)), fun hbusy => ?_⟩
    exact absurd (hinv.display.outstanding_iff.2 hbusy) (hdone hpc)

/-- A job that is due, with its image in the store. -/
def dueJob : State :=
  { sched := .take [⟨.copy _ (ascii "job"), .copy _ (ascii "map"), .copy _ (ascii "0 0 * * *"), 0⟩]
    last_job := .empty _ }

def plainAnswers : Answers where
  cm4_released := false
  iw612_port := ⟨true, 0⟩
  panel_port := ⟨true, 0⟩
  now := 1704067200
  shown := ⟨0, true, 0, 0, 0⟩
  path := ascii "/lfs1/images/map.es6f"
  radio_sync_needed := false
  synced := dueJob

def offlineBuild : WakeBuild := ⟨false, false, 300, true, true, false⟩

/-- The wake queues a refresh and asks for sleep with the panel switched off. -/
theorem rails_right_refresh :
    ¬ RailsRight (run (step offlineBuild) (wakeup dueJob) (List.replicate 6 (.wake plainAnswers))) := by
  have hsleep : (run (step offlineBuild) (wakeup dueJob) (List.replicate 6 (.wake plainAnswers))).pc = .sleep ∧
      eink_display_is_busy
        (run (step offlineBuild) (wakeup dueJob) (List.replicate 6 (.wake plainAnswers))).display.service = true ∧
      (run (step offlineBuild) (wakeup dueJob) (List.replicate 6 (.wake plainAnswers))).status.panel_powered =
        false := by
    decide +kernel
  intro hright
  have hpowered := ((hright hsleep.1).2 hsleep.2.1).1
  rw [hsleep.2.2] at hpowered
  cases hpowered

end EinkNode.Power
