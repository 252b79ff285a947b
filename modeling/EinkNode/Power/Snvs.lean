import EinkNode.Lib.Errno
import EinkNode.Lib.Runs
import EinkNode.Power.Rtc
/-!
# Asleep until the alarm

`rt118x_enter_snvs` arms the alarm, turns every other interrupt off and stops
the CPU. What it does is followed up to the `__WFI`, where the alarm has to be
ahead: one that comes earlier is taken by its handler, and nothing is left that
wakes the CPU.
-/
open NodeLib

namespace EinkNode.Power

/-! ## Going to sleep -/

section
variable (irq : Fin 256)

/-- `BBNSM_EVENTS` is written: the event of the alarm is cleared. -/
def bbnsm_ta_w1c : StateM Soc Unit := do
  tick irq
  fun s => ((), { s with EVENTS_TA := false })

def NVIC_ClearPendingIRQ : StateM Soc Unit := do
  tick irq
  fun s => ((), { s with pending := false })

def bbnsm_rtc_start : StateM Soc Unit := do
  let ctrl ← read_reg irq (·.CTRL)
  write_reg irq ({ · with CTRL := { ctrl with RTC_EN := 2#2 } })
  poll irq 10000

/-- The alarm is off while it is set. -/
def bbnsm_set_alarm (alarm : UInt32) : StateM Soc Unit := do
  let tmp ← read_reg irq (·.CTRL)
  write_reg irq ({ · with CTRL := { tmp with TA_EN := 1#2 } })
  bbnsm_ta_w1c irq
  write_reg irq ({ · with TA_INT_EN := 1#2 })
  poll irq 10000
  write_reg irq ({ · with TA := alarm })
  write_reg irq ({ · with TA_INT_EN := 2#2 })
  let tmp ← read_reg irq (·.CTRL)
  write_reg irq ({ · with CTRL := { tmp with TA_EN := 2#2 } })

def bbnsm_program_alarm (orders : Bool × Vector Bool 8) (delay_sec : UInt32) : StateM Soc Int := do
  let delay_sec := if delay_sec < 2 then 2 else delay_sec
  bbnsm_rtc_start irq
  let now ← bbnsm_rtc_seconds irq orders
  let alarm := now + delay_sec
  bbnsm_set_alarm irq alarm
  pure 0

def Regs.write_ICER (i : Fin 8) (v : BitVec 32) (r : Regs) : Regs :=
  { r with ISER := Function.update r.ISER i (r.ISER i &&& ~~~v) }

def Regs.write_ISER (i : Fin 8) (v : BitVec 32) (r : Regs) : Regs :=
  { r with ISER := Function.update r.ISER i (r.ISER i ||| v) }

/-- The loop of `irq_park_for_rtc`. -/
def irq_park : List (Fin 8) → (Fin 8 → BitVec 32) → StateM Soc (Fin 8 → BitVec 32)
  | [], iser_save => pure iser_save
  | i :: is, iser_save => do
    let word ← read_reg irq (·.ISER i)
    write_reg irq (Regs.write_ICER i 0xFFFFFFFF)
    irq_park is (Function.update iser_save i word)

def irq_enable : StateM Soc Unit := write_reg irq (Regs.write_ISER (group irq) (BitVec.twoPow 32 (irq_bit irq)))

/-- What it saves: the enabled interrupts, and `SysTick->CTRL`. -/
def irq_park_for_rtc : StateM Soc ((Fin 8 → BitVec 32) × UInt32) := do
  let systick_ctrl ← read_reg irq (·.SysTick_CTRL)
  write_reg irq ({ · with SysTick_CTRL := 0 })
  write_reg irq ({ · with PENDST := false })
  let iser_save ← irq_park irq (List.finRange 8) fun _ => 0#32
  irq_enable irq
  pure (iser_save, systick_ctrl)

def gpc_bbnsm_wakeup (enable : Bool) : StateM Soc Unit := do
  let word ← read_reg irq (·.CM_IRQ_WAKEUP_MASK (group irq))
  let bit := BitVec.twoPow 32 (irq_bit irq)
  write_reg irq fun r =>
    { r with CM_IRQ_WAKEUP_MASK :=
        Function.update r.CM_IRQ_WAKEUP_MASK (group irq) (if enable then word &&& ~~~bit else word ||| bit) }

def irq_unpark (iser_save : Fin 8 → BitVec 32) (systick_ctrl : UInt32) : StateM Soc Unit := do
  (List.finRange 8).forM fun i => write_reg irq (Regs.write_ISER i (iser_save i))
  write_reg irq ({ · with SysTick_CTRL := systick_ctrl })

/-- `PMIC_ON_REQ` is asked to drop, or not. -/
def bbnsm_tosp (pmic_off : Bool) : StateM Soc Unit :=
  if pmic_off then do
    let ctrl ← read_reg irq (·.CTRL)
    write_reg irq ({ · with CTRL := { ctrl with DP_EN := true, TOSP := true } })
  else pure ()

/-- The orders of the three readings of the clock. -/
structure Orders where
  now : Bool × Vector Bool 8
  t0 : Bool × Vector Bool 8
  t1 : Bool × Vector Bool 8

/-- With the alarm set, on to the `__WFI`. What is read to be logged only is not here, but for the clock. -/
def rt118x_stop (orders : Orders) (pmic_off : Bool) : StateM Soc ((Fin 8 → BitVec 32) × UInt32) := do
  bbnsm_ta_w1c irq
  NVIC_ClearPendingIRQ irq
  bbnsm_tosp irq pmic_off
  let _ ← bbnsm_rtc_seconds irq orders.t0
  let saved ← irq_park_for_rtc irq
  gpc_bbnsm_wakeup irq true
  write_reg irq ({ · with next_mode := .kGPC_StopMode })
  write_reg irq ({ · with SLEEPDEEP := true })
  tick irq
  pure saved

/-- `rt118x_enter_snvs` up to its `__WFI`, and what it has saved. -/
def rt118x_to_wfi (orders : Orders) (delay_sec : UInt32) (pmic_off : Bool) :
    StateM Soc ((Fin 8 → BitVec 32) × UInt32) := do
  bbnsm_ta_w1c irq
  NVIC_ClearPendingIRQ irq
  let _ ← bbnsm_program_alarm irq orders.now delay_sec
  rt118x_stop irq orders pmic_off

/-- The rest of it. -/
def rt118x_from_wfi (orders : Orders) (saved : (Fin 8 → BitVec 32) × UInt32) : StateM Soc Int := do
  write_reg irq ({ · with SLEEPDEEP := false })
  write_reg irq ({ · with next_mode := .kGPC_RunMode })
  let _ ← bbnsm_rtc_seconds irq orders.t1
  irq_unpark irq saved.1 saved.2
  pure (-EAGAIN)

/-- The time that the `__WFI` takes passes like that before an access. -/
def rt118x_enter_snvs (orders : Orders) (delay_sec : UInt32) (pmic_off : Bool) : StateM Soc Int := do
  let saved ← rt118x_to_wfi irq orders delay_sec pmic_off
  tick irq
  rt118x_from_wfi irq orders saved

end

/-! ## What is written -/

section
variable {irq : Fin 256}

@[simp] theorem regs_tick (s : Soc) : (tick irq s).2.regs = s.regs := (later_tick irq s).2

@[simp] theorem read_reg_value {α : Type} (f : Regs → α) (s : Soc) : (read_reg irq f s).1 = f s.regs :=
  congrArg f (regs_tick s)

@[simp] theorem regs_read_reg {α : Type} (f : Regs → α) (s : Soc) : (read_reg irq f s).2.regs = s.regs := regs_tick s

@[simp] theorem regs_write_reg (f : Regs → Regs) (s : Soc) : (write_reg irq f s).2.regs = f s.regs :=
  congrArg f (regs_tick s)

@[simp] theorem regs_rtc_seconds (orders : Bool × Vector Bool 8) (s : Soc) :
    (bbnsm_rtc_seconds irq orders s).2.regs = s.regs := (later_rtc_seconds irq orders s).2

theorem later_poll (limit : Nat) : Keeps Later (poll irq limit) := by
  refine keeps_bind (fun s => ?_) fun turns => keeps_forM fun _ _ => later_tick irq
  exact ⟨Nat.le_refl _, rfl⟩

@[simp] theorem regs_poll (limit : Nat) (s : Soc) : (poll irq limit s).2.regs = s.regs := (later_poll limit s).2

@[simp] theorem regs_ta_w1c (s : Soc) : (bbnsm_ta_w1c irq s).2.regs = s.regs := regs_tick s

@[simp] theorem regs_clear_pending (s : Soc) : (NVIC_ClearPendingIRQ irq s).2.regs = s.regs := regs_tick s

@[simp] theorem regs_rtc_start (s : Soc) : (bbnsm_rtc_start irq s).2.regs =
    { s.regs with CTRL := { s.regs.CTRL with RTC_EN := 2#2 } } := by
  simp [bbnsm_rtc_start]

@[simp] theorem regs_set_alarm (alarm : UInt32) (s : Soc) : (bbnsm_set_alarm irq alarm s).2.regs =
    { s.regs with CTRL := { s.regs.CTRL with TA_EN := 2#2 }, TA_INT_EN := 2#2, TA := alarm } := by
  simp [bbnsm_set_alarm]

@[simp] theorem regs_program_alarm (orders : Bool × Vector Bool 8) (delay_sec : UInt32) (s : Soc) :
    (bbnsm_program_alarm irq orders delay_sec s).2.regs =
      { s.regs with
        CTRL := { s.regs.CTRL with RTC_EN := 2#2, TA_EN := 2#2 }
        TA_INT_EN := 2#2
        TA := (bbnsm_rtc_seconds irq orders (bbnsm_rtc_start irq s).2).1 +
          if delay_sec < 2 then 2 else delay_sec } := by
  simp [bbnsm_program_alarm]

variable (irq) in
theorem irq_park_spec {is : List (Fin 8)} (his : is.Nodup) (iser_save : Fin 8 → BitVec 32) (s : Soc) :
    ∃ ISER, (irq_park irq is iser_save s).2.regs = { s.regs with ISER := ISER } ∧
      (∀ i ∈ is, (irq_park irq is iser_save s).1 i = s.regs.ISER i ∧ ISER i = 0#32) ∧
      ∀ i ∉ is, (irq_park irq is iser_save s).1 i = iser_save i ∧ ISER i = s.regs.ISER i := by
  induction is generalizing iser_save s with
  | nil => exact ⟨_, rfl, by simp, fun i _ => ⟨rfl, rfl⟩⟩
  | cons i is ih =>
    obtain ⟨hi, his⟩ := List.nodup_cons.1 his
    rw [irq_park, bind_app, bind_app]
    obtain ⟨ISER, hregs, hin, hout⟩ := ih his (Function.update iser_save i (read_reg irq (·.ISER i) s).1)
      (write_reg irq (Regs.write_ICER i 0xFFFFFFFF) (read_reg irq (·.ISER i) s).2).2
    simp only [read_reg_value, regs_write_reg, regs_read_reg, Regs.write_ICER] at hregs hin hout ⊢
    refine ⟨ISER, hregs, fun j hj => ?_, fun j hj => ?_⟩
    · rcases List.mem_cons.1 hj with rfl | hj
      · simpa using hout j hi
      · have hne : j ≠ i := fun heq => hi (heq ▸ hj)
        simpa [hne] using hin j hj
    · rw [List.mem_cons, not_or] at hj
      simpa [hj.1] using hout j hj.2

/-- Of the interrupts only that of the alarm stays enabled. -/
def only_irq (irq : Fin 256) (i : Fin 8) : BitVec 32 := if i = group irq then BitVec.twoPow 32 (irq_bit irq) else 0#32

theorem irq_park_all (s : Soc) : (irq_park irq (List.finRange 8) (fun _ => 0#32) s).1 = s.regs.ISER ∧
    (irq_park irq (List.finRange 8) (fun _ => 0#32) s).2.regs = { s.regs with ISER := fun _ => 0#32 } := by
  obtain ⟨ISER, hregs, hin, -⟩ := irq_park_spec irq (List.nodup_finRange 8) (fun _ => 0#32) s
  have hzero : ISER = fun _ => 0#32 := funext fun i => (hin i (List.mem_finRange i)).2
  exact ⟨funext fun i => (hin i (List.mem_finRange i)).1, by rw [hregs, hzero]⟩

@[simp] theorem regs_irq_enable {s : Soc} (h : s.regs.ISER = fun _ => 0#32) :
    (irq_enable irq s).2.regs = { s.regs with ISER := only_irq irq } := by
  rw [irq_enable, regs_write_reg, Regs.write_ISER, h]
  congr 1
  funext i
  by_cases hi : i = group irq
  · subst hi
    simp [only_irq]
  · simp [only_irq, hi]

theorem irq_park_for_rtc_spec (s : Soc) :
    (irq_park_for_rtc irq s).1 = (s.regs.ISER, s.regs.SysTick_CTRL) ∧ (irq_park_for_rtc irq s).2.regs =
      { s.regs with ISER := only_irq irq, SysTick_CTRL := 0, PENDST := false } := by
  unfold irq_park_for_rtc
  simp only [bind_app, pure_app]
  constructor
  · rw [(irq_park_all _).1]
    simp only [read_reg_value, regs_write_reg, regs_read_reg]
  · rw [regs_irq_enable (congrArg Regs.ISER (irq_park_all _).2), (irq_park_all _).2]
    simp only [regs_write_reg, regs_read_reg]

@[simp] theorem regs_gpc_wakeup (s : Soc) : (gpc_bbnsm_wakeup irq true s).2.regs =
    { s.regs with
      CM_IRQ_WAKEUP_MASK := Function.update s.regs.CM_IRQ_WAKEUP_MASK (group irq)
        (s.regs.CM_IRQ_WAKEUP_MASK (group irq) &&& ~~~BitVec.twoPow 32 (irq_bit irq)) } := by
  simp [gpc_bbnsm_wakeup]

variable (irq) in
/-- The interrupts that were enabled, with the others that are. -/
theorem irq_unpark_spec {is : List (Fin 8)} (his : is.Nodup) (iser_save : Fin 8 → BitVec 32) (s : Soc) :
    ∃ ISER, ((forM is fun i => write_reg irq (Regs.write_ISER i (iser_save i))) s).2.regs =
        { s.regs with ISER := ISER } ∧
      (∀ i ∈ is, ISER i = s.regs.ISER i ||| iser_save i) ∧ ∀ i ∉ is, ISER i = s.regs.ISER i := by
  induction is generalizing s with
  | nil => exact ⟨_, rfl, by simp, fun i _ => rfl⟩
  | cons i is ih =>
    obtain ⟨hi, his⟩ := List.nodup_cons.1 his
    rw [List.forM_cons, bind_app]
    obtain ⟨ISER, hregs, hin, hout⟩ := ih his (write_reg irq (Regs.write_ISER i (iser_save i)) s).2
    simp only [regs_write_reg, Regs.write_ISER] at hregs hin hout
    refine ⟨ISER, hregs, fun j hj => ?_, fun j hj => ?_⟩
    · rcases List.mem_cons.1 hj with rfl | hj
      · simpa using hout j hi
      · have hne : j ≠ i := fun heq => hi (heq ▸ hj)
        simpa [hne] using hin j hj
    · rw [List.mem_cons, not_or] at hj
      simpa [hj.1] using hout j hj.2

@[simp] theorem regs_irq_unpark (iser_save : Fin 8 → BitVec 32) (systick_ctrl : UInt32) (s : Soc) :
    (irq_unpark irq iser_save systick_ctrl s).2.regs =
      { s.regs with ISER := fun i => s.regs.ISER i ||| iser_save i, SysTick_CTRL := systick_ctrl } := by
  obtain ⟨ISER, hregs, hin, -⟩ := irq_unpark_spec irq (List.nodup_finRange 8) iser_save s
  have hall : ISER = fun i => s.regs.ISER i ||| iser_save i := funext fun i => hin i (List.mem_finRange i)
  subst hall
  simp [irq_unpark, hregs]

/-- Where the clock is about to be read for the alarm. -/
def at_reading (irq : Fin 256) (s : Soc) : Soc :=
  (bbnsm_rtc_start irq (NVIC_ClearPendingIRQ irq (bbnsm_ta_w1c irq s).2).2).2

/-- The alarm that `rt118x_enter_snvs` programs, from what the clock says. -/
def programmed (irq : Fin 256) (orders : Orders) (delay_sec : UInt32) (s : Soc) : UInt32 :=
  (bbnsm_rtc_seconds irq orders.now (at_reading irq s)).1 + if delay_sec < 2 then 2 else delay_sec

variable (irq) in
/-- The registers at the `__WFI`. -/
theorem regs_to_wfi (orders : Orders) (delay_sec : UInt32) (pmic_off : Bool) (s : Soc) :
    let r := (rt118x_to_wfi irq orders delay_sec pmic_off s).2.regs
    r.CTRL.TA_EN = 2#2 ∧ r.TA_INT_EN = 2#2 ∧ r.TA = programmed irq orders delay_sec s ∧ r.ISER = only_irq irq ∧
      r.SysTick_CTRL = 0 ∧ r.PENDST = false ∧ r.SLEEPDEEP = true ∧ r.next_mode = .kGPC_StopMode ∧
      r.CM_IRQ_WAKEUP_MASK = Function.update s.regs.CM_IRQ_WAKEUP_MASK (group irq)
        (s.regs.CM_IRQ_WAKEUP_MASK (group irq) &&& ~~~BitVec.twoPow 32 (irq_bit irq)) := by
  cases pmic_off with
  | true => simp [rt118x_to_wfi, rt118x_stop, irq_park_for_rtc_spec, bbnsm_tosp, programmed, at_reading]
  | false => simp [rt118x_to_wfi, rt118x_stop, irq_park_for_rtc_spec, bbnsm_tosp, programmed, at_reading]

variable (irq) in
/-- What is saved for after it. -/
theorem saved_to_wfi (orders : Orders) (delay_sec : UInt32) (pmic_off : Bool) (s : Soc) :
    (rt118x_to_wfi irq orders delay_sec pmic_off s).1 = (s.regs.ISER, s.regs.SysTick_CTRL) := by
  cases pmic_off with
  | true => simp [rt118x_to_wfi, rt118x_stop, irq_park_for_rtc_spec, bbnsm_tosp]
  | false => simp [rt118x_to_wfi, rt118x_stop, irq_park_for_rtc_spec, bbnsm_tosp]

theorem regs_from_wfi (orders : Orders) (saved : (Fin 8 → BitVec 32) × UInt32) (s : Soc) :
    (rt118x_from_wfi irq orders saved s).2.regs =
      { s.regs with
        SLEEPDEEP := false, next_mode := .kGPC_RunMode
        ISER := fun i => s.regs.ISER i ||| saved.1 i, SysTick_CTRL := saved.2 } := by
  simp [rt118x_from_wfi]

/-! ## The time that it takes -/

/-- Time does not go back. -/
def Forward (s s' : Soc) : Prop := s.count ≤ s'.count

instance : IsPreorder Soc Forward where
  refl _ := Nat.le_refl _
  trans _ _ _ := Nat.le_trans

theorem forward_of_later {α : Type} {m : StateM Soc α} (h : Keeps Later m) : Keeps Forward m := fun s => (h s).1

theorem forward_read_reg {α : Type} (f : Regs → α) : Keeps Forward (read_reg irq f) := fun s => (later_tick irq s).1

theorem forward_write_reg (f : Regs → Regs) : Keeps Forward (write_reg irq f) := fun s => (later_tick irq s).1

theorem forward_ta_w1c : Keeps Forward (bbnsm_ta_w1c irq) := fun s => (later_tick irq s).1

theorem forward_clear_pending : Keeps Forward (NVIC_ClearPendingIRQ irq) := fun s => (later_tick irq s).1

theorem forward_rtc_start : Keeps Forward (bbnsm_rtc_start irq) :=
  keeps_bind (forward_read_reg _) fun _ => keeps_bind (forward_write_reg _) fun _ => forward_of_later (later_poll _)

theorem forward_set_alarm (alarm : UInt32) : Keeps Forward (bbnsm_set_alarm irq alarm) := by
  refine keeps_bind (forward_read_reg _) fun _ => keeps_bind (forward_write_reg _) fun _ => ?_
  refine keeps_bind forward_ta_w1c fun _ => keeps_bind (forward_write_reg _) fun _ => ?_
  refine keeps_bind (forward_of_later (later_poll _)) fun _ => keeps_bind (forward_write_reg _) fun _ => ?_
  exact keeps_bind (forward_write_reg _) fun _ => keeps_bind (forward_read_reg _) fun _ => forward_write_reg _

theorem forward_irq_park (is : List (Fin 8)) (iser_save : Fin 8 → BitVec 32) :
    Keeps Forward (irq_park irq is iser_save) := by
  induction is generalizing iser_save with
  | nil => exact keeps_pure _
  | cons i is ih => exact keeps_bind (forward_read_reg _) fun _ => keeps_bind (forward_write_reg _) fun _ => ih _

theorem forward_irq_park_for_rtc : Keeps Forward (irq_park_for_rtc irq) := by
  refine keeps_bind (forward_read_reg _) fun _ => keeps_bind (forward_write_reg _) fun _ => ?_
  refine keeps_bind (forward_write_reg _) fun _ => keeps_bind (forward_irq_park _ _) fun _ => ?_
  exact keeps_bind (forward_write_reg _) fun _ => keeps_pure _

theorem forward_stop (orders : Orders) (pmic_off : Bool) : Keeps Forward (rt118x_stop irq orders pmic_off) := by
  have hseconds := forward_of_later (later_rtc_seconds irq orders.t0)
  have htosp : Keeps Forward (bbnsm_tosp irq pmic_off) :=
    keeps_ite (keeps_bind (forward_read_reg _) fun _ => forward_write_reg _) (keeps_pure _)
  have hwakeup : Keeps Forward (gpc_bbnsm_wakeup irq true) :=
    keeps_bind (forward_read_reg _) fun _ => forward_write_reg _
  refine keeps_bind forward_ta_w1c fun _ => keeps_bind forward_clear_pending fun _ => ?_
  refine keeps_bind htosp fun _ => keeps_bind hseconds fun _ => ?_
  refine keeps_bind forward_irq_park_for_rtc fun _ => keeps_bind hwakeup fun _ => ?_
  refine keeps_bind (forward_write_reg _) fun _ => keeps_bind (forward_write_reg _) fun _ => ?_
  exact keeps_bind (forward_of_later (later_tick irq)) fun _ => keeps_pure _

theorem forward_at_reading (s : Soc) : Forward s (at_reading irq s) :=
  trans_of Forward (forward_ta_w1c s) (trans_of Forward (forward_clear_pending _) (forward_rtc_start _))

variable (irq) in
/-- From the reading on. -/
theorem forward_to_wfi (orders : Orders) (delay_sec : UInt32) (pmic_off : Bool) (s : Soc) :
    Forward (bbnsm_rtc_seconds irq orders.now (at_reading irq s)).2
      (rt118x_to_wfi irq orders delay_sec pmic_off s).2 := by
  unfold rt118x_to_wfi bbnsm_program_alarm
  simp only [bind_app, pure_app]
  exact trans_of Forward (forward_set_alarm _ _) (forward_stop orders pmic_off _)

end

end EinkNode.Power
