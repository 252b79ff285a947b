import EinkNode.Power.Snvs
import Mathlib.Data.List.Induction
/-!
# Every sleep ends with its alarm

At the `__WFI` nothing but the alarm can wake the CPU, and it does so the asked
number of seconds after the clock was read, unless it took longer than that to
get there. Awake again, the machine is as it was.
-/
open NodeLib

namespace EinkNode.Power

/-! ## How long -/

/-- The delay of `eink_power_enter_snvs_in`. -/
def snvs_in_delay (delay_sec : UInt32) : UInt32 :=
  let delay_sec := if delay_sec < 2 then 2 else delay_sec
  if delay_sec > 86400 then 86400 else delay_sec

/-- The delay of `eink_power_enter_snvs`; `default_alarm` is `CONFIG_APP_EINK_SNVS_DEFAULT_ALARM_SEC`. -/
def enter_snvs_delay (default_alarm : UInt32) (next_wake_unix now : Int) : UInt32 :=
  if next_wake_unix > 1700000000 then
    let rem := next_wake_unix - now
    if rem ≥ 2 then UInt32.ofNat (min rem 86400).toNat else default_alarm
  else default_alarm

/-- A call that comes to `rt118x_enter_snvs`. The default is in the range of its option. -/
inductive SnvsEntry where
  | enter_snvs_in (delay_sec : UInt32) (pmic_off : Bool)
  | enter_snvs (default_alarm : { sec : UInt32 // 2 ≤ sec ∧ sec ≤ 86400 }) (pmic_off : Bool) (next_wake_unix now : Int)

namespace SnvsEntry

def delay : SnvsEntry → UInt32
  | enter_snvs_in delay_sec _ => snvs_in_delay delay_sec
  | enter_snvs default_alarm _ next_wake_unix now => enter_snvs_delay default_alarm.val next_wake_unix now

def pmic_off : SnvsEntry → Bool
  | enter_snvs_in _ pmic_off => pmic_off
  | enter_snvs _ pmic_off _ _ => pmic_off

/-- Between two seconds and a day. -/
theorem delay_range (e : SnvsEntry) : 2 ≤ e.delay.toNat ∧ e.delay.toNat ≤ 86400 := by
  cases e with
  | enter_snvs_in delay_sec pmic_off =>
    unfold delay snvs_in_delay
    dsimp only
    simp only [UInt32.lt_iff_toNat_lt, apply_ite UInt32.toNat]
    simp only [show (2 : UInt32).toNat = 2 from rfl, show (86400 : UInt32).toNat = 86400 from rfl]
    split
    · decide
    · split
      · omega
      · omega
  | enter_snvs default_alarm pmic_off next_wake_unix now =>
    have hdefault : 2 ≤ default_alarm.val.toNat ∧ default_alarm.val.toNat ≤ 86400 := default_alarm.2
    unfold delay enter_snvs_delay
    dsimp only
    split
    · split
      · rw [UInt32.toNat_ofNat_of_lt' (by simp only [UInt32.size]; omega)]
        omega
      · exact hdefault
    · exact hdefault

end SnvsEntry

/-! ## The alarm -/

theorem alarm_due_iff (TA : UInt32) (count ticks : Nat) : alarm_due TA count ticks = true ↔
    ∃ x, seconds count < x ∧ x ≤ seconds (count + ticks) ∧ x % 2 ^ 32 = TA.toNat := by
  unfold alarm_due
  rw [List.any_eq_true]
  simp only [List.mem_range, decide_eq_true_eq]
  constructor
  · rintro ⟨n, hn, hx⟩
    exact ⟨seconds count + n + 1, by omega, by omega, hx⟩
  · rintro ⟨x, hlt, hle, hx⟩
    exact ⟨x - seconds count - 1, by omega, by rwa [show seconds count + (x - seconds count - 1) + 1 = x by omega]⟩

/-- An alarm that was set `delay` seconds ahead of `now`, seen from `here`. -/
theorem alarm_ahead {TA : UInt32} {now delay count : Nat} (hTA : TA.toNat = (now + delay) % 2 ^ 32)
    (hdelay : delay < 2 ^ 32) (hnow : now ≤ seconds count) (ticks : Nat) :
    (seconds count < now + delay → (alarm_due TA count ticks = true ↔ now + delay ≤ seconds (count + ticks))) ∧
      (now + delay ≤ seconds count → seconds (count + ticks) < now + delay + 2 ^ 32 →
        alarm_due TA count ticks = false) := by
  constructor
  · intro hahead
    rw [alarm_due_iff]
    constructor
    · rintro ⟨x, hlt, hle, hx⟩
      omega
    · intro hle
      exact ⟨now + delay, hahead, hle, hTA.symm⟩
  · intro hgone hle
    rw [Bool.eq_false_iff, ne_eq, alarm_due_iff]
    rintro ⟨x, hlt, hlex, hx⟩
    omega

/-! ## At the `__WFI` -/

/-- When `ticks` have passed, the CPU wakes. -/
def Soc.wakes (irq : Fin 256) (ticks : Nat) (s : Soc) : Bool :=
  let s := s.elapse ticks
  s.regs.enabled irq && !s.regs.masked irq && s.pending

/-- The interrupt of the alarm has nothing left to do once it was enabled. -/
theorem quiet_tick {irq : Fin 256} {s : Soc} (henabled : s.regs.enabled irq = true) (hint : s.regs.TA_INT_EN = 2#2) :
    (tick irq s).2.pending = false ∧ (tick irq s).2.EVENTS_TA = false := by
  unfold tick
  simp only [Soc.elapse, henabled, hint, Bool.true_and, decide_true, Bool.and_true]
  split
  · exact ⟨rfl, rfl⟩
  · next hquiet =>
    rw [Bool.not_eq_true, Bool.or_eq_false_iff] at hquiet
    exact ⟨by rw [hquiet.1, hquiet.2]; rfl, hquiet.2⟩

theorem irq_eq_iff (irq other : Fin 256) : other = irq ↔ group other = group irq ∧ irq_bit other = irq_bit irq := by
  unfold group irq_bit
  rw [Fin.ext_iff, Fin.ext_iff]
  dsimp only
  omega

theorem irq_bit_lt (irq : Fin 256) : irq_bit irq < 32 := Nat.mod_lt _ (by decide)

theorem only_irq_bit (irq other : Fin 256) :
    (only_irq irq (group other)).getLsbD (irq_bit other) = decide (other = irq) := by
  simp only [only_irq, irq_eq_iff irq other]
  by_cases hgroup : group other = group irq
  · have hlt := irq_bit_lt irq
    simp [hgroup, BitVec.getLsbD_twoPow, hlt, eq_comm]
  · simp [hgroup]

/-- The mask without the bit of an interrupt. -/
theorem unmasked_bit (mask : Fin 8 → BitVec 32) (irq other : Fin 256) :
    (Function.update mask (group irq) (mask (group irq) &&& ~~~BitVec.twoPow 32 (irq_bit irq)) (group other)).getLsbD
        (irq_bit other) = ((mask (group other)).getLsbD (irq_bit other) && !decide (other = irq)) := by
  simp only [irq_eq_iff irq other]
  by_cases hgroup : group other = group irq
  · have hlt := irq_bit_lt other
    simp [hgroup, hlt, eq_comm]
  · simp [hgroup]

/-- Nothing but the alarm wakes the CPU, which is to sleep as deeply as it can, and the alarm is not waiting. -/
structure AtRest (irq : Fin 256) (w : Soc) : Prop where
  only : ∀ other, w.regs.enabled other = decide (other = irq)
  unmasked : w.regs.masked irq = false
  no_tick : w.regs.SysTick_CTRL = 0 ∧ w.regs.PENDST = false
  deep : w.regs.SLEEPDEEP = true ∧ w.regs.next_mode = .kGPC_StopMode
  armed : w.regs.CTRL.TA_EN = 2#2 ∧ w.regs.TA_INT_EN = 2#2
  quiet : w.pending = false ∧ w.EVENTS_TA = false

/-- The CPU wakes when the alarm comes. -/
theorem AtRest.wakes_iff {irq : Fin 256} {w : Soc} (h : AtRest irq w) (ticks : Nat) :
    w.wakes irq ticks = alarm_due w.regs.TA w.count ticks := by
  have henabled : w.regs.enabled irq = true := by rw [h.only, decide_eq_true rfl]
  simp [Soc.wakes, Soc.elapse, henabled, h.unmasked, h.armed.1, h.armed.2, h.quiet.1, h.quiet.2]

section
variable {irq : Fin 256}

/-- The last access before the `__WFI` only lets time pass. -/
theorem to_wfi_last (irq : Fin 256) (orders : Orders) (delay_sec : UInt32) (pmic_off : Bool) (s : Soc) :
    ∃ s', (rt118x_to_wfi irq orders delay_sec pmic_off s).2 = (tick irq s').2 := by
  unfold rt118x_to_wfi rt118x_stop
  simp only [bind_app, pure_app]
  exact ⟨_, rfl⟩

theorem atRest_to_wfi (irq : Fin 256) (orders : Orders) (delay_sec : UInt32) (pmic_off : Bool) (s : Soc) :
    AtRest irq (rt118x_to_wfi irq orders delay_sec pmic_off s).2 := by
  obtain ⟨hctrl, hint, -, hiser, hsystick, hpendst, hdeep, hmode, hmask⟩ := regs_to_wfi irq orders delay_sec pmic_off s
  have honly (other : Fin 256) :
      (rt118x_to_wfi irq orders delay_sec pmic_off s).2.regs.enabled other = decide (other = irq) := by
    rw [Regs.enabled, hiser, only_irq_bit]
  refine ⟨honly, ?_, ⟨hsystick, hpendst⟩, ⟨hdeep, hmode⟩, ⟨hctrl, hint⟩, ?_⟩
  · rw [Regs.masked, hmask, unmasked_bit, decide_eq_true rfl, Bool.not_true, Bool.and_false]
  · obtain ⟨s', hlast⟩ := to_wfi_last irq orders delay_sec pmic_off s
    have henabled := honly irq
    rw [hlast, regs_tick] at henabled hint
    rw [hlast]
    exact quiet_tick (henabled.trans (decide_eq_true rfl)) hint

/-- The alarm that is programmed is as far ahead of a moment of the reading as was asked for. -/
theorem programmed_spec (orders : Orders) {delay_sec : UInt32} (hdelay : 2 ≤ delay_sec.toNat) {s : Soc}
    (hquick : seconds (bbnsm_rtc_seconds irq orders.now (at_reading irq s)).2.count ≤
      seconds (at_reading irq s).count + 6) :
    ∃ m, s.count ≤ m ∧ m ≤ (bbnsm_rtc_seconds irq orders.now (at_reading irq s)).2.count ∧
      (programmed irq orders delay_sec s).toNat = (seconds m + delay_sec.toNat) % 2 ^ 32 := by
  obtain ⟨m, hstart, hend, htrue⟩ := rtc_seconds_true irq orders.now hquick
  refine ⟨m, Nat.le_trans (forward_at_reading s) hstart, hend, ?_⟩
  have hlong : ¬ delay_sec < 2 := by
    rw [UInt32.lt_iff_toNat_lt]
    exact Nat.not_lt.2 hdelay
  rw [programmed, if_neg hlong, UInt32.toNat_add, htrue]
  omega

/-! ## Sleeping and waking -/

/-- A sleep: the call, the orders of its readings, and how time passes and bits show meanwhile. -/
structure Sleep where
  entry : SnvsEntry
  orders : Orders
  passing : List Nat
  polls : List Nat

/-- The chip as the call finds it. -/
def Sleep.start (c : Sleep) (s : Soc) : Soc := { s with passing := c.passing, polls := c.polls }

/-- The chip at the `__WFI`. -/
def Sleep.wfi (irq : Fin 256) (c : Sleep) (s : Soc) : Soc :=
  (rt118x_to_wfi irq c.orders c.entry.delay c.entry.pmic_off (c.start s)).2

/-- The whole call. -/
def sleep (irq : Fin 256) (s : Soc) (c : Sleep) : Soc :=
  (rt118x_enter_snvs irq c.orders c.entry.delay c.entry.pmic_off (c.start s)).2

/-- Reading the clock for the alarm does not take seven seconds. -/
def Sleep.Quick (irq : Fin 256) (c : Sleep) (s : Soc) : Prop :=
  seconds (bbnsm_rtc_seconds irq c.orders.now (at_reading irq (c.start s))).2.count ≤
    seconds (at_reading irq (c.start s)).count + 6

/-- The call comes to rest, and sleeps until `alarm`. One that comes to rest when that time is over sleeps on, for
the 2^32 seconds until the clock shows it again. -/
structure SleepsUntil (irq : Fin 256) (w : Soc) (alarm : Nat) : Prop where
  rest : AtRest irq w
  wakes : seconds w.count < alarm → ∀ ticks, w.wakes irq ticks = true ↔ alarm ≤ seconds (w.count + ticks)
  lost : alarm ≤ seconds w.count → ∀ ticks, seconds (w.count + ticks) < alarm + 2 ^ 32 → w.wakes irq ticks = false

theorem sleeps_until (c : Sleep) (s : Soc) (hquick : c.Quick irq s) :
    ∃ m, s.count ≤ m ∧ m ≤ (c.wfi irq s).count ∧ SleepsUntil irq (c.wfi irq s) (seconds m + c.entry.delay.toNat) := by
  obtain ⟨hmin, hmax⟩ := c.entry.delay_range
  obtain ⟨m, hstart, hend, hTA⟩ := programmed_spec c.orders hmin hquick
  obtain ⟨-, -, hTA', -⟩ := regs_to_wfi irq c.orders c.entry.delay c.entry.pmic_off (c.start s)
  have hforward := forward_to_wfi irq c.orders c.entry.delay c.entry.pmic_off (c.start s)
  have hrest := atRest_to_wfi irq c.orders c.entry.delay c.entry.pmic_off (c.start s)
  unfold Sleep.wfi
  generalize (rt118x_to_wfi irq c.orders c.entry.delay c.entry.pmic_off (c.start s)).2 = w at hTA' hforward hrest ⊢
  rw [← hTA'] at hTA
  have hwfi : m ≤ w.count := Nat.le_trans hend hforward
  have halarm := alarm_ahead hTA (by omega) (seconds_mono hwfi)
  refine ⟨m, hstart, hwfi, hrest, fun hahead ticks => ?_, fun hgone ticks hlt => ?_⟩
  · rw [hrest.wakes_iff]
    exact (halarm ticks).1 hahead
  · rw [hrest.wakes_iff]
    exact (halarm ticks).2 hgone hlt

/-- The machine after it `slept`: the interrupt of the alarm has become enabled and lets the CPU wake; the other
interrupts, the masks and the tick are as in `s0`. -/
structure Back (irq : Fin 256) (s0 : Soc) (slept : Prop) (s : Soc) : Prop where
  enabled : ∀ other, s.regs.enabled other = true ↔ s0.regs.enabled other = true ∨ slept ∧ other = irq
  masked : ∀ other, s.regs.masked other = true ↔ s0.regs.masked other = true ∧ ¬ (slept ∧ other = irq)
  systick : s.regs.SysTick_CTRL = s0.regs.SysTick_CTRL
  awake : slept → s.regs.SLEEPDEEP = false ∧ s.regs.next_mode = .kGPC_RunMode

theorem back_sleep (c : Sleep) (s : Soc) : Back irq s True (sleep irq s c) := by
  obtain ⟨-, -, -, hiser, -, -, -, -, hmask⟩ := regs_to_wfi irq c.orders c.entry.delay c.entry.pmic_off (c.start s)
  have hsaved := saved_to_wfi irq c.orders c.entry.delay c.entry.pmic_off (c.start s)
  have hregs : (sleep irq s c).regs = { (c.wfi irq s).regs with
      SLEEPDEEP := false, next_mode := .kGPC_RunMode
      ISER := fun i => (c.wfi irq s).regs.ISER i ||| s.regs.ISER i, SysTick_CTRL := s.regs.SysTick_CTRL } := by
    unfold sleep rt118x_enter_snvs Sleep.wfi
    rw [bind_app, bind_app, regs_from_wfi, hsaved]
    simp only [regs_tick]
    rfl
  unfold Sleep.wfi at hregs
  generalize (rt118x_to_wfi irq c.orders c.entry.delay c.entry.pmic_off (c.start s)).2 = w at hiser hmask hregs
  constructor
  · intro other
    rw [Regs.enabled, hregs]
    dsimp only
    rw [hiser, BitVec.getLsbD_or, only_irq_bit, Bool.or_eq_true, decide_eq_true_iff, true_and, or_comm]
    rfl
  · intro other
    rw [Regs.masked, hregs]
    dsimp only
    rw [hmask, unmasked_bit, Bool.and_eq_true, Bool.not_eq_true', decide_eq_false_iff_not, true_and]
    rfl
  · rw [hregs]
  · rw [hregs]
    exact fun _ => ⟨rfl, rfl⟩

theorem Back.refl (s : Soc) : Back irq s False s where
  enabled _ := by simp
  masked _ := by simp
  systick := rfl
  awake h := h.elim

theorem Back.again {s0 s s' : Soc} {slept : Prop} (h : Back irq s0 slept s) (h' : Back irq s True s') :
    Back irq s0 True s' where
  enabled other := by
    rw [h'.enabled, h.enabled]
    tauto
  masked other := by
    rw [h'.masked, h.masked]
    tauto
  systick := h'.systick.trans h.systick
  awake := h'.awake

end

end EinkNode.Power
