import EinkNode.Lib.Wp
import Mathlib.Algebra.Group.Nat.Defs
/-!
# The clock that runs on

The counter of the BBNSM runs while everything else sleeps. It is read in two
halves, and time passes before each access. The alarm compares its seconds, and
the event is an interrupt that `bbnsm_isr` takes as soon as it is enabled.
-/
open NodeLib

namespace EinkNode.Power

/-! ## The chip -/

/-- `BBNSM_CTRL`, field by field. -/
structure BbnsmCtrl where
  RTC_EN : BitVec 2
  TA_EN : BitVec 2
  DP_EN : Bool
  TOSP : Bool
  others : UInt32
deriving DecidableEq

inductive CpuMode where
  | kGPC_RunMode | kGPC_WaitMode | kGPC_StopMode | kGPC_SuspendMode
deriving DecidableEq

/-- The registers that only the program writes. `ISER` tells which interrupts are enabled, in eight words; a set bit
of `CM_IRQ_WAKEUP_MASK` keeps one from waking the CPU. -/
structure Regs where
  CTRL : BbnsmCtrl
  TA_INT_EN : BitVec 2
  TA : UInt32
  ISER : Fin 8 → BitVec 32
  SysTick_CTRL : UInt32
  PENDST : Bool
  SLEEPDEEP : Bool
  CM_IRQ_WAKEUP_MASK : Fin 8 → BitVec 32
  next_mode : CpuMode

/-- The word and the bit of an interrupt. -/
def group (irq : Fin 256) : Fin 8 := ⟨irq.val / 32, by omega⟩
def irq_bit (irq : Fin 256) : Nat := irq.val % 32

def Regs.enabled (r : Regs) (irq : Fin 256) : Bool := (r.ISER (group irq)).getLsbD (irq_bit irq)
def Regs.masked (r : Regs) (irq : Fin 256) : Bool := (r.CM_IRQ_WAKEUP_MASK (group irq)).getLsbD (irq_bit irq)

/-- `count` is the counter of the RTC as if it had no end, in ticks of 1/32768 s; `EVENTS_TA` is the event of the alarm
and `pending` its interrupt. Before the next accesses the ticks of `passing` pass, and as many reads as `polls`
says see the next bits that are waited for still clear. -/
structure Soc where
  regs : Regs
  count : Nat
  EVENTS_TA : Bool
  pending : Bool
  passing : List Nat
  polls : List Nat

/-- The seconds of a counter. -/
def seconds (count : Nat) : Nat := count / 2 ^ 15

/-- Within these ticks the seconds come to the alarm, in their lower word. -/
def alarm_due (TA : UInt32) (count ticks : Nat) : Bool :=
  (List.range (seconds (count + ticks) - seconds count)).any fun n => (seconds count + n + 1) % 2 ^ 32 = TA.toNat

namespace Soc

/-- Time passes. An event stays until it is cleared, and so does its interrupt. -/
def elapse (ticks : Nat) (s : Soc) : Soc :=
  let EVENTS_TA := s.EVENTS_TA || (s.regs.CTRL.TA_EN = 2#2 && alarm_due s.regs.TA s.count ticks)
  { s with
    count := s.count + ticks, EVENTS_TA := EVENTS_TA, pending := s.pending || (EVENTS_TA && s.regs.TA_INT_EN = 2#2) }

def bbnsm_isr (s : Soc) : Soc := { s with EVENTS_TA := false, pending := false }

end Soc

/-! ## Accesses -/

section
variable (irq : Fin 256)

/-- The time before an access, with an interrupt of the alarm if there is one. -/
def tick : StateM Soc Unit := fun s =>
  let s := { s.elapse (s.passing.headD 0) with passing := s.passing.tail }
  ((), if s.regs.enabled irq && s.pending then s.bbnsm_isr else s)

def read_reg {α : Type} (f : Regs → α) : StateM Soc α := do
  tick irq
  fun s => (f s.regs, s)

def write_reg (f : Regs → Regs) : StateM Soc Unit := do
  tick irq
  fun s => ((), { s with regs := f s.regs })

/-- Reads until a bit shows, but no more than `limit` of them. -/
def poll (limit : Nat) : StateM Soc Unit := do
  let turns ← fun s => (min limit (s.polls.headD 0 + 1), { s with polls := s.polls.tail })
  (List.replicate turns ()).forM fun _ => tick irq

/-! ## Reading the clock -/

def BBNSM_RTC_MS : StateM Soc UInt32 := do
  tick irq
  fun s => (UInt32.ofNat (s.count / 2 ^ 32), s)

def BBNSM_RTC_LS : StateM Soc UInt32 := do
  tick irq
  fun s => (UInt32.ofNat s.count, s)

/-- C leaves open which half is read first. -/
def rtc_read (ms_first : Bool) : StateM Soc UInt32 :=
  if ms_first then do
    let ms ← BBNSM_RTC_MS irq
    let ls ← BBNSM_RTC_LS irq
    pure ((ms <<< 17) ||| (ls >>> 15))
  else do
    let ls ← BBNSM_RTC_LS irq
    let ms ← BBNSM_RTC_MS irq
    pure ((ms <<< 17) ||| (ls >>> 15))

/-- The loop of `bbnsm_rtc_seconds`, with `b` as the last value. -/
def rtc_again : List Bool → UInt32 → StateM Soc UInt32
  | [], b => pure b
  | ms_first :: orders, a => do
    let b ← rtc_read irq ms_first
    if a = b then pure b else rtc_again orders b

/-- `orders` are the orders of the reads, the first and eight more. -/
def bbnsm_rtc_seconds (orders : Bool × Vector Bool 8) : StateM Soc UInt32 := do
  let b ← rtc_read irq orders.1
  rtc_again irq orders.2.toList b

/-! ## What is read -/

/-- Time has passed, and the program has written nothing. -/
def Later (s s' : Soc) : Prop := s.count ≤ s'.count ∧ s'.regs = s.regs

instance : IsPreorder Soc Later where
  refl _ := ⟨Nat.le_refl _, rfl⟩
  trans _ _ _ h h' := ⟨Nat.le_trans h.1 h'.1, h'.2.trans h.2⟩

theorem later_tick : Keeps Later (tick irq) := by
  intro s
  unfold tick
  dsimp only
  split
  · exact ⟨Nat.le_add_right _ _, rfl⟩
  · exact ⟨Nat.le_add_right _ _, rfl⟩

/-- The value of a read that has seen the upper half in one second and the lower half in another. -/
def halves (upper lower : Nat) : Nat := upper / 2 ^ 17 % 2 ^ 15 * 2 ^ 17 + lower % 2 ^ 17

theorem toNat_halves (h l : Nat) :
    ((UInt32.ofNat (h / 2 ^ 32) <<< 17) ||| (UInt32.ofNat l >>> 15)).toNat = halves (seconds h) (seconds l) := by
  have hlow : (UInt32.ofNat l >>> 15).toNat = l % 2 ^ 32 / 2 ^ 15 := by
    rw [UInt32.toNat_shiftRight, UInt32.toNat_ofNat]
    exact Nat.shiftRight_eq_div_pow _ _
  have hhigh : (UInt32.ofNat (h / 2 ^ 32) <<< 17).toNat = h / 2 ^ 32 % 2 ^ 15 * 2 ^ 17 := by
    rw [UInt32.toNat_shiftLeft, UInt32.toNat_ofNat]
    change (h / 2 ^ 32 % 2 ^ 32) <<< 17 % 2 ^ 32 = _
    rw [Nat.shiftLeft_eq]
    omega
  rw [UInt32.toNat_or, hlow, hhigh, halves, seconds, seconds, ← Nat.shiftLeft_eq,
    ← Nat.shiftLeft_add_eq_or_of_lt (by omega), Nat.shiftLeft_eq]
  omega

/-- A read has seen each half at some moment of its own. -/
theorem rtc_read_spec (ms_first : Bool) (s : Soc) : ∃ h l, s.count ≤ min h l ∧
    max h l ≤ (rtc_read irq ms_first s).2.count ∧ (rtc_read irq ms_first s).1.toNat = halves (seconds h) (seconds l) ∧
    Later s (rtc_read irq ms_first s).2 := by
  cases ms_first with
  | true =>
    have hms := later_tick irq s
    have hls := later_tick irq (tick irq s).2
    refine ⟨(tick irq s).2.count, (tick irq (tick irq s).2).2.count, ?_, ?_, toNat_halves _ _, trans_of Later hms hls⟩
    · have := hms.1
      have := hls.1
      omega
    · exact Nat.max_le.2 ⟨hls.1, Nat.le_refl _⟩
  | false =>
    have hls := later_tick irq s
    have hms := later_tick irq (tick irq s).2
    refine ⟨(tick irq (tick irq s).2).2.count, (tick irq s).2.count, ?_, ?_, toNat_halves _ _, trans_of Later hls hms⟩
    · have := hms.1
      have := hls.1
      omega
    · exact Nat.max_le.2 ⟨Nat.le_refl _, hms.1⟩

/-- Two reads that agree within these seconds have both seen one second. -/
theorem halves_agree {start upper lower upper' lower' : Nat} (hstart : start ≤ min upper lower)
    (hbefore : max upper lower ≤ min upper' lower') (hend : max upper' lower' ≤ start + 6)
    (h : halves upper lower = halves upper' lower') : halves upper lower = lower % 2 ^ 32 := by
  unfold halves at h ⊢
  omega

/-- Between two that do not agree, a second has passed or the upper half has. -/
theorem halves_differ {upper lower upper' lower' : Nat} (hbefore : max upper lower ≤ min upper' lower')
    (h : halves upper lower ≠ halves upper' lower') : lower + upper / 2 ^ 17 < lower' + upper' / 2 ^ 17 := by
  by_contra hle
  have hupper : upper / 2 ^ 17 ≤ upper' / 2 ^ 17 := Nat.div_le_div_right (by omega)
  have heq : upper / 2 ^ 17 = upper' / 2 ^ 17 ∧ lower = lower' := by omega
  apply h
  unfold halves
  rw [heq.1, heq.2]

theorem seconds_mono {c c' : Nat} (h : c ≤ c') : seconds c ≤ seconds c' := Nat.div_le_div_right h

theorem seconds_between {h l h' l' : Nat} (hbetween : max h l ≤ min h' l') :
    max (seconds h) (seconds l) ≤ min (seconds h') (seconds l') := by
  unfold seconds
  omega

theorem later_rtc_read (ms_first : Bool) : Keeps Later (rtc_read irq ms_first) := by
  intro s
  obtain ⟨h, l, -, -, -, hlater⟩ := rtc_read_spec irq ms_first s
  exact hlater

theorem later_rtc_again (orders : List Bool) (a : UInt32) : Keeps Later (rtc_again irq orders a) := by
  induction orders generalizing a with
  | nil => exact keeps_pure _
  | cons ms_first orders ih => exact keeps_bind (later_rtc_read irq _) fun b => keeps_ite (keeps_pure _) (ih b)

theorem later_rtc_seconds (orders : Bool × Vector Bool 8) : Keeps Later (bbnsm_rtc_seconds irq orders) :=
  keeps_bind (later_rtc_read irq _) fun _ => later_rtc_again irq _ _

/-- After `turns` reads that did not agree with the one before, as many passages lie behind. -/
theorem rtc_again_spec {start h l : Nat} (turns : Nat) (orders : List Bool) (hall : turns + orders.length = 8)
    {a : UInt32} (ha : a.toNat = halves (seconds h) (seconds l)) (hstart : start ≤ min h l)
    (hturns : seconds start + seconds start / 2 ^ 17 + turns ≤ seconds l + seconds h / 2 ^ 17) {s : Soc}
    (hs : max h l ≤ s.count) (hend : seconds (rtc_again irq orders a s).2.count ≤ seconds start + 6) :
    ∃ m, start ≤ m ∧ m ≤ (rtc_again irq orders a s).2.count ∧
      (rtc_again irq orders a s).1.toNat = seconds m % 2 ^ 32 := by
  induction orders generalizing turns h l a s with
  | nil =>
    -- Eight passages would have taken more time.
    have hh := seconds_mono (Nat.le_trans (Nat.le_max_left h l) hs)
    have hl := seconds_mono (Nat.le_trans (Nat.le_max_right h l) hs)
    change seconds s.count ≤ seconds start + 6 at hend
    rw [List.length_nil] at hall
    omega
  | cons ms_first orders ih =>
    obtain ⟨h', l', hbefore, hafter, hread, -⟩ := rtc_read_spec irq ms_first s
    have hbetween : max h l ≤ min h' l' := Nat.le_trans hs hbefore
    rw [rtc_again, bind_app] at hend ⊢
    by_cases hagree : a = (rtc_read irq ms_first s).1
    · rw [if_pos hagree] at hend ⊢
      change seconds (rtc_read irq ms_first s).2.count ≤ _ at hend
      refine ⟨l, by omega, Nat.le_trans ?_ hafter, ?_⟩
      · omega
      · rw [pure_app, ← hagree, ha]
        rw [← hagree, ha] at hread
        have hseen : seconds start ≤ min (seconds h) (seconds l) ∧
            max (seconds h') (seconds l') ≤ seconds start + 6 := by
          have := seconds_mono hafter
          unfold seconds at *
          omega
        exact halves_agree hseen.1 (seconds_between hbetween) hseen.2 hread
    · rw [if_neg hagree] at hend ⊢
      rw [List.length_cons] at hall
      refine ih (turns + 1) (by omega) hread (by omega) ?_ hafter hend
      have hdiffer : halves (seconds h) (seconds l) ≠ halves (seconds h') (seconds l') := by
        intro heq
        apply hagree
        rw [← ha, ← hread] at heq
        exact UInt32.toNat_inj.1 heq
      have hpassed := halves_differ (seconds_between hbetween) hdiffer
      omega

/-- As long as no seven seconds pass in the call, what it returns has been the time, in its lower word. -/
theorem rtc_seconds_true (orders : Bool × Vector Bool 8) {s : Soc}
    (hquick : seconds (bbnsm_rtc_seconds irq orders s).2.count ≤ seconds s.count + 6) :
    ∃ m, s.count ≤ m ∧ m ≤ (bbnsm_rtc_seconds irq orders s).2.count ∧
      (bbnsm_rtc_seconds irq orders s).1.toNat = seconds m % 2 ^ 32 := by
  obtain ⟨h, l, hstart, hbefore, hread, -⟩ := rtc_read_spec irq orders.1 s
  refine rtc_again_spec irq 0 orders.2.toList ?_ hread hstart ?_ hbefore hquick
  · rw [Nat.zero_add, Vector.length_toList]
  · have hl := seconds_mono (Nat.le_trans hstart (Nat.min_le_right h l))
    have hh := seconds_mono (Nat.le_trans hstart (Nat.min_le_left h l))
    have := Nat.div_le_div_right (c := 2 ^ 17) hh
    omega

end

end EinkNode.Power
