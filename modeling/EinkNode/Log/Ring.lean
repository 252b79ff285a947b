import EinkNode.Lib.CString
import EinkNode.Lib.RingBuffer
/-!
# The log ring

`eink_log_ring.c`: formatted log text goes byte by byte into a ring, and a
snapshot copies the oldest bytes out. The upload has a buffer of the size of the
ring, one byte of which is for the terminator.
-/
open NodeLib

namespace EinkNode.Log

/-- `CONFIG_APP_EINK_DEBUG_LOG_RING_SIZE`, with the range that Kconfig gives it. -/
structure LogBuild where
  RING_SIZE : Nat
  range : 4096 ≤ RING_SIZE ∧ RING_SIZE ≤ 65536

/-- The statics of the file. -/
structure LogRing where
  ring : RingBuffer UInt8
  ring_lines : Nat

def newline : UInt8 := 10

/-- After `init_backend`. -/
def LogRing.empty : LogRing := ⟨.init 0, 0⟩

/-! ## A ring of any size -/

namespace Window

variable (RING_SIZE : Nat)

def ring_putc_locked (r : LogRing) (c : UInt8) : LogRing where
  ring := r.ring.push RING_SIZE c
  ring_lines := if c = newline then (r.ring_lines + 1) % 2 ^ 32 else r.ring_lines

def ring_write_locked (r : LogRing) (data : Bytes) : LogRing := data.foldl (ring_putc_locked RING_SIZE) r

def char_out (r : LogRing) (data : Bytes) : LogRing := if data = [] then r else ring_write_locked RING_SIZE r data

variable {RING_SIZE}

theorem ring_of_write (r : LogRing) (data : Bytes) :
    (ring_write_locked RING_SIZE r data).ring = data.foldl (RingBuffer.push RING_SIZE) r.ring := by
  induction data generalizing r with
  | nil => rfl
  | cons c data ih => exact ih _

theorem holds_char_out {s : Bytes} {r : LogRing} (h : RingBuffer.Holds RING_SIZE s r.ring) (data : Bytes) :
    RingBuffer.Holds RING_SIZE (s ++ data) (char_out RING_SIZE r data).ring := by
  unfold char_out
  split
  · next hnil => simpa [hnil] using h
  · rw [ring_of_write]
    exact RingBuffer.holds_foldl h data

/-- After any writes, the ring holds a window of their whole text. -/
theorem holds_run (writes : List Bytes) :
    RingBuffer.Holds RING_SIZE writes.flatten (writes.foldl (char_out RING_SIZE) .empty).ring := by
  have hgen (s : Bytes) (r : LogRing) (h : RingBuffer.Holds RING_SIZE s r.ring) :
      RingBuffer.Holds RING_SIZE (s ++ writes.flatten) (writes.foldl (char_out RING_SIZE) r).ring := by
    induction writes generalizing s r with
    | nil => simpa using h
    | cons data writes ih =>
      rw [List.flatten_cons, ← List.append_assoc]
      exact ih _ _ (holds_char_out h data)
  exact hgen [] .empty (RingBuffer.holds_init _ _)

end Window

/-! ## The ring of the build -/

variable (b : LogBuild)

def char_out : LogRing → Bytes → LogRing := Window.char_out b.RING_SIZE

/-- The bytes that are stored before the terminator. -/
def eink_log_ring_snapshot (r : LogRing) (dst_len : Nat) : Bytes :=
  if dst_len = 0 then [] else r.ring.read b.RING_SIZE (min r.ring.len (dst_len - 1))

theorem ring_size_pos : 0 < b.RING_SIZE := Nat.lt_of_lt_of_le (by decide) b.range.1

/-- The text that an upload of `s` is made from. -/
def uploadWindow (s : Bytes) : Bytes := (s.drop (s.length - b.RING_SIZE)).take (b.RING_SIZE - 1)

theorem snapshot_eq (writes : List Bytes) :
    eink_log_ring_snapshot b (writes.foldl (char_out b) .empty) b.RING_SIZE = uploadWindow b writes.flatten := by
  have h : RingBuffer.Holds b.RING_SIZE writes.flatten (writes.foldl (char_out b) .empty).ring :=
    Window.holds_run writes
  have hpos := ring_size_pos b
  rw [eink_log_ring_snapshot, if_neg (by omega), RingBuffer.read_eq h (Nat.min_le_left _ _), uploadWindow, h.len]
  -- What the window does not have cannot be cut off.
  rcases Nat.le_total writes.flatten.length (b.RING_SIZE - 1) with hle | hge
  · have hdrop : (writes.flatten.drop (writes.flatten.length - b.RING_SIZE)).length ≤ writes.flatten.length := by
      rw [List.length_drop]
      omega
    rw [List.take_of_length_le (by omega), List.take_of_length_le (by omega)]
  · congr 1
    omega

end EinkNode.Log
