import EinkNode.Lib.CString
import EinkNode.Lib.Errno
import Mathlib.Data.List.GetD
/-!
# Bulk transfers to the T2000

`bulk_xfer` as its callers see it: one call after the other, each of which meets
something of the USB host and the device. Of a completed IN transfer the bytes that
came go to the caller's buffer. How many came does not.
-/

namespace EinkNode

open NodeLib

namespace T2000

/-- `xfer->err`: 0, or a negative error number. -/
abbrev XferErr := { e : Int // e ≤ 0 }

def XferErr.none : XferErr := ⟨0, Int.le_refl 0⟩

/-- What a call of `bulk_xfer` meets. -/
inductive Met where
  | no_device
  /-- `usbh_xfer_alloc` gives nothing -/
  | no_xfer
  /-- `usbh_xfer_buf_alloc` gives nothing -/
  | no_buf
  /-- `usbh_xfer_enqueue` fails -/
  | refused (ret : { e : Int // e < 0 })
  | timed_out
  /-- a completion, and the bytes that are then in the buffer -/
  | done (err : XferErr) (buf : Bytes)
deriving DecidableEq

/-- A completion without an error. -/
def Met.ok : Met → Bool
  | .done err _ => err.1 == 0
  | _ => false

/-- The bytes that a completed transfer has in its buffer. -/
def Met.received : Met → Bytes
  | .done _ buf => buf
  | _ => []

/-- What the call returns. -/
def Met.ret : Met → Int
  | .no_device => -ENODEV
  | .no_xfer => -ENOMEM
  | .no_buf => -ENOMEM
  | .refused ret => ret.1
  | .timed_out => -ETIMEDOUT
  | .done err _ => err.1

/-- Memory of the caller, which may not have been set yet. -/
abbrev Cells := Nat → UInt8

/-- `memcpy` of all of `b` to the front. -/
def Cells.write (d : Cells) (b : Bytes) : Cells := fun i => b.getD i (d i)

def Cells.read (d : Cells) (start n : Nat) : Bytes := (List.range n).map fun i => d (start + i)

def bulk_xfer (m : Met) (data : Cells) (len : Nat) (is_out : Bool) : Int × Cells :=
  match m with
  | .done err buf =>
    if is_out = false ∧ err.1 = 0 ∧ 0 < buf.length then (err.1, data.write (buf.take (min len buf.length)))
    else (err.1, data)
  | m => (m.ret, data)

/-- What the calls of `bulk_xfer` meet, how many there have been, and what they had to send. -/
structure Link where
  met : Nat → Met
  calls : Nat
  sent : List Bytes

def Link.spend (l : Link) (data : List Bytes) : Link := { l with calls := l.calls + 1, sent := l.sent ++ data }

def eink_t2000_usb_bulk_out (l : Link) (data : Bytes) : Int × Link :=
  ((bulk_xfer (l.met l.calls) (data.getD · 0) data.length true).1, l.spend [data])

def eink_t2000_usb_bulk_in (l : Link) (data : Cells) (len : Nat) : Int × Cells × Link :=
  let r := bulk_xfer (l.met l.calls) data len false
  (r.1, r.2, l.spend [])

theorem write_nil (d : Cells) : d.write [] = d := rfl

theorem write_of_lt {d : Cells} {b : Bytes} {i : Nat} (h : i < b.length) : d.write b i = b[i] := by
  rw [Cells.write, List.getD_eq_getElem _ _ h]

theorem write_of_ge {d : Cells} {b : Bytes} {i : Nat} (h : b.length ≤ i) : d.write b i = d i := by
  rw [Cells.write, List.getD_eq_default _ _ h]

theorem read_congr {d d' : Cells} {start n : Nat} (h : ∀ i < n, d (start + i) = d' (start + i)) :
    d.read start n = d'.read start n := by
  apply List.map_congr_left
  intro i hi
  exact h i (List.mem_range.1 hi)

theorem bulk_xfer_ret (m : Met) (data : Cells) (len : Nat) (is_out : Bool) :
    (bulk_xfer m data len is_out).1 = m.ret := by
  cases m with
  | done err buf =>
    rw [bulk_xfer]
    split <;> rfl
  | _ => rfl

/-- A call returns 0 on a completion without an error only. -/
theorem ret_eq_zero (m : Met) : m.ret = 0 ↔ m.ok = true := by
  cases m with
  | no_device => exact ⟨fun h => absurd h (by decide), fun h => by cases h⟩
  | no_xfer => exact ⟨fun h => absurd h (by decide), fun h => by cases h⟩
  | no_buf => exact ⟨fun h => absurd h (by decide), fun h => by cases h⟩
  | refused ret => exact ⟨fun h => absurd h (Int.ne_of_lt ret.2), fun h => by cases h⟩
  | timed_out => exact ⟨fun h => absurd h (by decide), fun h => by cases h⟩
  | done err buf => exact (beq_iff_eq (a := err.1) (b := 0)).symm

theorem ret_nonpos (m : Met) : m.ret ≤ 0 := by
  cases m with
  | refused ret => exact Int.le_of_lt ret.2
  | done err buf => exact err.2
  | _ => decide

theorem ret_neg {m : Met} (h : m.ok = false) : m.ret < 0 := by
  apply Int.lt_iff_le_and_ne.2
  refine ⟨ret_nonpos m, fun hret => ?_⟩
  rw [(ret_eq_zero m).1 hret] at h
  cases h

/-- Of an IN transfer without an error, the caller's memory holds what came, in front of what it held. -/
theorem bulk_xfer_in {m : Met} (h : m.ok = true) (data : Cells) (len : Nat) :
    bulk_xfer m data len false = (0, data.write (m.received.take len)) := by
  cases m with
  | done err buf =>
    rw [Met.ok, beq_iff_eq] at h
    rw [bulk_xfer, Met.received, h]
    split
    · rw [← List.take_eq_take_min]
    · next hempty =>
      obtain rfl : buf = [] := by
        rw [← List.length_eq_zero_iff]
        by_contra hne
        exact hempty ⟨rfl, rfl, by omega⟩
      rw [List.take_nil, write_nil]
  | _ => cases h

end T2000

end EinkNode
