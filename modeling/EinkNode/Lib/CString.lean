import Mathlib.Algebra.Group.Int.Defs
import Mathlib.Algebra.Group.Nat.Defs
import Mathlib.Data.List.TakeWhile
import Mathlib.Tactic.Common
/-!
# C strings

A string of the program is the list of its bytes, without the terminator. A
`char[cap]` array that always holds a terminated string is a `CStr cap`: its
fields say that there is no NUL inside and that the terminator fits, so a
truncating copy is a total function and later proofs never re-check bounds.
-/

namespace NodeLib

abbrev Bytes := List UInt8

/-- The bytes of an ASCII literal. -/
def ascii (s : String) : Bytes := s.toList.map fun c => UInt8.ofNat c.toNat

/-- What is left of a byte buffer when it is read as a C string. -/
def cstring (s : Bytes) : Bytes := s.takeWhile (· ≠ 0)

theorem zero_notMem_cstring (s : Bytes) : (0 : UInt8) ∉ cstring s := by
  intro h
  simpa using List.mem_takeWhile_imp h

/-- Up to the first `q`, in the form that `takeWhile` and `dropWhile` ask for. -/
theorem ne_of_notMem {s : Bytes} {q : UInt8} (h : q ∉ s) : ∀ c ∈ s, decide (c ≠ q) = true := by
  intro c hc
  apply decide_eq_true
  rintro rfl
  exact h hc

theorem cstring_of_notMem {s : Bytes} (h : (0 : UInt8) ∉ s) : cstring s = s :=
  List.takeWhile_eq_self_iff.2 (ne_of_notMem h)

theorem cstring_append {s : Bytes} (h : (0 : UInt8) ∉ s) (t : Bytes) : cstring (s ++ t) = s ++ cstring t :=
  List.takeWhile_append_of_pos (ne_of_notMem h)

/-- What ends in the part that was kept ends there in the whole. -/
theorem takeWhile_take_of_lt {α : Type} {q : α → Bool} {n : Nat} {l : List α}
    (h : ((l.take n).takeWhile q).length < n) : (l.take n).takeWhile q = l.takeWhile q := by
  induction l generalizing n with
  | nil => simp
  | cons a l ih =>
    cases n with
    | zero => simp at h
    | succ n =>
      rw [List.take_succ_cons, List.takeWhile_cons, List.takeWhile_cons] at *
      split
      · next hq =>
        rw [if_pos hq, List.length_cons] at h
        rw [ih (by omega)]
      · rfl

/-- The text from the first place on where `key` stands in it. -/
def strstr (s key : Bytes) : Option Bytes :=
  if key.isPrefixOf s then some s
  else match s with
    | [] => none
    | _ :: s => strstr s key

/-- The text from the first `c` on. -/
def strchr (s : Bytes) (c : UInt8) : Option Bytes :=
  match s.dropWhile (· ≠ c) with
  | [] => none
  | p => some p

theorem strstr_self (key rest : Bytes) : strstr (key ++ rest) key = some (key ++ rest) := by
  unfold strstr
  simp

/-- `snprintf` into an array of `cap` bytes: what does not fit is cut off. -/
def snprintf (cap : Nat) (s : Bytes) : Bytes := s.take (cap - 1)

/-- The string in a `char[cap]` array. -/
structure CStr (cap : Nat) where
  val : Bytes
  fits : val.length ≤ cap - 1
  noNul : (0 : UInt8) ∉ val
deriving DecidableEq

namespace CStr

/-- `strncpy(dst, src, cap - 1)` into a zeroed array. -/
def copy (cap : Nat) (s : Bytes) : CStr cap where
  val := (cstring s).take (cap - 1)
  fits := List.length_take_le (cap - 1) (cstring s)
  noNul := fun hc => zero_notMem_cstring s (List.mem_of_mem_take hc)

/-- The empty string, as left by zeroing the array. -/
def empty (cap : Nat) : CStr cap := ⟨[], Nat.zero_le _, List.not_mem_nil⟩

@[ext]
theorem ext {cap : Nat} {a b : CStr cap} (h : a.val = b.val) : a = b := by
  cases a; cases b; cases h; rfl

@[simp] theorem val_empty (cap : Nat) : (empty cap).val = [] := rfl

theorem val_copy (cap : Nat) (s : Bytes) : (copy cap s).val = (cstring s).take (cap - 1) := rfl

/-- Copying between arrays of the same size loses nothing. -/
@[simp]
theorem copy_val {cap : Nat} (s : CStr cap) : copy cap s.val = s := by
  ext1
  rw [val_copy, cstring_of_notMem s.noNul, List.take_of_length_le s.fits]

end CStr

end NodeLib
