import Mathlib.Data.Nat.ModEq
import Mathlib.Tactic.Common
/-!
# A ring buffer is a sliding window

A ring of `size` slots keeps the last `size` elements of all that was pushed.
The invariant names no wrap: element `j` of the stream stands in slot
`j % size` as long as it is one of the last `size`.
-/

namespace NodeLib

variable {α : Type}

/-- The slots, the next one to be written, and how many are in use. -/
structure RingBuffer (α : Type) where
  slots : Nat → α
  head : Nat
  len : Nat

namespace RingBuffer

def init (zero : α) : RingBuffer α := ⟨fun _ => zero, 0, 0⟩

def push (size : Nat) (r : RingBuffer α) (c : α) : RingBuffer α where
  slots i := if i = r.head then c else r.slots i
  head := (r.head + 1) % size
  len := if r.len < size then r.len + 1 else r.len

/-- The slot of the oldest element. -/
def start (size : Nat) (r : RingBuffer α) : Nat := if r.len < size then 0 else r.head

/-- The first `n` elements, the oldest one first. -/
def read (size n : Nat) (r : RingBuffer α) : List α := (List.range n).map fun i => r.slots ((r.start size + i) % size)

/-- The ring after the stream `s`. -/
structure Holds (size : Nat) (s : List α) (r : RingBuffer α) : Prop where
  len : r.len = min s.length size
  head : r.head = s.length % size
  slots : ∀ j c, s[j]? = some c → s.length ≤ j + size → r.slots (j % size) = c

variable {size : Nat} {s : List α} {r : RingBuffer α}

theorem holds_init (size : Nat) (zero : α) : Holds size [] (init zero) :=
  ⟨(Nat.zero_min size).symm, (Nat.zero_mod size).symm, nofun⟩

/-- A push moves the window by one. -/
theorem holds_push (h : Holds size s r) (c : α) : Holds size (s ++ [c]) (r.push size c) := by
  refine ⟨?_, ?_, ?_⟩
  · simp only [push, h.len, List.length_append, List.length_singleton]
    split <;> omega
  · simp only [push, h.head, List.length_append, List.length_singleton, Nat.mod_add_mod]
  · intro j d hj hwindow
    simp only [push, h.head, List.length_append, List.length_singleton] at hwindow ⊢
    have hlt := (List.getElem?_eq_some_iff.1 hj).1
    rw [List.length_append, List.length_singleton] at hlt
    rcases Nat.lt_or_eq_of_le (Nat.le_of_lt_succ hlt) with hlt | rfl
    · -- An element that stays is in another slot than the new one.
      have hne : j % size ≠ s.length % size := by
        intro heq
        have hdvd : size ∣ s.length - j := (Nat.modEq_iff_dvd' (Nat.le_of_lt hlt)).1 heq
        have := Nat.le_of_dvd (by omega) hdvd
        omega
      rw [if_neg hne]
      rw [List.getElem?_append_left hlt] at hj
      exact h.slots j d hj (by omega)
    · rw [if_pos rfl]
      rw [List.getElem?_concat_length] at hj
      exact Option.some.inj hj

theorem holds_foldl (h : Holds size s r) (cs : List α) :
    Holds size (s ++ cs) (cs.foldl (push size) r) := by
  induction cs generalizing s r with
  | nil => simpa using h
  | cons c cs ih => simpa using ih (holds_push h c)

/-- What is read is a part of the stream: the oldest `n` of its last `size` elements. -/
theorem read_eq (h : Holds size s r) {n : Nat} (hn : n ≤ r.len) :
    r.read size n = (s.drop (s.length - size)).take n := by
  have hlen := h.len
  refine List.ext_getElem? fun i => ?_
  by_cases hi : i < n
  · have hj : s.length - size + i < s.length := by omega
    have hslot : (r.start size + i) % size = (s.length - size + i) % size := by
      unfold start
      split
      · next hlt => rw [show s.length - size = 0 by omega]
      · next hge =>
        have hcongr : (s.length - size + i + size) % size = (s.length + i) % size := by
          congr 1
          omega
        rw [h.head, Nat.mod_add_mod, ← hcongr, Nat.add_mod_right]
    have helem := h.slots (s.length - size + i) s[s.length - size + i] (List.getElem?_eq_getElem hj) (by omega)
    rw [List.getElem?_take_of_lt hi, List.getElem?_drop, List.getElem?_eq_getElem hj, ← helem, ← hslot]
    simp [read, hi]
  · have hshort : ((s.drop (s.length - size)).take n).length ≤ i :=
      Nat.le_trans (List.length_take_le _ _) (Nat.le_of_not_lt hi)
    rw [List.getElem?_eq_none_iff.2 hshort]
    simp [read, Nat.le_of_not_lt hi]

end RingBuffer

end NodeLib
