import Mathlib.Data.List.Nodup
import Mathlib.Data.List.Perm.Basic
import Mathlib.Tactic.Common
/-!
# Loops that fill an array

The assignments `a[i] = v` that a loop makes, as a list in their order. Where
no index comes twice, each cell holds at the end what the one assignment to it
gave, and the indices are those of the array when each of them comes.
-/

namespace NodeLib

variable {α β : Type}

/-- The array after the assignments; one beyond its end has no effect here. -/
def writeAll (a : List α) (writes : List (Nat × α)) : List α := writes.foldl (fun a w => a.set w.1 w.2) a

@[simp] theorem writeAll_nil (a : List α) : writeAll a [] = a := rfl

@[simp] theorem writeAll_cons (a : List α) (w : Nat × α) (writes : List (Nat × α)) :
    writeAll a (w :: writes) = writeAll (a.set w.1 w.2) writes := rfl

@[simp] theorem length_writeAll (a : List α) (writes : List (Nat × α)) :
    (writeAll a writes).length = a.length := by
  induction writes generalizing a with
  | nil => rfl
  | cons w writes ih => rw [writeAll_cons, ih, List.length_set]

/-- A cell that no assignment names keeps its value. -/
theorem writeAll_of_notMem {writes : List (Nat × α)} {i : Nat} (h : i ∉ writes.map Prod.fst) (a : List α) :
    (writeAll a writes)[i]? = a[i]? := by
  induction writes generalizing a with
  | nil => rfl
  | cons w writes ih =>
    rw [List.map_cons, List.mem_cons, not_or] at h
    rw [writeAll_cons, ih h.2, List.getElem?_set_ne (Ne.symm h.1)]

/-- A cell that one assignment names holds its value. -/
theorem writeAll_of_mem {writes : List (Nat × α)} (hnodup : (writes.map Prod.fst).Nodup) {i : Nat} {v : α}
    (h : (i, v) ∈ writes) {a : List α} (hi : i < a.length) : (writeAll a writes)[i]? = some v := by
  induction writes generalizing a with
  | nil => cases h
  | cons w writes ih =>
    rw [List.map_cons, List.nodup_cons] at hnodup
    rw [writeAll_cons]
    rcases List.mem_cons.1 h with rfl | h
    · rw [writeAll_of_notMem hnodup.1, List.getElem?_set_self hi]
    · exact ih hnodup.2 h (by rwa [List.length_set])

/-- A loop in a loop repeats nothing when no two turns of the outer one meet. -/
theorem nodup_flatMap_of_disjoint {l : List α} {f : α → List β} (hl : l.Nodup) (hf : ∀ x ∈ l, (f x).Nodup)
    (hmeet : ∀ x ∈ l, ∀ y ∈ l, ∀ k, k ∈ f x → k ∈ f y → x = y) : (l.flatMap f).Nodup := by
  apply List.nodup_flatMap.2
  refine ⟨hf, List.Nodup.pairwise_of_forall_ne hl fun x hx y hy hne => ?_⟩
  intro k hkx hky
  exact hne (hmeet x hx y hy k hkx hky)

/-- The indices are those of an array of `n` cells, each one once. -/
theorem perm_range_of_nodup {l : List Nat} {n : Nat} (hnodup : l.Nodup) (hmem : ∀ i, i ∈ l ↔ i < n) :
    l.Perm (List.range n) := by
  apply (List.perm_ext_iff_of_nodup hnodup List.nodup_range).2
  intro i
  rw [hmem, List.mem_range]

end NodeLib
