import Mathlib.Data.Int.Order.Basic
import Mathlib.Data.List.Induction
import Mathlib.Data.Prod.Lex
import Mathlib.Order.Bounds.Basic
import Mathlib.Order.Defs.LinearOrder
import Mathlib.Tactic.Common
/-!
# The latest entry of a table

The loop `for i: if (ok(x) && (!found || key(x) >= best)) { best = key(x);
best_i = i; found = true; }` over a table `l`. It finds the largest key among
the entries that pass `ok`, and of those with that key the last one.

The loop `for t: if (best < 0 || t < best) best = t` over times finds the
earliest; there a negative number says that there is none yet.
-/

namespace NodeLib

variable {α κ : Type} [LinearOrder κ]

/-- One turn of the loop; `none` is `!found`. -/
def latestStep (ok : α → Bool) (key : α → κ) (acc : Option (κ × Nat)) (x : α × Nat) : Option (κ × Nat) :=
  if ok x.1 then
    match acc with
    | none => some (key x.1, x.2)
    | some (best, i) => if best ≤ key x.1 then some (key x.1, x.2) else some (best, i)
  else acc

/-- The best key and its index after the whole table. -/
def latest (ok : α → Bool) (key : α → κ) (l : List α) : Option (κ × Nat) :=
  l.zipIdx.foldl (latestStep ok key) none

/-- `i` is the index of the last entry with the largest key `k` among those that pass. -/
structure IsLatest (ok : α → Bool) (key : α → κ) (l : List α) (k : κ) (i : Nat) : Prop where
  here : ∃ x, l[i]? = some x ∧ ok x = true ∧ key x = k
  top : ∀ j y, l[j]? = some y → ok y = true → key y ≤ k ∧ (key y = k → j ≤ i)

variable {ok : α → Bool} {key : α → κ}

theorem latest_concat (l : List α) (x : α) :
    latest ok key (l ++ [x]) = latestStep ok key (latest ok key l) (x, l.length) := by
  simp [latest, List.zipIdx_append]

theorem getElem?_concat_eq_some {l : List α} {x y : α} {j : Nat} :
    (l ++ [x])[j]? = some y ↔ l[j]? = some y ∨ (j = l.length ∧ y = x) := by
  rcases Nat.lt_trichotomy j l.length with h | h | h
  · simp [List.getElem?_append_left h, Nat.ne_of_lt h]
  · subst h; simp [eq_comm]
  · have h1 : (l ++ [x])[j]? = none := List.getElem?_eq_none_iff.2 (by rw [List.length_append]; simp; omega)
    simp [h1, Nat.ne_of_gt h, List.getElem?_eq_none_iff.2 (Nat.le_of_lt h)]

/-- What the loop has found: the latest entry, or nothing because no entry passes. -/
theorem latest_spec (ok : α → Bool) (key : α → κ) (l : List α) :
    (latest ok key l = none ∧ ∀ y ∈ l, ok y = false) ∨
      ∃ k i, latest ok key l = some (k, i) ∧ IsLatest ok key l k i := by
  induction l using List.reverseRecOn with
  | nil => exact .inl ⟨rfl, by simp⟩
  | append_singleton l x ih =>
    rw [latest_concat]
    cases hx : ok x with
    | false =>
      simp only [latestStep, hx, Bool.false_eq_true, if_false]
      rcases ih with ⟨hn, hall⟩ | ⟨k, i, hs, ⟨z, hz, hok, hk⟩, htop⟩
      · refine .inl ⟨hn, fun y hy => ?_⟩
        rcases List.mem_append.1 hy with hy | hy
        · exact hall y hy
        · rw [List.mem_singleton.1 hy, hx]
      · refine .inr ⟨k, i, hs, ⟨z, getElem?_concat_eq_some.2 (.inl hz), hok, hk⟩, fun j y hj hy => ?_⟩
        rcases getElem?_concat_eq_some.1 hj with hj | ⟨-, rfl⟩
        · exact htop j y hj hy
        · simp [hx] at hy
    | true =>
      right
      simp only [latestStep, hx, if_true]
      rcases ih with ⟨hn, hall⟩ | ⟨k, i, hs, hl⟩
      · rw [hn]
        refine ⟨_, _, rfl, ⟨x, by simp, hx, rfl⟩, fun j y hj hy => ?_⟩
        rcases getElem?_concat_eq_some.1 hj with hj | ⟨rfl, rfl⟩
        · simp [hall y (List.mem_of_getElem? hj)] at hy
        · exact ⟨le_refl _, fun _ => Nat.le_refl _⟩
      · rw [hs]
        obtain ⟨z, hz, hok, hk⟩ := hl.here
        by_cases hle : k ≤ key x
        · simp only [hle, if_true]
          refine ⟨_, _, rfl, ⟨x, by simp, hx, rfl⟩, fun j y hj hy => ?_⟩
          rcases getElem?_concat_eq_some.1 hj with hj | ⟨rfl, rfl⟩
          · exact ⟨le_trans (hl.top j y hj hy).1 hle, fun _ => Nat.le_of_lt (List.getElem?_eq_some_iff.1 hj).1⟩
          · exact ⟨le_refl _, fun _ => Nat.le_refl _⟩
        · simp only [hle, if_false]
          refine ⟨_, _, rfl, ⟨z, getElem?_concat_eq_some.2 (.inl hz), hok, hk⟩, fun j y hj hy => ?_⟩
          rcases getElem?_concat_eq_some.1 hj with hj | ⟨rfl, rfl⟩
          · exact hl.top j y hj hy
          · exact ⟨le_of_lt (not_le.1 hle), fun he => absurd (le_of_eq he.symm) hle⟩

theorem isLatest_of_latest {l : List α} {k : κ} {i : Nat} (h : latest ok key l = some (k, i)) :
    IsLatest ok key l k i := by
  rcases latest_spec ok key l with ⟨hn, -⟩ | ⟨k', i', hs, hl⟩
  · rw [hn] at h; cases h
  · rw [hs] at h; cases h; exact hl

theorem latest_eq_none {l : List α} : latest ok key l = none ↔ ∀ y ∈ l, ok y = false := by
  rcases latest_spec ok key l with ⟨hn, hall⟩ | ⟨k, i, hs, ⟨x, hx, hok, -⟩, -⟩
  · simp only [hn, true_iff]; exact hall
  · rw [hs]
    refine ⟨nofun, fun h => ?_⟩
    simp [h x (List.mem_of_getElem? hx)] at hok

/-- Key and index are the largest in lexicographic order. -/
theorem IsLatest.le {l : List α} {k : κ} {i : Nat} (h : IsLatest ok key l k i) {j : Nat} {y : α} (hj : l[j]? = some y)
    (hy : ok y = true) : toLex (key y, j) ≤ toLex (k, i) := by
  obtain ⟨hle, heq⟩ := h.top j y hj hy
  rw [Prod.Lex.toLex_le_toLex]
  rcases lt_or_eq_of_le hle with hlt | hkey
  · exact .inl hlt
  · exact .inr ⟨hkey, heq hkey⟩

/-- What passes besides can only come later. -/
theorem latest_mono {ok' : α → Bool} {l : List α} {p : κ × Nat} (hok : ∀ x, ok x = true → ok' x = true)
    (h : latest ok key l = some p) : ∃ q, latest ok' key l = some q ∧ toLex p ≤ toLex q := by
  obtain ⟨⟨x, hx, hpass, hkey⟩, -⟩ := isLatest_of_latest h
  rcases latest_spec ok' key l with ⟨-, hall⟩ | ⟨k, i, hq, hl⟩
  · exact absurd (hok x hpass) (by simp [hall x (List.mem_of_getElem? hx)])
  · refine ⟨(k, i), hq, ?_⟩
    have hle := hl.le hx (hok x hpass)
    rwa [hkey] at hle

/-! ## The earliest time -/

def earliest (best : Int) (ts : List Int) : Int := ts.foldl (fun best t => if best < 0 ∨ t < best then t else best) best

/-- From a time on, the loop finds the earliest of this and the others. -/
theorem isLeast_earliest {best : Int} {ts : List Int} (hbest : 0 ≤ best) (hts : ∀ t ∈ ts, 0 ≤ t) :
    IsLeast {t | t = best ∨ t ∈ ts} (earliest best ts) := by
  induction ts generalizing best with
  | nil => exact ⟨.inl rfl, by rintro t (rfl | ht); exacts [le_refl _, nomatch ht]⟩
  | cons t ts ih =>
    obtain ⟨ht, hts⟩ := List.forall_mem_cons.1 hts
    have hstep : earliest best (t :: ts) = earliest (if best < 0 ∨ t < best then t else best) ts := rfl
    rw [hstep]
    by_cases hlt : t < best
    · obtain ⟨hmem, hle⟩ := ih ht hts
      rw [if_pos (.inr hlt)]
      refine ⟨.inr (List.mem_cons.2 hmem), ?_⟩
      rintro u (rfl | hu)
      · exact le_trans (hle (.inl rfl)) (le_of_lt hlt)
      · exact hle (List.mem_cons.1 hu)
    · obtain ⟨hmem, hle⟩ := ih hbest hts
      rw [if_neg (by omega)]
      refine ⟨hmem.imp_right (List.mem_cons_of_mem _), ?_⟩
      rintro u (rfl | hu)
      · exact hle (.inl rfl)
      · rcases List.mem_cons.1 hu with rfl | hu
        · exact le_trans (hle (.inl rfl)) (not_lt.1 hlt)
        · exact hle (.inr hu)

/-- With no time yet, the loop finds the earliest of the table. -/
theorem earliest_cases {ts : List Int} (hts : ∀ t ∈ ts, 0 ≤ t) :
    ts = [] ∧ earliest (-1) ts = -1 ∨ IsLeast {t | t ∈ ts} (earliest (-1) ts) := by
  cases ts with
  | nil => exact .inl ⟨rfl, rfl⟩
  | cons t ts =>
    obtain ⟨ht, hts⟩ := List.forall_mem_cons.1 hts
    have hset : {u | u ∈ t :: ts} = {u | u = t ∨ u ∈ ts} := by
      ext u
      exact List.mem_cons
    right
    rw [hset]
    exact isLeast_earliest ht hts

end NodeLib
