import Mathlib.Order.Defs.Unbundled
import Mathlib.Tactic.Common
/-!
# Weakest preconditions of state programs

A program over a state `σ` is a term of `StateM σ`. `wp m Q s` says that `m`
started in `s` ends in a result and a state that satisfy `Q`; there is no other
way for it to end. `Keeps R m` says that `m` moves the state only along a
preorder `R`: what it leaves alone, or lets only grow.
-/

namespace NodeLib

variable {σ α β : Type}

/-- `m` started in `s` ends in `Q`. -/
def wp (m : StateM σ α) (Q : α → σ → Prop) (s : σ) : Prop := Q (m s).1 (m s).2

@[simp] theorem pure_app (a : α) (s : σ) : (pure a : StateM σ α) s = (a, s) := rfl

@[simp] theorem bind_app (m : StateM σ α) (f : α → StateM σ β) (s : σ) : (m >>= f) s = f (m s).1 (m s).2 := rfl

@[simp] theorem map_app (m : StateM σ α) (f : α → β) (s : σ) : (f <$> m) s = (f (m s).1, (m s).2) := rfl

theorem wp_iff {m : StateM σ α} {Q : α → σ → Prop} {s : σ} : wp m Q s ↔ Q (m s).1 (m s).2 := Iff.rfl

@[simp] theorem wp_pure (a : α) (Q : α → σ → Prop) (s : σ) : wp (pure a) Q s ↔ Q a s := Iff.rfl

@[simp]
theorem wp_bind (m : StateM σ α) (f : α → StateM σ β) (Q : β → σ → Prop) (s : σ) :
    wp (m >>= f) Q s ↔ wp m (fun a s' => wp (f a) Q s') s := Iff.rfl

@[simp]
theorem wp_map (m : StateM σ α) (f : α → β) (Q : β → σ → Prop) (s : σ) :
    wp (f <$> m) Q s ↔ wp m (fun a s' => Q (f a) s') s := Iff.rfl

theorem wp_ite {c : Prop} [Decidable c] {m n : StateM σ α} {Q : α → σ → Prop} {s : σ}
    (ht : c → wp m Q s) (hf : ¬ c → wp n Q s) : wp (if c then m else n) Q s := by
  split
  · next h => exact ht h
  · next h => exact hf h

/-! ## Results -/

/-- Every result of `m` satisfies `Q`. -/
def Always (Q : α → Prop) (m : StateM σ α) : Prop := ∀ s, Q (m s).1

theorem always_pure {Q : α → Prop} {a : α} (h : Q a) : Always Q (pure a : StateM σ α) := fun _ => h

theorem always_bind {P : α → Prop} {Q : β → Prop} {m : StateM σ α} {f : α → StateM σ β} (hm : Always P m)
    (hf : ∀ a, P a → Always Q (f a)) : Always Q (m >>= f) := fun s => hf _ (hm s) _

/-- When nothing is known of the first result. -/
theorem always_then {Q : β → Prop} {m : StateM σ α} {f : α → StateM σ β} (hf : ∀ a, Always Q (f a)) :
    Always Q (m >>= f) := fun _ => hf _ _

theorem always_ite {Q : α → Prop} {c : Prop} [Decidable c] {m n : StateM σ α} (ht : c → Always Q m)
    (hf : ¬ c → Always Q n) : Always Q (if c then m else n) := by
  split
  · next h => exact ht h
  · next h => exact hf h

/-! ## Preconditions and postconditions -/

/-- From every state with `P`, `m` ends in `Q`. -/
def Ensures (P : σ → Prop) (m : StateM σ α) (Q : α → σ → Prop) : Prop := ∀ s, P s → wp m Q s

theorem ensures_pure {P : σ → Prop} {Q : α → σ → Prop} {a : α} (h : ∀ s, P s → Q a s) :
    Ensures P (pure a : StateM σ α) Q := h

theorem ensures_bind {P : σ → Prop} {Q : α → σ → Prop} {R : β → σ → Prop} {m : StateM σ α} {f : α → StateM σ β}
    (hm : Ensures P m Q) (hf : ∀ a, Ensures (Q a) (f a) R) : Ensures P (m >>= f) R :=
  fun s hs => hf _ _ (hm s hs)

theorem Ensures.imp {P P' : σ → Prop} {Q Q' : α → σ → Prop} {m : StateM σ α} (h : Ensures P m Q)
    (hP : ∀ s, P' s → P s) (hQ : ∀ a s, Q a s → Q' a s) : Ensures P' m Q' :=
  fun s hs => hQ _ _ (h s (hP s hs))

theorem ensures_ite {P : σ → Prop} {Q : α → σ → Prop} {c : Prop} [Decidable c] {m n : StateM σ α}
    (ht : c → Ensures P m Q) (hf : ¬ c → Ensures P n Q) : Ensures P (if c then m else n) Q := by
  split
  · next h => exact ht h
  · next h => exact hf h

/-! ## Moving along a preorder -/

/-- `m` takes every state to one above it. -/
def Keeps (R : σ → σ → Prop) (m : StateM σ α) : Prop := ∀ s, R s (m s).2

variable {R : σ → σ → Prop}

theorem Keeps.wp {m : StateM σ α} (h : Keeps R m) (s : σ) : wp m (fun _ s' => R s s') s := h s

theorem keeps_pure [IsPreorder σ R] (a : α) : Keeps R (pure a : StateM σ α) := fun s => refl_of R s

theorem keeps_bind [IsPreorder σ R] {m : StateM σ α} {f : α → StateM σ β} (hm : Keeps R m)
    (hf : ∀ a, Keeps R (f a)) : Keeps R (m >>= f) := fun s => trans_of R (hm s) (hf _ _)

/-- When something is known of the first result. -/
theorem keeps_bind_of_always [IsPreorder σ R] {P : α → Prop} {m : StateM σ α} {f : α → StateM σ β} (hP : Always P m)
    (hm : Keeps R m) (hf : ∀ a, P a → Keeps R (f a)) : Keeps R (m >>= f) :=
  fun s => trans_of R (hm s) (hf _ (hP s) _)

theorem keeps_ite {c : Prop} [Decidable c] {m n : StateM σ α} (ht : Keeps R m) (hf : Keeps R n) :
    Keeps R (if c then m else n) := by
  split
  · exact ht
  · exact hf

theorem keeps_forM [IsPreorder σ R] {l : List α} {f : α → StateM σ PUnit} (hf : ∀ a ∈ l, Keeps R (f a)) :
    Keeps R (l.forM f) := by
  induction l with
  | nil => exact keeps_pure _
  | cons a l ih =>
    exact keeps_bind (hf a (by simp)) fun _ => ih fun b hb => hf b (by simp [hb])

theorem Keeps.mono {R' : σ → σ → Prop} {m : StateM σ α} (h : Keeps R m) (hR : ∀ s s', R s s' → R' s s') :
    Keeps R' m := fun s => hR _ _ (h s)

/-- A part of the state that moves along a preorder. -/
instance isPreorder_invImage {τ : Type} (f : τ → σ) [IsPreorder σ R] : IsPreorder τ (InvImage R f) where
  refl s := refl_of R (f s)
  trans _ _ _ h h' := trans_of R h h'

end NodeLib
