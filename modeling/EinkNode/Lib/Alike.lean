import EinkNode.Lib.Wp
/-!
# Two programs side by side

`Alike R m n` says that `m` and `n`, each over a state of its own, end in one
result and in states that `R` relates, if they were started in such states: the
one can be put where the other stands.
-/

namespace NodeLib

variable {σ τ α β : Type} {R : σ → τ → Prop}

/-- From related states `m` and `n` have one result, and leave related states. -/
def Alike (R : σ → τ → Prop) (m : StateM σ α) (n : StateM τ α) : Prop :=
  ∀ s t, R s t → (m s).1 = (n t).1 ∧ R (m s).2 (n t).2

theorem Alike.result {m : StateM σ α} {n : StateM τ α} (h : Alike R m n) {s : σ} {t : τ} (hst : R s t) :
    (m s).1 = (n t).1 := (h s t hst).1

theorem Alike.related {m : StateM σ α} {n : StateM τ α} (h : Alike R m n) {s : σ} {t : τ} (hst : R s t) :
    R (m s).2 (n t).2 := (h s t hst).2

/-- What `m` does, `n` does too. -/
theorem Alike.follow {m : StateM σ α} {n : StateM τ α} (h : Alike R m n) {s s' : σ} {t : τ} {a : α} (hst : R s t)
    (hm : m s = (a, s')) : ∃ t', n t = (a, t') ∧ R s' t' := by
  obtain ⟨heq, hrel⟩ := h s t hst
  rw [hm] at heq hrel
  exact ⟨(n t).2, Prod.ext heq.symm rfl, hrel⟩

theorem alike_pure (a : α) : Alike R (pure a : StateM σ α) (pure a) := fun _ _ h => ⟨rfl, h⟩

theorem alike_bind {m : StateM σ α} {n : StateM τ α} {f : α → StateM σ β} {g : α → StateM τ β} (hm : Alike R m n)
    (hf : ∀ a, Alike R (f a) (g a)) : Alike R (m >>= f) (n >>= g) := by
  intro s t h
  obtain ⟨heq, hrel⟩ := hm s t h
  rw [bind_app, bind_app, ← heq]
  exact hf (m s).1 _ _ hrel

theorem alike_ite {c : Prop} [Decidable c] {m m' : StateM σ α} {n n' : StateM τ α} (ht : Alike R m n)
    (hf : Alike R m' n') : Alike R (if c then m else m') (if c then n else n') := by
  split
  · exact ht
  · exact hf

/-! ## A part that both have -/

variable {δ : Type}

/-- Next to a part that is one and the same, the rest is related. -/
def Beside (R : σ → τ → Prop) (s : δ × σ) (t : δ × τ) : Prop := s.1 = t.1 ∧ R s.2 t.2

theorem beside_mk {d : δ} {s : σ} {t : τ} (h : R s t) : Beside R (d, s) (d, t) := ⟨rfl, h⟩

end NodeLib
