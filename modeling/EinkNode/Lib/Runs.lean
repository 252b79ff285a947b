import Mathlib.Tactic.Common
/-!
# Runs of events

A machine that takes events one at a time is a function `step`. A run is the
list of its events; `run step s es` is the state after them.
-/

namespace NodeLib

variable {σ ε : Type*} (step : σ → ε → σ)

def run (s : σ) (es : List ε) : σ := es.foldl step s

@[simp] theorem run_nil (s : σ) : run step s [] = s := rfl

@[simp] theorem run_cons (s : σ) (e : ε) (es : List ε) : run step s (e :: es) = run step (step s e) es := rfl

theorem run_append (s : σ) (es es' : List ε) : run step s (es ++ es') = run step (run step s es) es' :=
  List.foldl_append

theorem run_concat (s : σ) (es : List ε) (e : ε) : run step s (es ++ [e]) = step (run step s es) e :=
  run_append step s es [e]

/-- Every event of the run meets `C` in the state that it finds. -/
def Meets (C : σ → ε → Prop) : σ → List ε → Prop
  | _, [] => True
  | s, e :: es => C s e ∧ Meets C (step s e) es

/-- Every two consecutive events meet `P` in the state that the first one finds. -/
def MeetsPairs (P : σ → ε → ε → Prop) : σ → List ε → Prop
  | s, e :: e' :: es => P s e e' ∧ MeetsPairs P (step s e) (e' :: es)
  | _, _ => True

instance {C : σ → ε → Prop} [∀ s e, Decidable (C s e)] : ∀ (s : σ) (es : List ε), Decidable (Meets step C s es)
  | _, [] => inferInstanceAs (Decidable True)
  | s, e :: es =>
    have := instDecidableMeets (C := C) (step s e) es
    inferInstanceAs (Decidable (_ ∧ _))

instance {P : σ → ε → ε → Prop} [∀ s e e', Decidable (P s e e')] :
    ∀ (s : σ) (es : List ε), Decidable (MeetsPairs step P s es)
  | _, [] => inferInstanceAs (Decidable True)
  | _, [_] => inferInstanceAs (Decidable True)
  | s, e :: e' :: es =>
    have := instDecidableMeetsPairs (P := P) (step s e) (e' :: es)
    inferInstanceAs (Decidable (_ ∧ _))

variable {step}

theorem meetsPairs_congr {C : σ → ε → Prop} {P Q : σ → ε → ε → Prop} {s : σ} {es : List ε} (hm : Meets step C s es)
    (h : ∀ s e e', C s e → (P s e e' ↔ Q s e e')) : MeetsPairs step P s es ↔ MeetsPairs step Q s es := by
  induction es generalizing s with
  | nil => exact Iff.rfl
  | cons e es ih =>
    cases es with
    | nil => exact Iff.rfl
    | cons e' es => exact and_congr (h s e e' hm.1) (ih hm.2)

/-- What every event of a run keeps holds after the run. -/
theorem run_inv (I : σ → Prop) {s : σ} {es : List ε} (h0 : I s)
    (hs : ∀ s e, e ∈ es → I s → I (step s e)) : I (run step s es) := by
  induction es generalizing s with
  | nil => exact h0
  | cons e es ih =>
    exact ih (hs s e (by simp) h0) (fun s e' he => hs s e' (by simp [he]))

theorem Meets.of_append {C : σ → ε → Prop} {s : σ} {es es' : List ε} (h : Meets step C s (es ++ es')) :
    Meets step C s es := by
  induction es generalizing s with
  | nil => trivial
  | cons e es ih => exact ⟨h.1, ih h.2⟩

theorem Meets.of_concat {C : σ → ε → Prop} {s : σ} {es : List ε} {e : ε} (h : Meets step C s (es ++ [e])) :
    C (run step s es) e := by
  induction es generalizing s with
  | nil => exact h.1
  | cons e' es ih => exact ih h.2

theorem Meets.concat {C : σ → ε → Prop} {s : σ} {es : List ε} {e : ε} (h : Meets step C s es)
    (he : C (run step s es) e) : Meets step C s (es ++ [e]) := by
  induction es generalizing s with
  | nil => exact ⟨he, trivial⟩
  | cons e' es ih => exact ⟨h.1, ih h.2 he⟩

/-- What every event keeps that meets `C` holds after a run that meets `C`. -/
theorem run_inv_of_meets {C : σ → ε → Prop} (I : σ → Prop) {s : σ} {es : List ε} (h0 : I s) (hm : Meets step C s es)
    (hs : ∀ s e, e ∈ es → C s e → I s → I (step s e)) : I (run step s es) := by
  induction es generalizing s with
  | nil => exact h0
  | cons e es ih =>
    exact ih (hs s e (by simp) hm.1 h0) hm.2 fun s e' he => hs s e' (by simp [he])

theorem Meets.and {C D : σ → ε → Prop} {s : σ} {es : List ε} (hC : Meets step C s es) (hD : Meets step D s es) :
    Meets step (fun s e => C s e ∧ D s e) s es := by
  induction es generalizing s with
  | nil => trivial
  | cons e es ih => exact ⟨⟨hC.1, hD.1⟩, ih hC.2 hD.2⟩

/-- What an invariant of every event gives, all events of a run have. -/
theorem meets_of_invariant {P : σ → ε → Prop} (I : σ → Prop) {s : σ} {es : List ε} (h0 : I s)
    (hs : ∀ s e, I s → I (step s e)) (hP : ∀ s e, I s → P s e) : Meets step P s es := by
  induction es generalizing s with
  | nil => trivial
  | cons e es ih => exact ⟨hP s e h0, ih (hs s e h0)⟩

/-- What an invariant gives at an event that meets `C`, all events of such a run have. -/
theorem meets_of_inv {C P : σ → ε → Prop} (I : σ → Prop) {s : σ} {es : List ε} (h0 : I s) (hm : Meets step C s es)
    (hs : ∀ s e, C s e → I s → I (step s e)) (hP : ∀ s e, C s e → I s → P s e) : Meets step P s es := by
  induction es generalizing s with
  | nil => trivial
  | cons e es ih => exact ⟨hP s e hm.1 h0, ih (hs s e hm.1 h0) hm.2⟩

/-- Two conditions that agree on the events of a run. -/
theorem meets_congr {C P Q : σ → ε → Prop} {s : σ} {es : List ε} (hm : Meets step C s es)
    (h : ∀ s e, C s e → (P s e ↔ Q s e)) : Meets step P s es ↔ Meets step Q s es := by
  induction es generalizing s with
  | nil => exact Iff.rfl
  | cons e es ih => exact and_congr (h s e hm.1) (ih hm.2)

/-- Where an event keeps `P` if and only if it meets `C`, `P` holds along a run if and only if all events meet `C`. -/
theorem forall_take_iff_meets {C : σ → ε → Prop} {P : σ → Prop} (I : σ → Prop) {s : σ} {es : List ε} (h0 : I s)
    (hP0 : P s) (hs : ∀ s e, I s → I (step s e)) (hP : ∀ s e, I s → P s → (P (step s e) ↔ C s e)) :
    (∀ n, P (run step s (es.take n))) ↔ Meets step C s es := by
  induction es generalizing s with
  | nil => exact ⟨fun _ => trivial, fun _ n => by simpa using hP0⟩
  | cons e es ih =>
    constructor
    · intro h
      have h1 : P (step s e) := h 1
      exact ⟨(hP s e h0 hP0).1 h1, (ih (hs s e h0) h1).1 fun n => h (n + 1)⟩
    · rintro ⟨hC, hm⟩ n
      cases n with
      | zero => exact hP0
      | succ n =>
        have h1 := (hP s e h0 hP0).2 hC
        exact (ih (hs s e h0) h1).2 hm n

end NodeLib
