import Mathlib.Data.List.Infix
import Mathlib.Tactic.Common
/-!
# Calls up to the first error

A call over a state `σ` returns a number, and 0 means that it went well. The
program makes one call after the other and returns the first number that is not
0. `Tells log words` says what such a program leaves in a log: its words if it
returns 0, and the first of them if it does not.
-/

namespace NodeLib

variable {σ β : Type}

/-- `if (ret) return ret;` after a call, and what comes then. -/
def orReturn (r : Int × σ) (next : σ → Int × σ) : Int × σ := if r.1 ≠ 0 then r else next r.2

theorem orReturn_of_zero {r : Int × σ} (h : r.1 = 0) (next : σ → Int × σ) : orReturn r next = next r.2 :=
  if_neg (not_not.2 h)

theorem orReturn_of_ne {r : Int × σ} (h : r.1 ≠ 0) (next : σ → Int × σ) : orReturn r next = r := if_pos h

/-! ## What is left in a log -/

/-- A call from `s` with the end `r` adds `words` to the log, or the first of them if it returns an error. -/
def Tells (log : σ → List β) (words : List β) (s : σ) (r : Int × σ) : Prop :=
  ∃ part, log r.2 = log s ++ part ∧ part <+: words ∧ (r.1 = 0 → part = words)

variable {log : σ → List β} {words : List β} {s : σ} {r : Int × σ}

theorem tells_nil (h : log r.2 = log s) : Tells log [] s r :=
  ⟨[], by rw [h, List.append_nil], List.nil_prefix, fun _ => rfl⟩

theorem tells_all (h : log r.2 = log s ++ words) : Tells log words s r :=
  ⟨words, h, List.prefix_refl _, fun _ => rfl⟩

/-- An error before anything was said. -/
theorem tells_silent (h : log r.2 = log s) (hr : r.1 ≠ 0) : Tells log words s r :=
  ⟨[], by rw [h, List.append_nil], List.nil_prefix, fun h0 => absurd h0 hr⟩

theorem Tells.orReturn {words' : List β} {next : σ → Int × σ} (hm : Tells log words s r)
    (hnext : r.1 = 0 → Tells log words' r.2 (next r.2)) : Tells log (words ++ words') s (orReturn r next) := by
  obtain ⟨part, hlog, hpart, hall⟩ := hm
  by_cases h : r.1 = 0
  · obtain ⟨part', hlog', hpart', hall'⟩ := hnext h
    rw [orReturn_of_zero h]
    refine ⟨words ++ part', by rw [hlog', hlog, hall h, List.append_assoc], ?_, fun h' => by rw [hall' h']⟩
    exact (List.prefix_append_right_inj words).2 hpart'
  · rw [orReturn_of_ne h]
    exact ⟨part, hlog, hpart.trans (List.prefix_append _ _), fun h' => absurd h' h⟩

/-! ## What went through -/

/-- Tries are numbered, and `ok` says which of them go well. From `s` to the end `r`, all of them did but perhaps
the last, and that one too if 0 is returned. -/
def Through (ok : Nat → Bool) (tries : σ → Nat) (s : σ) (r : Int × σ) : Prop :=
  tries s ≤ tries r.2 ∧ ∀ c, tries s ≤ c → c < tries r.2 → ok c = true ∨ (r.1 ≠ 0 ∧ c + 1 = tries r.2)

variable {ok : Nat → Bool} {tries : σ → Nat}

theorem through_none (h : tries r.2 = tries s) : Through ok tries s r :=
  ⟨Nat.le_of_eq h.symm, fun c hc hc' => absurd hc' (by omega)⟩

theorem through_one (h : tries r.2 = tries s + 1) (hok : r.1 = 0 → ok (tries s) = true) : Through ok tries s r := by
  refine ⟨by omega, fun c hc hc' => ?_⟩
  obtain rfl : c = tries s := by omega
  by_cases hr : r.1 = 0
  · exact .inl (hok hr)
  · exact .inr ⟨hr, h.symm⟩

theorem Through.orReturn {next : σ → Int × σ} (hm : Through ok tries s r)
    (hnext : r.1 = 0 → Through ok tries r.2 (next r.2)) : Through ok tries s (orReturn r next) := by
  by_cases h : r.1 = 0
  · obtain ⟨hle, hall⟩ := hm
    obtain ⟨hle', hall'⟩ := hnext h
    rw [orReturn_of_zero h]
    refine ⟨hle.trans hle', fun c hc hc' => ?_⟩
    by_cases hmid : c < tries r.2
    · exact .inl ((hall c hc hmid).resolve_right fun hr => hr.1 h)
    · exact hall' c (Nat.not_lt.1 hmid) hc'
  · rw [orReturn_of_ne h]
    exact hm

end NodeLib
