import EinkNode.Lib.Quoted
/-!
# Escaped text in quotes

A text is escaped by a backslash before each quote and each backslash. A quote
in it is then never the first byte of a word in quotes, so a search for such a
word with a colon behind it passes over the text, whatever the text says.
-/

namespace NodeLib

/-- The bytes that are escaped: the quote and the backslash. -/
def isEscaped (c : UInt8) : Bool := c == 34 || c == 92

def escByte (c : UInt8) : Bytes := if isEscaped c then [92, c] else [c]

def esc (s : Bytes) : Bytes := s.flatMap escByte

@[simp] theorem esc_nil : esc [] = [] := rfl

@[simp] theorem esc_cons (c : UInt8) (s : Bytes) : esc (c :: s) = escByte c ++ esc s := rfl

theorem isEscaped_iff {c : UInt8} : isEscaped c = true ↔ c = 34 ∨ c = 92 := by
  simp [isEscaped]

/-- Escaping brings in no byte but the backslash. -/
theorem mem_esc {c : UInt8} {s : Bytes} (h : c ∈ esc s) : c ∈ s ∨ c = 92 := by
  obtain ⟨x, hx, hc⟩ := List.mem_flatMap.1 h
  unfold escByte at hc
  split at hc
  · rcases List.mem_cons.1 hc with rfl | hc
    · exact .inr rfl
    · rw [List.mem_singleton] at hc
      exact .inl (hc ▸ hx)
  · rw [List.mem_singleton] at hc
    exact .inl (hc ▸ hx)

/-! ## Searching past escaped text -/

/-- A name that is not escaped, nor mistaken for what stands between two fields. -/
def PlainName (name : Bytes) : Prop := 34 ∉ name ∧ 92 ∉ name ∧ 58 ∉ name ∧ 44 ∉ name

instance (name : Bytes) : Decidable (PlainName name) := inferInstanceAs (Decidable (_ ∧ _ ∧ _ ∧ _))

/-- The name in quotes, with a colon behind it. -/
def keyOf (name : Bytes) : Bytes := 34 :: (name ++ [34, 58])

/-- The name and an escaped text, with `more` behind them. -/
def field (name s more : Bytes) : Bytes := 34 :: (name ++ 34 :: 58 :: 34 :: (esc s ++ 34 :: more))

theorem field_eq (name s more : Bytes) : field name s more = keyOf name ++ 34 :: (esc s ++ 34 :: more) := by
  rw [field, keyOf, List.cons_append, List.append_assoc]
  rfl

theorem strstr_field_self (name s more : Bytes) :
    strstr (field name s more) (keyOf name) = some (keyOf name ++ 34 :: (esc s ++ 34 :: more)) := by
  rw [field_eq]
  exact strstr_self _ _

/-- A key is not found where there is no quote. -/
theorem strstr_keyOf_cons {c : UInt8} (hc : c ≠ 34) (s name : Bytes) :
    strstr (c :: s) (keyOf name) = strstr s (keyOf name) := by
  apply strstr_cons_of_ne
  rw [keyOf, List.cons_prefix_cons]
  exact fun h => hc h.1.symm

/-- A word with a quote and a colon behind it is not the beginning of an escaped text. -/
theorem not_starts_esc {name : Bytes} (hquote : 34 ∉ name) (hslash : 92 ∉ name) (s : Bytes) {c : UInt8} (hc : c ≠ 58)
    (rest : Bytes) : ¬ name ++ [34, 58] <+: esc s ++ 34 :: c :: rest := by
  induction name generalizing s with
  | nil =>
    intro h
    cases s with
    | nil =>
      rw [esc_nil, List.nil_append, List.nil_append, List.cons_prefix_cons, List.cons_prefix_cons] at h
      exact hc h.2.1.symm
    | cons x s =>
      rw [esc_cons, escByte] at h
      split at h
      · rw [List.nil_append, List.cons_append, List.cons_append, List.cons_prefix_cons] at h
        exact absurd h.1 (by decide)
      · next hx =>
        rw [List.nil_append, List.cons_append, List.cons_append, List.cons_prefix_cons] at h
        exact hx (isEscaped_iff.2 (.inl h.1.symm))
  | cons n name ih =>
    rw [List.mem_cons, not_or] at hquote hslash
    intro h
    cases s with
    | nil =>
      rw [esc_nil, List.nil_append, List.cons_append, List.cons_prefix_cons] at h
      exact hquote.1 h.1.symm
    | cons x s =>
      rw [esc_cons, escByte] at h
      split at h
      · rw [List.cons_append, List.cons_append, List.cons_append, List.cons_prefix_cons] at h
        exact hslash.1 h.1.symm
      · rw [List.cons_append, List.cons_append, List.cons_append, List.cons_prefix_cons] at h
        exact ih hquote.2 hslash.2 s h.2

/-- A key does not begin with a quote and a byte that the name has not. -/
theorem not_keyOf_cons {name : Bytes} {y : UInt8} (hy : 34 ≠ y) (hname : y ∉ name) (rest : Bytes) :
    ¬ keyOf name <+: 34 :: y :: rest := by
  rw [keyOf, List.cons_prefix_cons]
  rintro ⟨-, h⟩
  cases name with
  | nil =>
    rw [List.nil_append, List.cons_prefix_cons] at h
    exact hy h.1
  | cons n name =>
    rw [List.cons_append, List.cons_prefix_cons] at h
    exact hname (h.1 ▸ List.mem_cons_self)

section
variable {name : Bytes} (hname : PlainName name)
include hname

/-- No byte before the end of an escaped text and its quote starts the key. -/
theorem not_keyOf_esc (y : UInt8) (s more : Bytes) : ¬ keyOf name <+: y :: (esc s ++ 34 :: 44 :: more) := by
  rw [keyOf, List.cons_prefix_cons]
  exact fun h => not_starts_esc hname.1 hname.2.1 s (by decide) more h.2

/-- The search goes on behind the quote that ends the text. -/
theorem strstr_esc (s more : Bytes) :
    strstr (esc s ++ 34 :: 44 :: more) (keyOf name) = strstr (44 :: more) (keyOf name) := by
  induction s with
  | nil => exact strstr_cons_of_ne (not_keyOf_cons (by decide) hname.2.2.2 more)
  | cons x s ih =>
    rw [esc_cons, escByte, List.append_assoc]
    split
    · change strstr (92 :: x :: (esc s ++ 34 :: 44 :: more)) _ = _
      rw [strstr_keyOf_cons (by decide), strstr_cons_of_ne (not_keyOf_esc hname x s more), ih]
    · change strstr (x :: (esc s ++ 34 :: 44 :: more)) _ = _
      rw [strstr_cons_of_ne (not_keyOf_esc hname x s more), ih]

/-- A field with another name is passed over with its text. -/
theorem strstr_field {other : Bytes} (hother : 34 ∉ other) (hne : other ≠ name) (s more : Bytes) :
    strstr (field other s (44 :: more)) (keyOf name) = strstr (44 :: more) (keyOf name) := by
  have hopen : ¬ keyOf name <+: 34 :: (other ++ 34 :: 58 :: 34 :: (esc s ++ 34 :: 44 :: more)) := by
    rw [keyOf, List.cons_prefix_cons]
    rintro ⟨-, h⟩
    apply hne
    have hquoted : name ++ [34] <+: other ++ 34 :: (58 :: 34 :: (esc s ++ 34 :: 44 :: more)) :=
      (List.prefix_append _ [58]).trans (by simpa using h)
    exact eq_of_quoted hname.1 hother hquoted
  have hclose : ¬ keyOf name <+: 34 :: 58 :: 34 :: (esc s ++ 34 :: 44 :: more) :=
    not_keyOf_cons (by decide) hname.2.2.1 _
  rw [field, strstr_cons_of_ne hopen]
  rw [keyOf] at hclose ⊢
  rw [strstr_skip hother, strstr_cons_of_ne hclose, ← keyOf, strstr_keyOf_cons (by decide),
    strstr_cons_of_ne (not_keyOf_esc hname 34 s more), strstr_esc hname]

end

end NodeLib
