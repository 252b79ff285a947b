import Mathlib.Data.List.Infix
/-!
# Readers over a rolling buffer

A stream arrives in pieces. A reader appends each to what it holds, takes turns
until it has to wait, and keeps the rest. Where a turn depends only on bytes that are
there, and a wait forgets only what no later turn asks for, the cuts between the
pieces make no difference.
-/

namespace NodeLib

/-! ## The first place of a key -/

section Find

variable {α : Type*}

/-- A place that has the whole key in `s` does not see what comes behind. -/
theorem prefix_drop_append {key s : List α} {j : Nat} (h : j + key.length ≤ s.length) (c : List α) :
    key <+: (s ++ c).drop j ↔ key <+: s.drop j := by
  rw [List.drop_append_of_le_length (by omega)]
  constructor
  · intro hkey
    exact List.prefix_of_prefix_length_le hkey (List.prefix_append _ _) (by rw [List.length_drop]; omega)
  · intro hkey
    exact hkey.trans (List.prefix_append _ _)

theorem length_le_of_prefix_drop {key s : List α} {i : Nat} (hi : i ≤ s.length) (h : key <+: s.drop i) :
    i + key.length ≤ s.length := by
  have hlen := h.length_le
  rw [List.length_drop] at hlen
  omega

variable [DecidableEq α]

/-- The first place where `key` stands in `s`. -/
def find (key s : List α) : Option Nat := s.tails.findIdx? fun t => key <+: t

theorem find_eq_none {key s : List α} : find key s = none ↔ ¬ key <:+: s := by
  rw [find, List.findIdx?_eq_none_iff, List.infix_iff_prefix_suffix]
  simp only [List.mem_tails, decide_eq_false_iff_not]
  constructor
  · rintro h ⟨t, hkey, ht⟩
    exact h t ht hkey
  · intro h t ht hkey
    exact h ⟨t, hkey, ht⟩

theorem find_eq_some {key s : List α} {i : Nat} :
    find key s = some i ↔ i ≤ s.length ∧ key <+: s.drop i ∧ ∀ j < i, ¬ key <+: s.drop j := by
  rw [find, List.findIdx?_eq_some_iff_getElem]
  simp only [List.getElem_tails, List.length_tails, decide_eq_true_eq, Nat.lt_succ_iff, exists_prop]

/-- Once found, the key stays where it is. -/
theorem find_append {key s : List α} {i : Nat} (h : find key s = some i) (c : List α) :
    find key (s ++ c) = some i := by
  obtain ⟨hi, hkey, hfirst⟩ := find_eq_some.1 h
  have hlen := length_le_of_prefix_drop hi hkey
  rw [find_eq_some]
  refine ⟨?_, (prefix_drop_append hlen c).2 hkey, ?_⟩
  · rw [List.length_append]
    omega
  · intro j hj hkey'
    exact hfirst j hj ((prefix_drop_append (by omega) c).1 hkey')

/-- A key that is not in `p ++ t` is looked for from `t` on, when `t` can hold all of it but its last item. -/
theorem find_tail {key p t : List α} (hkey : ¬ key <:+: p ++ t) (hlen : key.length ≤ t.length + 1) (c : List α) :
    find key (p ++ t ++ c) = (find key (t ++ c)).map (p.length + ·) := by
  have hbefore : ∀ j < p.length, ¬ key <+: (p ++ t ++ c).drop j := by
    intro j hj h
    have hin : j + key.length ≤ (p ++ t).length := by
      rw [List.length_append]
      omega
    apply hkey
    exact ((prefix_drop_append hin c).1 h).isInfix.trans (List.drop_suffix j _).isInfix
  have hdrop : ∀ i, (p ++ t ++ c).drop (p.length + i) = (t ++ c).drop i := by
    intro i
    rw [List.append_assoc, List.drop_length_add_append]
  cases hfind : find key (t ++ c) with
  | none =>
    rw [Option.map_none, find_eq_none, List.infix_iff_prefix_suffix]
    rintro ⟨s, hs, hsuf⟩
    obtain ⟨j, hj, rfl⟩ : ∃ j ≤ (p ++ t ++ c).length, s = (p ++ t ++ c).drop j := by
      refine ⟨(p ++ t ++ c).length - s.length, Nat.sub_le _ _, ?_⟩
      exact List.suffix_iff_eq_drop.1 hsuf
    obtain hlt | ⟨i, rfl⟩ : j < p.length ∨ ∃ i, j = p.length + i := by
      rcases Nat.lt_or_ge j p.length with hlt | hge
      · exact .inl hlt
      · exact .inr ⟨j - p.length, by omega⟩
    · exact hbefore j hlt hs
    · rw [hdrop] at hs
      exact find_eq_none.1 hfind (hs.isInfix.trans (List.drop_suffix i _).isInfix)
  | some i =>
    obtain ⟨hi, hat, hfirst⟩ := find_eq_some.1 hfind
    rw [Option.map_some, find_eq_some, hdrop]
    refine ⟨?_, hat, ?_⟩
    · have hlen' : (p ++ t ++ c).length = p.length + (t ++ c).length := by
        rw [List.append_assoc, List.length_append]
      omega
    · intro j hj h
      rcases Nat.lt_or_ge j p.length with hlt | hge
      · exact hbefore j hlt h
      · obtain ⟨k, rfl⟩ : ∃ k, j = p.length + k := ⟨j - p.length, by omega⟩
        rw [hdrop] at h
        exact hfirst k (by omega) h

/-- A key that has its first item only once cannot begin inside another copy of itself or in front of one. -/
theorem find_key {a : α} {key s : List α} (ha : a ∉ key) (hs : ¬ a :: key <:+: s) (rest : List α) :
    find (a :: key) (s ++ (a :: key ++ rest)) = some s.length := by
  rw [find_eq_some]
  refine ⟨?_, ?_, ?_⟩
  · rw [List.length_append]
    omega
  · rw [List.drop_left]
    exact List.prefix_append _ _
  · intro j hj h
    rcases Nat.lt_or_ge s.length (j + (a :: key).length) with hover | hin
    · -- the item that the key begins with again stands `s.length - j` into it
      obtain ⟨d, hd⟩ : ∃ d, s.length = j + (d + 1) := ⟨s.length - j - 1, by omega⟩
      have hlt : d + 1 < (a :: key).length := by omega
      obtain ⟨t, ht⟩ := h
      have hgot : (a :: key)[d + 1]? = some a := by
        calc (a :: key)[d + 1]?
          _ = (a :: key ++ t)[d + 1]? := (List.getElem?_append_left hlt).symm
          _ = (s ++ (a :: key ++ rest))[s.length]? := by rw [ht, List.getElem?_drop, hd]
          _ = some a := by rw [List.getElem?_append_right (Nat.le_refl _), Nat.sub_self]; rfl
      rw [List.getElem?_cons_succ] at hgot
      exact ha (List.mem_of_getElem? hgot)
    · apply hs
      exact ((prefix_drop_append hin _).1 h).isInfix.trans (List.drop_suffix j _).isInfix

end Find

/-! ## Turns -/

section Readers

variable {α β : Type*}

/-- One turn over a buffer: what it gives out and what it keeps. -/
inductive Turn (α β : Type*) where
  /-- more has to come -/
  | wait (out : List β) (buf : List α)
  /-- something was taken from the front -/
  | took (out : List β) (buf : List α)

/-- The turn with `out` given out before it. -/
def Turn.after (out : List β) : Turn α β → Turn α β
  | .wait out' buf => .wait (out ++ out') buf
  | .took out' buf => .took (out ++ out') buf

@[simp] theorem Turn.after_nil (t : Turn α β) : t.after [] = t := by cases t <;> rfl

theorem Turn.after_after (out out' : List β) (t : Turn α β) : (t.after out').after out = t.after (out ++ out') := by
  cases t <;> simp [Turn.after]

/-- A reader, whose turns that take something leave less. -/
structure Reader (α β : Type*) where
  turn : List α → Turn α β
  shorter : ∀ {buf out rest}, turn buf = .took out rest → rest.length < buf.length

namespace Reader

variable {R : Reader α β}

/-- Turns up to a wait: all that was given out, and what is kept. -/
def drain (R : Reader α β) (buf : List α) : List β × List α :=
  match _h : R.turn buf with
  | .wait out rest => (out, rest)
  | .took out rest => (out ++ (R.drain rest).1, (R.drain rest).2)
termination_by buf.length
decreasing_by all_goals exact R.shorter _h

theorem drain_of_wait {buf rest : List α} {out : List β} (h : R.turn buf = .wait out rest) :
    R.drain buf = (out, rest) := by
  rw [drain]
  split
  · next h' =>
    cases h.symm.trans h'
    rfl
  · next h' => cases h.symm.trans h'

theorem drain_of_took {buf rest : List α} {out : List β} (h : R.turn buf = .took out rest) :
    R.drain buf = (out ++ (R.drain rest).1, (R.drain rest).2) := by
  rw [drain]
  split
  · next h' => cases h.symm.trans h'
  · next h' =>
    cases h.symm.trans h'
    rfl

/-- Each piece of the stream in turn. -/
def feeds (R : Reader α β) (buf : List α) : List (List α) → List β × List α
  | [] => ([], buf)
  | c :: cs => ((R.drain (buf ++ c)).1 ++ (R.feeds (R.drain (buf ++ c)).2 cs).1, (R.feeds (R.drain (buf ++ c)).2 cs).2)

/-- What a turn took does not depend on what comes behind, and after a wait the reader goes
on as if all of it were still there. -/
structure Steady (R : Reader α β) : Prop where
  took : ∀ {buf out rest}, R.turn buf = .took out rest → ∀ c, R.turn (buf ++ c) = .took out (rest ++ c)
  wait : ∀ {buf out rest}, R.turn buf = .wait out rest → ∀ c, R.turn (buf ++ c) = (R.turn (rest ++ c)).after out

theorem drain_after {buf buf' : List α} {out : List β} (h : R.turn buf = (R.turn buf').after out) :
    R.drain buf = (out ++ (R.drain buf').1, (R.drain buf').2) := by
  cases hturn : R.turn buf' with
  | wait out' rest =>
    rw [hturn] at h
    rw [drain_of_wait h, drain_of_wait hturn]
  | took out' rest =>
    rw [hturn] at h
    rw [drain_of_took h, drain_of_took hturn, List.append_assoc]

/-- Reading on from what was kept is reading all at once. -/
theorem Steady.drain_append (hR : R.Steady) (buf c : List α) :
    R.drain (buf ++ c) =
      ((R.drain buf).1 ++ (R.drain ((R.drain buf).2 ++ c)).1, (R.drain ((R.drain buf).2 ++ c)).2) := by
  cases hturn : R.turn buf with
  | wait out rest =>
    rw [drain_of_wait hturn]
    exact drain_after (hR.wait hturn c)
  | took out rest =>
    have ih := hR.drain_append rest c
    rw [drain_of_took hturn, drain_of_took (hR.took hturn c), ih, List.append_assoc]
termination_by buf.length
decreasing_by exact R.shorter hturn

/-- What a reader keeps has nothing to give out. -/
theorem Steady.settled (hR : R.Steady) (buf : List α) : R.drain (R.drain buf).2 = ([], (R.drain buf).2) := by
  have h := hR.drain_append buf []
  rw [List.append_nil, List.append_nil] at h
  have hout := congrArg Prod.fst h
  have hrest := congrArg Prod.snd h
  exact Prod.ext (List.self_eq_append_right.1 hout) hrest.symm

/-- The pieces of a stream give what the stream gives. -/
theorem Steady.feeds_eq (hR : R.Steady) (cs : List (List α)) {buf : List α} (hbuf : R.drain buf = ([], buf)) :
    R.feeds buf cs = R.drain (buf ++ cs.flatten) := by
  induction cs generalizing buf with
  | nil =>
    rw [List.flatten_nil, List.append_nil, hbuf]
    rfl
  | cons c cs ih =>
    rw [feeds, ih (hR.settled _), List.flatten_cons, ← List.append_assoc, hR.drain_append (buf ++ c)]

end Reader

end Readers

end NodeLib
