import Mathlib.Data.List.Forall2
import EinkNode.Log.InPlace
/-!
# What the redactor leaves

A byte of the result is the one that stood there or an `x`, and no key has an `x`
in it. So a key in the result was one in the text, and the redactor has seen it.
-/
open NodeLib

namespace EinkNode.Log

/-- The text line by line. -/
def lines : Bytes → List Bytes
  | [] => [[]]
  | c :: cs => if c = newline then [] :: lines cs else (c :: (lines cs).headD []) :: (lines cs).tail

theorem lines_last {l : Bytes} (hl : newline ∉ l) : lines l = [l] := by
  induction l with
  | nil => rfl
  | cons c l ih =>
    have hc : c ≠ newline := fun h => hl (h ▸ List.mem_cons_self)
    rw [lines, if_neg hc, ih fun h => hl (List.mem_cons_of_mem c h)]
    rfl

theorem lines_cons {l : Bytes} (hl : newline ∉ l) (r : Bytes) : lines (l ++ newline :: r) = l :: lines r := by
  induction l with
  | nil => exact if_pos rfl
  | cons c l ih =>
    have hc : c ≠ newline := fun h => hl (h ▸ List.mem_cons_self)
    rw [List.cons_append, lines, if_neg hc, ih fun h => hl (List.mem_cons_of_mem c h)]
    rfl

/-! ## Keys in a masked line -/

/-- `l'` is `l` with some bytes replaced by `x`. -/
def OnlyMasked (l l' : Bytes) : Prop := List.Forall₂ (fun a b => b = a ∨ b = 120) l l'

theorem onlyMasked_refl (l : Bytes) : OnlyMasked l l := by
  induction l with
  | nil => exact .nil
  | cons c l ih => exact .cons (.inl rfl) ih

theorem onlyMasked_append {a a' b b' : Bytes} (ha : OnlyMasked a a') (hb : OnlyMasked b b') :
    OnlyMasked (a ++ b) (a' ++ b') := List.rel_append ha hb

theorem onlyMasked_mask_bearer (l : Bytes) : OnlyMasked l (mask_bearer l) := by
  fun_induction mask_bearer l with
  | case1 => exact .nil
  | case2 c cs hreads ih =>
    have hmask (x : Bytes) : OnlyMasked x (x.map fun _ => 120) := by
      induction x with
      | nil => exact .nil
      | cons a x ihx => exact .cons (.inr rfl) ihx
    have hsplit : c :: cs = (c :: cs).take 7 ++ ((c :: cs).drop 7).takeWhile in_tok ++
        ((c :: cs).drop 7).dropWhile in_tok := by
      rw [List.append_assoc, List.takeWhile_append_dropWhile, List.take_append_drop]
    have h := onlyMasked_append (onlyMasked_append (onlyMasked_refl ((c :: cs).take 7))
      (hmask (((c :: cs).drop 7).takeWhile in_tok))) ih
    rw [← hsplit] at h
    exact h
  | case3 c cs hreads ih => exact .cons (.inl rfl) ih

/-- A key without an `x` was there before. -/
theorem reads_of_masked {key l l' : Bytes} (hkey : 120 ∉ key) (h : OnlyMasked l l') (hreads : reads key l' = true) :
    reads key l = true := by
  rw [reads_iff] at hreads ⊢
  induction h generalizing key with
  | nil => exact hreads
  | @cons a b l l' hab h ih =>
    cases key with
    | nil => exact List.nil_prefix
    | cons k key =>
      rw [List.map_cons, List.cons_prefix_cons] at hreads ⊢
      obtain ⟨rfl, hreads⟩ := hreads
      rcases hab with rfl | rfl
      · exact ⟨rfl, ih (fun h => hkey (List.mem_cons_of_mem _ h)) hreads⟩
      · exact absurd List.mem_cons_self hkey

theorem mem_of_masked {l l' : Bytes} (h : OnlyMasked l l') {c : UInt8} (hc : c ≠ 120) (hmem : c ∈ l') : c ∈ l := by
  induction h with
  | nil => exact hmem
  | cons hab h ih =>
    rcases List.mem_cons.1 hmem with rfl | hmem
    · rcases hab with rfl | rfl
      · exact List.mem_cons_self
      · exact absurd rfl hc
    · exact List.mem_cons_of_mem _ (ih hmem)

theorem kill_of_masked {l l' : Bytes} (h : OnlyMasked l l') (hkill : kill l' = true) : kill l = true := by
  obtain ⟨t, ht, hreads⟩ := List.any_eq_true.1 hkill
  obtain ⟨front, rfl⟩ := (List.mem_tails _ _).1 ht
  refine List.any_eq_true.2 ⟨l.drop front.length, (List.mem_tails _ _).2 (List.drop_suffix _ _), ?_⟩
  refine reads_of_masked (by decide) ?_ hreads
  have hdrop := List.forall₂_drop front.length h
  rw [List.drop_left' rfl] at hdrop
  exact hdrop

/-- Behind every `bearer ` of the line stand `x` only, up to a byte that `stop` takes. -/
def Masked (goes : UInt8 → Bool) (l : Bytes) : Prop :=
  ∀ i, reads bearer (l.drop i) = true → ∀ c ∈ (l.drop (i + 7)).takeWhile goes, c = 120

theorem head_of_reads {l : Bytes} {i : Nat} (h : reads bearer (l.drop i) = true) :
    ∃ c, l[i]? = some c ∧ lower c = 98 := by
  rw [reads_iff] at h
  rw [← List.head?_drop]
  cases hl : l.drop i with
  | nil =>
    rw [hl] at h
    exact absurd (List.prefix_nil.1 h) (by decide)
  | cons c cs =>
    rw [hl] at h
    exact ⟨c, rfl, (List.cons_prefix_cons.1 h).1.symm⟩

theorem head_mask_bearer (l : Bytes) : (mask_bearer l).head? = l.head? := by
  cases l with
  | nil => rw [mask_bearer]
  | cons c cs =>
    rw [mask_bearer]
    split
    · rfl
    · rfl

/-- The bytes of the key are no start of another one. -/
theorem bearer_once {l : Bytes} (h : reads bearer l = true) {i : Nat} (hi : i < 7) {c : UInt8} (hc : l[i]? = some c)
    (hb : lower c = 98) : i = 0 := by
  have honce : ∀ i < 7, bearer[i]? = some 98 → i = 0 := by decide
  obtain ⟨t, ht⟩ := (reads_iff _ _).1 h
  refine honce i hi ?_
  have hget := congrArg (·[i]?) ht
  rw [List.getElem?_append_left hi, List.getElem?_map, hc, Option.map_some, hb] at hget
  exact hget

/-- A token in the result ends where it has ended in the text. -/
theorem takeWhile_mask_append (x : Bytes) :
    (mask x ++ mask_bearer (x.dropWhile in_tok)).takeWhile in_tok = mask x := by
  have hmask : ∀ c ∈ mask x, in_tok c = true := by
    intro c hc
    obtain ⟨-, -, rfl⟩ := List.mem_map.1 hc
    decide
  have hend : (mask_bearer (x.dropWhile in_tok)).takeWhile in_tok = [] := by
    have hhead := head_mask_bearer (x.dropWhile in_tok)
    generalize mask_bearer (x.dropWhile in_tok) = r at hhead ⊢
    cases r with
    | nil => rfl
    | cons c cs =>
      have hc := List.head?_dropWhile_not in_tok x
      rw [← hhead] at hc
      exact List.takeWhile_cons_of_neg (by simpa using hc)
  rw [List.takeWhile_append_of_pos hmask, hend, List.append_nil]

theorem drop_behind {n : Nat} {front : Bytes} (h : front.length = n) (rest : Bytes) (k : Nat) :
    (front ++ rest).drop (n + k) = rest.drop k := by
  rw [← List.drop_drop, List.drop_left' h]

/-- What follows a masked part is masked by itself. -/
theorem Masked.behind {goes : UInt8 → Bool} {front rest : Bytes} (h : Masked goes (front ++ rest)) :
    Masked goes rest := by
  intro i hi
  have hrest := h (front.length + i)
  rw [Nat.add_assoc, drop_behind rfl, drop_behind rfl] at hrest
  exact hrest hi

theorem masked_mask_bearer (l : Bytes) : Masked in_tok (mask_bearer l) := by
  fun_induction mask_bearer l with
  | case1 =>
    intro i h
    rw [List.drop_nil] at h
    exact absurd h (by decide)
  | case2 c cs hreads ih =>
    have hseven : ((c :: cs).take 7).length = 7 := by
      rw [List.length_take, Nat.min_eq_left (reads_bearer_length hreads)]
    intro i h
    rw [List.append_assoc] at h ⊢
    rcases Nat.lt_or_ge i 7 with hi | hi
    · -- The key itself: another one would begin inside it.
      obtain ⟨d, hd, hb⟩ := head_of_reads h
      rw [List.getElem?_append_left (by omega), List.getElem?_take_of_lt hi] at hd
      obtain rfl := bearer_once hreads hi hd hb
      rw [Nat.zero_add, List.drop_left' hseven, takeWhile_mask_append]
      intro d hd
      obtain ⟨-, -, rfl⟩ := List.mem_map.1 hd
      rfl
    · obtain ⟨j, rfl⟩ := Nat.exists_eq_add_of_le hi
      rw [drop_behind hseven] at h
      rw [Nat.add_assoc, drop_behind hseven]
      rcases Nat.lt_or_ge j (mask ((c :: cs).drop 7)).length with hj | hj
      · -- A masked token has no key in it.
        obtain ⟨d, hd, hb⟩ := head_of_reads h
        rw [List.getElem?_append_left hj] at hd
        obtain ⟨-, -, rfl⟩ := List.mem_map.1 (List.mem_of_getElem? hd)
        exact absurd hb (by decide)
      · obtain ⟨k, rfl⟩ := Nat.exists_eq_add_of_le hj
        rw [drop_behind rfl] at h
        rw [Nat.add_assoc, drop_behind rfl]
        exact ih k h
  | case3 c cs hreads ih =>
    intro i h
    cases i with
    | zero => exact absurd (reads_of_masked (by decide) (.cons (.inl rfl) (onlyMasked_mask_bearer cs)) h) hreads
    | succ i =>
      rw [Nat.add_right_comm]
      exact ih i h

/-- A line that is masked already stays as it is. -/
theorem mask_bearer_of_masked {l : Bytes} (h : Masked in_tok l) : mask_bearer l = l := by
  fun_induction mask_bearer l with
  | case1 => rfl
  | case2 c cs hreads ih =>
    have htok := h 0 hreads
    rw [Nat.zero_add] at htok
    have hmask : mask ((c :: cs).drop 7) = ((c :: cs).drop 7).takeWhile in_tok := by
      refine (List.map_congr_left fun d hd => ?_).trans (List.map_id _)
      exact (htok d hd).symm
    have hsplit : (c :: cs).take 7 ++ ((c :: cs).drop 7).takeWhile in_tok ++ ((c :: cs).drop 7).dropWhile in_tok =
        c :: cs := by rw [List.append_assoc, List.takeWhile_append_dropWhile, List.take_append_drop]
    rw [ih (Masked.behind (hsplit.symm ▸ h)), hmask, hsplit]
  | case3 c cs hreads ih => exact congrArg (c :: ·) (ih (Masked.behind (show Masked in_tok ([c] ++ cs) from h)))

/-! ## One line -/

theorem mem_wiped {n : Nat} {c : UInt8} (h : c ∈ wiped n) : c ∈ blank :: rep := by
  rcases List.mem_append.1 h with h | h
  · exact List.mem_cons_of_mem _ (List.mem_of_mem_take h)
  · rw [List.eq_of_mem_replicate h]
    exact List.mem_cons_self

theorem masked_wiped (n : Nat) : Masked in_tok (wiped n) := by
  intro i h
  obtain ⟨c, hc, hb⟩ := head_of_reads h
  have hnone : ∀ c ∈ blank :: rep, lower c ≠ 98 := by decide +kernel
  exact absurd hb (hnone c (mem_wiped (List.mem_of_getElem? hc)))

theorem masked_redact_line (l : Bytes) : Masked in_tok (redact_line l) := by
  unfold redact_line
  split
  · exact masked_wiped _
  · exact masked_mask_bearer l

/-- A byte that is in no text that the redactor writes is only there if it was there before. -/
theorem mem_redact_line {l : Bytes} {c : UInt8} (hc : c ∉ blank :: 120 :: rep) (h : c ∈ redact_line l) : c ∈ l := by
  unfold redact_line at h
  split at h
  · refine absurd (mem_wiped h) fun hmem => hc ?_
    rcases List.mem_cons.1 hmem with rfl | hmem
    · exact List.mem_cons_self
    · exact List.mem_cons_of_mem _ (List.mem_cons_of_mem _ hmem)
  · exact mem_of_masked (onlyMasked_mask_bearer l) (fun h120 => hc (h120 ▸ List.mem_cons_of_mem _ List.mem_cons_self)) h

theorem newline_notMem_redact_line {l : Bytes} (h : newline ∉ l) : newline ∉ redact_line l :=
  fun hmem => h (mem_redact_line (by decide +kernel) hmem)

theorem zero_notMem_redact_line {l : Bytes} (h : (0 : UInt8) ∉ l) : (0 : UInt8) ∉ redact_line l :=
  fun hmem => h (mem_redact_line (by decide +kernel) hmem)

theorem redact_line_idem (l : Bytes) : redact_line (redact_line l) = redact_line l := by
  have hmasked := masked_redact_line l
  by_cases hkill : kill l = true
  · have hwiped : redact_line l = wiped l.length := if_pos hkill
    rw [hwiped] at hmasked ⊢
    unfold redact_line
    rw [length_wiped, mask_bearer_of_masked hmasked, ite_self]
  · have hmask : redact_line l = mask_bearer l := if_neg hkill
    rw [hmask] at hmasked ⊢
    unfold redact_line
    rw [if_neg fun h => hkill (kill_of_masked (onlyMasked_mask_bearer l) h), mask_bearer_of_masked hmasked]

/-! ## The text -/

/-- Of a text without NUL, every line is redacted by itself. -/
theorem redact_text {l : Bytes} (hl : newline ∉ l) (h0 : (0 : UInt8) ∉ l) :
    eink_log_ring_redact_inplace l = redact_line l := by
  rw [redact_last hl (head_ne_zero h0), cstring_of_notMem h0, List.drop_length, List.append_nil]

theorem lines_redact {text : Bytes} (h0 : (0 : UInt8) ∉ text) :
    lines (eink_log_ring_redact_inplace text) = (lines text).map redact_line := by
  induction text using line_induction with
  | last l hl =>
    rw [redact_text hl h0, lines_last (newline_notMem_redact_line hl), lines_last hl]
    rfl
  | cons l r hl ih =>
    obtain ⟨hl0, hr0⟩ := zero_notMem_parts h0
    rw [redact_cons hl (head_ne_zero hl0), lines_cons (newline_notMem_redact_line hl), lines_cons hl, ih hr0]
    rfl

theorem length_redact {text : Bytes} (h0 : (0 : UInt8) ∉ text) :
    (eink_log_ring_redact_inplace text).length = text.length := by
  induction text using line_induction with
  | last l hl => rw [redact_text hl h0, length_redact_line]
  | cons l r hl ih =>
    obtain ⟨hl0, hr0⟩ := zero_notMem_parts h0
    rw [redact_cons hl (head_ne_zero hl0), List.length_append, List.length_append, length_redact_line,
      List.length_cons, List.length_cons, ih hr0]

theorem zero_notMem_redact {text : Bytes} (h0 : (0 : UInt8) ∉ text) :
    (0 : UInt8) ∉ eink_log_ring_redact_inplace text := by
  induction text using line_induction with
  | last l hl =>
    rw [redact_text hl h0]
    exact zero_notMem_redact_line h0
  | cons l r hl ih =>
    obtain ⟨hl0, hr0⟩ := zero_notMem_parts h0
    rw [redact_cons hl (head_ne_zero hl0), List.mem_append, List.mem_cons, not_or, not_or]
    exact ⟨zero_notMem_redact_line hl0, by decide, ih hr0⟩

theorem redact_idem {text : Bytes} (h0 : (0 : UInt8) ∉ text) :
    eink_log_ring_redact_inplace (eink_log_ring_redact_inplace text) = eink_log_ring_redact_inplace text := by
  induction text using line_induction with
  | last l hl =>
    rw [redact_text hl h0, redact_text (newline_notMem_redact_line hl) (zero_notMem_redact_line h0), redact_line_idem]
  | cons l r hl ih =>
    obtain ⟨hl0, hr0⟩ := zero_notMem_parts h0
    rw [redact_cons hl (head_ne_zero hl0),
      redact_cons (newline_notMem_redact_line hl) (head_ne_zero (zero_notMem_redact_line hl0)), redact_line_idem,
      ih hr0]

/-- Lines of the same length part the two texts at the same places. -/
theorem newline_at_append {l l' r r' : Bytes} (hl : newline ∉ l) (hl' : newline ∉ l') (hlen : l'.length = l.length)
    (h : ∀ i : Nat, r'[i]? = some newline ↔ r[i]? = some newline) (i : Nat) :
    (l' ++ newline :: r')[i]? = some newline ↔ (l ++ newline :: r)[i]? = some newline := by
  rcases Nat.lt_or_ge i l.length with hi | hi
  · rw [List.getElem?_append_left hi, List.getElem?_append_left (by omega)]
    exact ⟨fun hc => absurd (List.mem_of_getElem? hc) hl', fun hc => absurd (List.mem_of_getElem? hc) hl⟩
  · rw [List.getElem?_append_right hi, List.getElem?_append_right (by omega), hlen]
    cases i - l.length with
    | zero => exact Iff.rfl
    | succ j => exact h j

theorem newline_at_redact {text : Bytes} (h0 : (0 : UInt8) ∉ text) (i : Nat) :
    (eink_log_ring_redact_inplace text)[i]? = some newline ↔ text[i]? = some newline := by
  induction text using line_induction generalizing i with
  | last l hl =>
    rw [redact_text hl h0]
    exact ⟨fun hc => absurd (List.mem_of_getElem? hc) (newline_notMem_redact_line hl),
      fun hc => absurd (List.mem_of_getElem? hc) hl⟩
  | cons l r hl ih =>
    obtain ⟨hl0, hr0⟩ := zero_notMem_parts h0
    rw [redact_cons hl (head_ne_zero hl0)]
    exact newline_at_append hl (newline_notMem_redact_line hl) (length_redact_line l) (fun i => ih hr0 i) i

/-- The bytes of a token in a text, which ends with the line at the latest. -/
def in_line_tok (c : UInt8) : Bool := in_tok c && c != newline

theorem mem_takeWhile_in_line {l : Bytes} {c : UInt8} (h : c ∈ l.takeWhile in_line_tok) : c ∈ l.takeWhile in_tok := by
  induction l with
  | nil => exact h
  | cons d l ih =>
    by_cases hd : in_line_tok d = true
    · rw [List.takeWhile_cons_of_pos hd] at h
      rw [List.takeWhile_cons_of_pos (Bool.and_elim_left hd)]
      exact (List.mem_cons.1 h).elim (fun h => h ▸ List.mem_cons_self) fun h => List.mem_cons_of_mem _ (ih h)
    · rw [List.takeWhile_cons_of_neg hd] at h
      cases h

theorem takeWhile_in_line_append (l r : Bytes) :
    (l ++ newline :: r).takeWhile in_line_tok = l.takeWhile in_line_tok := by
  induction l with
  | nil => exact List.takeWhile_cons_of_neg (by decide)
  | cons c l ih =>
    rw [List.cons_append, List.takeWhile_cons, List.takeWhile_cons, ih]

/-- A key does not go over the end of a line. -/
theorem reads_bearer_before_newline {l r : Bytes} (h : reads bearer (l ++ newline :: r) = true) :
    reads bearer l = true := by
  rw [reads_iff] at h ⊢
  rw [List.map_append, List.map_cons] at h
  rcases List.prefix_or_prefix_of_prefix h (List.prefix_append _ _) with hkey | hkey
  · exact hkey
  · obtain ⟨rest, hrest⟩ := hkey
    cases rest with
    | nil => rw [← hrest, List.append_nil]
    | cons c rest =>
      -- The newline would be a byte of the key.
      rw [← hrest] at h
      have hc : c = lower newline := (List.cons_prefix_cons.1 ((List.prefix_append_right_inj _).1 h)).1
      have hmem : lower newline ∈ bearer := by
        rw [← hrest, hc]
        exact List.mem_append_right _ List.mem_cons_self
      exact absurd hmem (by decide)

theorem masked_append {l r : Bytes} (hl : Masked in_tok l) (hr : Masked in_line_tok r) :
    Masked in_line_tok (l ++ newline :: r) := by
  intro i h
  rcases Nat.lt_or_ge i l.length with hi | hi
  · rw [List.drop_append_of_le_length (Nat.le_of_lt hi)] at h
    have hreads := reads_bearer_before_newline h
    have hseven := reads_bearer_length hreads
    rw [List.length_drop] at hseven
    rw [List.drop_append_of_le_length (by omega), takeWhile_in_line_append]
    exact fun c hc => hl i hreads c (mem_takeWhile_in_line hc)
  · obtain ⟨j, rfl⟩ := Nat.exists_eq_add_of_le hi
    rw [drop_behind rfl] at h
    rw [Nat.add_assoc, drop_behind rfl]
    cases j with
    | zero =>
      obtain ⟨c, hc, hb⟩ := head_of_reads h
      cases hc
      exact absurd hb (by decide)
    | succ j =>
      rw [Nat.add_right_comm]
      exact hr j h

theorem masked_redact {text : Bytes} (h0 : (0 : UInt8) ∉ text) :
    Masked in_line_tok (eink_log_ring_redact_inplace text) := by
  induction text using line_induction with
  | last l hl =>
    rw [redact_text hl h0]
    exact fun i h c hc => masked_redact_line l i h c (mem_takeWhile_in_line hc)
  | cons l r hl ih =>
    obtain ⟨hl0, hr0⟩ := zero_notMem_parts h0
    rw [redact_cons hl (head_ne_zero hl0)]
    exact masked_append (masked_redact_line l) (ih hr0)

/-- The redactor in memory masks all it knows, and changes nothing else. -/
theorem redact_inplace_masks (before text after : Bytes) (h0 : (0 : UInt8) ∉ text) :
    ∃ text', InPlace.eink_log_ring_redact_inplace (before ++ text ++ 0 :: after) before.length text.length =
        before ++ text' ++ 0 :: after ∧
      text'.length = text.length ∧ (∀ i : Nat, text'[i]? = some newline ↔ text[i]? = some newline) ∧
      InPlace.eink_log_ring_redact_inplace (before ++ text' ++ 0 :: after) before.length text.length =
        before ++ text' ++ 0 :: after ∧
      (∀ i, reads bearer (text'.drop i) = true → ∀ c ∈ (text'.drop (i + 7)).takeWhile in_line_tok, c = 120) ∧
      ∀ (n : Nat) line, (lines text)[n]? = some line → eink_cred <:+: line.map lower →
        (lines text')[n]? = some (wiped line.length) := by
  have hlen := length_redact h0
  refine ⟨eink_log_ring_redact_inplace text, redact_from_eq before text after h0, hlen, newline_at_redact h0, ?_,
    masked_redact h0, ?_⟩
  · have hagain := redact_from_eq before (eink_log_ring_redact_inplace text) after (zero_notMem_redact h0)
    rw [redact_idem h0, hlen] at hagain
    exact hagain
  · intro n line hline hkey
    have hkill : redact_line line = wiped line.length := if_pos ((kill_iff line).2 hkey)
    rw [lines_redact h0, List.getElem?_map, hline, Option.map_some, hkill]

/-- A line with credentials, one with a token, and a byte on either side. -/
theorem redact_inplace_masks_of_two :
    ∃ text', InPlace.eink_log_ring_redact_inplace ([7] ++ ascii "EINK CREDS a b c\nbearer ab c" ++ [0, 9]) 1 28 =
        [7] ++ text' ++ [0, 9] ∧
      text'.length = 28 ∧
      (∀ i : Nat, text'[i]? = some newline ↔ (ascii "EINK CREDS a b c\nbearer ab c")[i]? = some newline) ∧
      InPlace.eink_log_ring_redact_inplace ([7] ++ text' ++ [0, 9]) 1 28 = [7] ++ text' ++ [0, 9] ∧
      (∀ i, reads bearer (text'.drop i) = true → ∀ c ∈ (text'.drop (i + 7)).takeWhile in_line_tok, c = 120) ∧
      ∀ (n : Nat) line, (lines (ascii "EINK CREDS a b c\nbearer ab c"))[n]? = some line →
        eink_cred <:+: line.map lower → (lines text')[n]? = some (wiped line.length) :=
  redact_inplace_masks [7] (ascii "EINK CREDS a b c\nbearer ab c") [9] (by decide)

end EinkNode.Log
