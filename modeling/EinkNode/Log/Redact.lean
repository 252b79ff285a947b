import Mathlib.Data.List.DropRight
import Mathlib.Data.List.Infix
import EinkNode.Log.Ring
/-!
# The redactor

`eink_log_ring_redact_inplace`: a line that reads `eink cred` in either case is
overwritten, in any other line what follows a `Bearer ` is masked up to the next
blank. Every byte stays where it is, so a run of the redactor is a function from
texts to texts of the same length.
-/
open NodeLib

namespace EinkNode.Log

def blank : UInt8 := 32
def cr : UInt8 := 13

/-- A letter as the comparisons take it, `line[i] == 'e' || line[i] == 'E'`. -/
def lower (c : UInt8) : UInt8 := if 65 ≤ c ∧ c ≤ 90 then c + 32 else c

/-- Whether `key` stands at `p`, in either case. -/
def reads (key p : Bytes) : Bool := key.isPrefixOf (p.map lower)

def eink_cred : Bytes := ascii "eink cred"
def bearer : Bytes := ascii "bearer "

/-! ## One line -/

/-- The flag that the first loop sets. -/
def kill (line : Bytes) : Bool := line.tails.any (reads eink_cred)

def rep : Bytes := ascii "[redacted: eink creds line]"

/-- What a line of `line_len` bytes is overwritten with. -/
def wiped (line_len : Nat) : Bytes := rep.take line_len ++ List.replicate (line_len - rep.length) blank

/-- The bytes that `tok` runs over. -/
def in_tok (c : UInt8) : Bool := c != blank && c != cr

def mask (tok : Bytes) : Bytes := (tok.takeWhile in_tok).map fun _ => 120

/-- The second loop, from `p` to the end of the line. -/
def mask_bearer (p : Bytes) : Bytes :=
  match p with
  | [] => []
  | c :: cs =>
    if reads bearer (c :: cs) then
      (c :: cs).take 7 ++ mask ((c :: cs).drop 7) ++ mask_bearer (((c :: cs).drop 7).dropWhile in_tok)
    else c :: mask_bearer cs
termination_by p.length
decreasing_by
  · have := ((c :: cs).drop 7).length_dropWhile_le in_tok
    simp only [List.length_drop, List.length_cons] at this ⊢
    omega
  · simp

def redact_line (line : Bytes) : Bytes := if kill line then wiped line.length else mask_bearer line

/-! ## The text -/

/-- The text from the next line on. -/
def next_line (line : Bytes) : Bytes := (line.dropWhile (· ≠ newline)).tail

/-- The `line_len` bytes at `line`: up to the newline, or else up to the NUL. -/
def line_at (line : Bytes) : Bytes := if newline ∈ line then line.takeWhile (· ≠ newline) else cstring line

def eink_log_ring_redact_inplace (line : Bytes) : Bytes :=
  match line with
  | [] => []
  | c :: cs =>
    if c = 0 then c :: cs
    else if newline ∈ c :: cs then
      redact_line (line_at (c :: cs)) ++ newline :: eink_log_ring_redact_inplace (next_line (c :: cs))
    else redact_line (line_at (c :: cs)) ++ (c :: cs).drop (line_at (c :: cs)).length
termination_by line.length
decreasing_by
  have := (c :: cs).length_dropWhile_le (· ≠ newline)
  simp only [next_line, List.length_tail, List.length_cons] at this ⊢
  omega

/-! ## Finding a key -/

theorem lower_eq_blank (c : UInt8) : lower c = blank ↔ c = blank := by
  unfold lower blank
  split
  · next hletter =>
    rw [UInt8.le_iff_toNat_le, UInt8.le_iff_toNat_le] at hletter
    rw [← UInt8.toNat_inj, ← UInt8.toNat_inj, UInt8.toNat_add]
    change 65 ≤ c.toNat ∧ c.toNat ≤ 90 at hletter
    change (c.toNat + 32) % 256 = 32 ↔ c.toNat = 32
    omega
  · rfl

theorem reads_iff (key p : Bytes) : reads key p = true ↔ key <+: p.map lower := List.isPrefixOf_iff_prefix

theorem reads_append {key p : Bytes} (h : reads key p = true) (w : Bytes) : reads key (p ++ w) = true := by
  rw [reads_iff] at h ⊢
  rw [List.map_append]
  exact h.trans (List.prefix_append _ _)

theorem kill_iff (line : Bytes) : kill line = true ↔ eink_cred <:+: line.map lower := by
  rw [kill, List.any_eq_true, List.infix_iff_prefix_suffix]
  constructor
  · rintro ⟨t, ht, hreads⟩
    exact ⟨t.map lower, (reads_iff _ _).1 hreads, ((List.mem_tails _ _).1 ht).map lower⟩
  · rintro ⟨t, hpre, hsuffix⟩
    rw [List.suffix_iff_eq_drop, List.length_map, ← List.map_drop] at hsuffix
    exact ⟨_, (List.mem_tails _ _).2 (List.drop_suffix _ _), (reads_iff _ _).2 (hsuffix ▸ hpre)⟩

theorem kill_append_left {m : Bytes} (h : kill m = true) (w : Bytes) : kill (m ++ w) = true := by
  rw [kill_iff] at h ⊢
  rw [List.map_append]
  exact h.trans (List.prefix_append _ _).isInfix

theorem kill_append_right (w : Bytes) {a : Bytes} (h : kill a = true) : kill (w ++ a) = true := by
  rw [kill_iff] at h ⊢
  rw [List.map_append]
  exact h.trans (List.suffix_append _ _).isInfix

theorem kill_nil : kill [] = false := by decide

/-- A byte that is not in the key parts the line. -/
theorem kill_split {m a : Bytes} {d : UInt8} (hd : lower d ∉ eink_cred) (h : kill (m ++ d :: a) = true) :
    kill m = true ∨ kill a = true := by
  rw [kill_iff, List.map_append, List.map_cons, List.infix_append_iff_ne_nil] at h
  rcases h with h | h | ⟨l₁, l₂, -, hl₂, hkey, -, hpre⟩
  · exact .inl ((kill_iff _).2 h)
  · rcases List.infix_cons_iff.1 h with hpre | h
    · exact absurd ((List.cons_prefix_cons.1 hpre).1 ▸ List.mem_cons_self) hd
    · exact .inr ((kill_iff _).2 h)
  · obtain ⟨c, l₂, rfl⟩ := List.exists_cons_of_ne_nil hl₂
    rw [(List.cons_prefix_cons.1 hpre).1] at hkey
    exact absurd (hkey ▸ List.mem_append_right _ List.mem_cons_self) hd

theorem kill_replicate {a : Bytes} {d : UInt8} (hd : lower d ∉ eink_cred) (k : Nat)
    (h : kill (List.replicate k d ++ a) = true) : kill a = true := by
  induction k with
  | zero => exact h
  | succ k ih =>
    rcases kill_split (m := []) hd h with h | h
    · exact absurd h (by rw [kill_nil]; decide)
    · exact ih h

/-! ## Masking across a cut -/

/-- Whether a token goes on at the end of the text. -/
def in_token (p : Bytes) : Bool :=
  match p with
  | [] => false
  | c :: cs =>
    if reads bearer (c :: cs) then
      (((c :: cs).drop 7).dropWhile in_tok).isEmpty || in_token (((c :: cs).drop 7).dropWhile in_tok)
    else in_token cs
termination_by p.length
decreasing_by
  · have := ((c :: cs).drop 7).length_dropWhile_le in_tok
    simp only [List.length_drop, List.length_cons] at this ⊢
    omega
  · simp

/-- No key goes on behind the text, which is empty or ends in a blank. -/
def at_word (m : Bytes) : Prop := ∀ c, m.getLast? = some c → c = blank

/-- What becomes of the rest of a line. -/
def masked_from (token : Bool) (w : Bytes) : Bytes :=
  if token then mask w ++ mask_bearer (w.dropWhile in_tok) else mask_bearer w

theorem at_word_suffix {t m : Bytes} (h : at_word m) (ht : t <:+ m) : at_word t := by
  obtain ⟨s, rfl⟩ := ht
  intro c hc
  cases t with
  | nil => cases hc
  | cons d t => exact h c (by rw [List.getLast?_append_of_ne_nil _ (by simp), hc])

theorem reads_bearer_length {p : Bytes} (h : reads bearer p = true) : 7 ≤ p.length := by
  rw [reads_iff] at h
  have hlen := h.length_le
  rwa [List.length_map] at hlen

/-- The only blank of the key is its last byte. -/
theorem reads_bearer_of_append {m w : Bytes} (hword : at_word m) (hm : m ≠ []) (h : reads bearer (m ++ w) = true) :
    reads bearer m = true := by
  rw [reads_iff] at h ⊢
  rw [List.map_append] at h
  rcases List.prefix_or_prefix_of_prefix h (List.prefix_append _ _) with hkey | hkey
  · exact hkey
  · have hends : ∀ l ∈ bearer.inits, l.getLast? = some blank → l = bearer := by decide
    have hlast : (m.map lower).getLast? = some blank := by
      rw [List.getLast?_map, List.getLast?_eq_some_getLast hm, hword _ (List.getLast?_eq_some_getLast hm)]
      decide
    rw [hends _ ((List.mem_inits _ _).2 hkey) hlast]

theorem all_of_dropWhile_nil {x : Bytes} (h : x.dropWhile in_tok = []) : ∀ c ∈ x, in_tok c = true :=
  List.dropWhile_eq_nil_iff.1 h

theorem mask_append_of_rest {x : Bytes} (h : x.dropWhile in_tok ≠ []) (w : Bytes) : mask (x ++ w) = mask x := by
  have hne : ¬(x.takeWhile in_tok).length = x.length := by
    intro heq
    have hsplit := congrArg List.length (List.takeWhile_append_dropWhile (p := in_tok) (l := x))
    rw [List.length_append, heq] at hsplit
    exact h (List.length_eq_zero_iff.1 (by omega))
  rw [mask, List.takeWhile_append, if_neg hne, mask]

theorem mask_bearer_reads {p : Bytes} (h : reads bearer p = true) (w : Bytes) :
    mask_bearer (p ++ w)
      = p.take 7 ++ mask (p.drop 7 ++ w) ++ mask_bearer ((p.drop 7 ++ w).dropWhile in_tok) := by
  have hlen := reads_bearer_length h
  obtain ⟨c, cs, rfl⟩ : ∃ c cs, p = c :: cs := by
    cases p with
    | nil => simp at hlen
    | cons c cs => exact ⟨c, cs, rfl⟩
  rw [List.cons_append, mask_bearer, ← List.cons_append, if_pos (reads_append h w),
    List.take_append_of_le_length hlen, List.drop_append_of_le_length hlen]

/-- What is behind a blank is masked by what is in front of it only inside a token. -/
theorem mask_bearer_append (m : Bytes) (hword : at_word m) :
    ∃ done, (in_token m = true → ∃ c ∈ done, lower c = 98) ∧
      ∀ w, mask_bearer (m ++ w) = done ++ masked_from (in_token m) w := by
  fun_induction in_token m with
  | case1 => exact ⟨[], by simp, fun w => rfl⟩
  | case2 c cs hreads ih =>
    have hword' : at_word ((c :: cs).drop 7) := at_word_suffix hword (List.drop_suffix 7 _)
    have hb : ∃ d ∈ (c :: cs).take 7, lower d = 98 :=
      ⟨c, by simp, (List.cons_prefix_cons.1 ((reads_iff _ _).1 hreads)).1.symm⟩
    by_cases hrest : ((c :: cs).drop 7).dropWhile in_tok = []
    · -- The token is still open.
      have hall := all_of_dropWhile_nil hrest
      refine ⟨(c :: cs).take 7 ++ mask ((c :: cs).drop 7), fun _ => ?_, fun w => ?_⟩
      · obtain ⟨d, hd, hlower⟩ := hb
        exact ⟨d, List.mem_append_left _ hd, hlower⟩
      · rw [mask_bearer_reads hreads, hrest, List.dropWhile_append_of_pos hall]
        simp only [mask, List.takeWhile_append_of_pos hall, List.takeWhile_eq_self_iff.2 hall, masked_from,
          List.isEmpty_nil, Bool.true_or, if_pos, List.map_append, List.append_assoc]
    · obtain ⟨done, hdone, happend⟩ := ih (at_word_suffix hword' (List.dropWhile_suffix in_tok))
      rw [List.isEmpty_eq_false_iff.2 hrest, Bool.false_or]
      refine ⟨(c :: cs).take 7 ++ mask ((c :: cs).drop 7) ++ done, fun _ => ?_, fun w => ?_⟩
      · obtain ⟨d, hd, hlower⟩ := hb
        exact ⟨d, List.mem_append_left _ (List.mem_append_left _ hd), hlower⟩
      · rw [mask_bearer_reads hreads, mask_append_of_rest hrest, List.dropWhile_append,
          List.isEmpty_eq_false_iff.2 hrest, if_neg Bool.false_ne_true, happend]
        simp only [List.append_assoc]
  | case3 c cs hreads ih =>
    obtain ⟨done, hdone, happend⟩ := ih (at_word_suffix hword (List.suffix_cons c cs))
    refine ⟨c :: done, fun htok => ?_, fun w => ?_⟩
    · obtain ⟨d, hd, hlower⟩ := hdone htok
      exact ⟨d, List.mem_cons_of_mem c hd, hlower⟩
    · have hnone : ¬reads bearer (c :: (cs ++ w)) = true :=
        fun h => hreads (reads_bearer_of_append hword (List.cons_ne_nil c cs) h)
      rw [List.cons_append, mask_bearer, if_neg hnone, happend, List.cons_append]

/-- A byte that cannot begin the key stays. -/
theorem mask_bearer_replicate {d : UInt8} (hd : lower d ≠ 98) (k : Nat) (a : Bytes) :
    mask_bearer (List.replicate k d ++ a) = List.replicate k d ++ mask_bearer a := by
  induction k with
  | zero => rfl
  | succ k ih =>
    have hnone : ¬reads bearer (d :: (List.replicate k d ++ a)) = true := by
      rw [reads_iff]
      exact fun h => hd (List.cons_prefix_cons.1 h).1.symm
    rw [List.replicate_succ, List.cons_append, mask_bearer, if_neg hnone, ih, List.cons_append]

/-! ## From line to line -/

/-- The line that the text leaves open. -/
def open_line (text : Bytes) : Bytes := text.rtakeWhile (· ≠ newline)

/-- A line begins with a NUL, where the redactor stops. -/
def stops (text : Bytes) : Prop := [newline, 0] <:+: newline :: text

theorem redact_nul {line : Bytes} (h : line.head? = some 0) : eink_log_ring_redact_inplace line = line := by
  cases line with
  | nil => cases h
  | cons c cs =>
    rw [eink_log_ring_redact_inplace, if_pos (Option.some.inj h)]

theorem redact_cons {l : Bytes} (hl : newline ∉ l) (h0 : l.head? ≠ some 0) (r : Bytes) :
    eink_log_ring_redact_inplace (l ++ newline :: r)
      = redact_line l ++ newline :: eink_log_ring_redact_inplace r := by
  have hall : ∀ c ∈ l, decide (c ≠ newline) = true := fun c hc => by
    simpa using fun h : c = newline => hl (h ▸ hc)
  have hmem : newline ∈ l ++ newline :: r := List.mem_append_right _ List.mem_cons_self
  have hline : line_at (l ++ newline :: r) = l := by
    rw [line_at, if_pos hmem, List.takeWhile_append_of_pos hall]
    simp
  have hnext : next_line (l ++ newline :: r) = r := by
    rw [next_line, List.dropWhile_append_of_pos hall]
    simp
  obtain ⟨c, cs, htext, hc⟩ : ∃ c cs, l ++ newline :: r = c :: cs ∧ c ≠ 0 := by
    cases l with
    | nil => exact ⟨newline, r, rfl, by decide⟩
    | cons c cs => exact ⟨c, cs ++ newline :: r, rfl, fun h => h0 (congrArg some h)⟩
  rw [htext] at hmem hline hnext ⊢
  rw [eink_log_ring_redact_inplace, if_neg hc, if_pos hmem, hline, hnext]

theorem redact_last {l : Bytes} (hl : newline ∉ l) (h0 : l.head? ≠ some 0) :
    eink_log_ring_redact_inplace l = redact_line (cstring l) ++ l.drop (cstring l).length := by
  cases l with
  | nil => simp [eink_log_ring_redact_inplace, redact_line, kill_nil, mask_bearer, cstring]
  | cons c cs =>
    have hc : c ≠ 0 := fun h => h0 (congrArg some h)
    rw [eink_log_ring_redact_inplace, if_neg hc, if_neg hl, line_at, if_neg hl]

theorem stops_of_notMem {l : Bytes} (hl : newline ∉ l) : stops l ↔ l.head? = some 0 := by
  rw [stops, List.infix_cons_iff]
  constructor
  · rintro (hpre | hinf)
    · cases l with
      | nil => simp at hpre
      | cons c cs =>
        have := (List.cons_prefix_cons.1 (List.cons_prefix_cons.1 hpre).2).1
        rw [List.head?_cons, this]
    · exact absurd (hinf.subset List.mem_cons_self) hl
  · intro h
    cases l with
    | nil => cases h
    | cons c cs => exact .inl (by simp [Option.some.inj h])

theorem stops_append {l : Bytes} (hl : newline ∉ l) (r : Bytes) :
    stops (l ++ newline :: r) ↔ l.head? = some 0 ∨ stops r := by
  rw [← stops_of_notMem hl, stops, ← List.cons_append, List.infix_append_iff_ne_nil]
  constructor
  · rintro (h | h | ⟨l₁, l₂, h₁, h₂, hkey, -, hpre⟩)
    · exact .inl h
    · exact .inr h
    · obtain ⟨c, l₁, rfl⟩ := List.exists_cons_of_ne_nil h₁
      obtain ⟨d, l₂, rfl⟩ := List.exists_cons_of_ne_nil h₂
      -- The NUL would be the newline.
      have hd := (List.cons_prefix_cons.1 hpre).1
      have hmem : newline ∈ [(0 : UInt8)] := by
        rw [show [(0 : UInt8)] = l₁ ++ d :: l₂ from (List.cons.inj hkey).2, hd]
        exact List.mem_append_right _ List.mem_cons_self
      exact absurd hmem (by decide)
  · rintro (h | h)
    · exact .inl h
    · exact .inr (.inl h)

theorem open_line_append (l r : Bytes) : open_line (l ++ newline :: r) = open_line r := by
  unfold open_line List.rtakeWhile
  rw [List.reverse_append, List.reverse_cons, List.append_assoc, List.takeWhile_append]
  split
  · next hall =>
    rw [(List.takeWhile_prefix _).eq_of_length hall]
    simp
  · rfl

theorem open_line_of_notMem {l : Bytes} (hl : newline ∉ l) : open_line l = l := by
  rw [open_line, List.rtakeWhile_eq_self_iff]
  exact fun c hc => by simpa using fun h : c = newline => hl (h ▸ hc)

theorem newline_notMem_open_line (text : Bytes) : newline ∉ open_line text := by
  intro h
  simpa using List.mem_rtakeWhile_imp h

theorem open_line_suffix (text : Bytes) : open_line text <:+ text := List.rtakeWhile_suffix _ _

/-- What holds of every text: either it is one line, or a first line with a text behind it. -/
theorem line_induction {P : Bytes → Prop} (last : ∀ l, newline ∉ l → P l)
    (cons : ∀ l r, newline ∉ l → P r → P (l ++ newline :: r)) (text : Bytes) : P text := by
  induction hn : text.length using Nat.strong_induction_on generalizing text with
  | _ n ih =>
    subst hn
    by_cases hmem : newline ∈ text
    · obtain ⟨l, r, rfl, hl⟩ := List.eq_append_cons_of_mem hmem
      exact cons l r hl (ih r.length (by simp; omega) r rfl)
    · exact last text hmem

/-- The open line begins at the start of the text or behind a newline. -/
theorem stops_open_line {text : Bytes} (h : stops (open_line text)) : stops text := by
  induction text using line_induction with
  | last l hl => rwa [open_line_of_notMem hl] at h
  | cons l r hl ih =>
    rw [open_line_append] at h
    exact (stops_append hl r).2 (.inr (ih h))

theorem head_open_line {text : Bytes} (h : ¬stops text) : (open_line text).head? ≠ some 0 := fun h0 =>
  h (stops_open_line ((stops_of_notMem (newline_notMem_open_line text)).2 h0))

/-- The text before a cut: the redactor either stops in it or goes on with the open line. -/
theorem redact_append (text : Bytes) :
    (stops text → ∃ done, ∀ w, eink_log_ring_redact_inplace (text ++ w) = done ++ w) ∧
    (¬stops text → ∃ done, ∀ w,
      eink_log_ring_redact_inplace (text ++ w) = done ++ eink_log_ring_redact_inplace (open_line text ++ w)) := by
  induction text using line_induction with
  | last l hl =>
    rw [stops_of_notMem hl, open_line_of_notMem hl]
    refine ⟨fun h0 => ⟨l, fun w => redact_nul ?_⟩, fun _ => ⟨[], fun w => rfl⟩⟩
    cases l with
    | nil => cases h0
    | cons c cs => exact h0
  | cons l r hl ih =>
    obtain ⟨hstops, hgoes⟩ := ih
    rw [stops_append hl, open_line_append]
    by_cases h0 : l.head? = some 0
    · refine ⟨fun _ => ⟨l ++ newline :: r, fun w => redact_nul ?_⟩, fun h => absurd (.inl h0) h⟩
      cases l with
      | nil => cases h0
      | cons c cs => exact h0
    · have hcons (w : Bytes) := redact_cons hl h0 (r ++ w)
      simp only [List.append_assoc, List.cons_append]
      constructor
      · rintro (h | h)
        · exact absurd h h0
        · obtain ⟨done, hdone⟩ := hstops h
          exact ⟨redact_line l ++ newline :: done, fun w => by rw [hcons, hdone]; simp⟩
      · intro h
        obtain ⟨done, hdone⟩ := hgoes fun hr => h (.inr hr)
        exact ⟨redact_line l ++ newline :: done, fun w => by rw [hcons, hdone]; simp⟩

end EinkNode.Log
