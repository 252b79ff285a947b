import EinkNode.Log.Redact
/-!
# Secrets in a redacted text

The text of a secret is cut in three: what is shown of the text before it, the
secret's own bytes and what follows. `Covered` says when the bytes of the secret
do not show in the redacted text.
-/
open NodeLib

namespace EinkNode.Log

/-- `eink creds <args>` or `Bearer <token>`. -/
inductive Secret
  | creds
  | token
deriving DecidableEq

namespace Secret

def marker : Secret → Bytes
  | creds => ascii "eink creds "
  | token => ascii "Bearer "

/-- The bytes that a secret is made of. It goes on up to the first other byte. -/
def allows : Secret → UInt8 → Bool
  | creds, c => c != newline && c != 0
  | token, c => c != newline && c != 0 && c != blank && c != cr

/-- The secrets of `k` bytes. -/
structure Fits (kind : Secret) (k : Nat) (v : Bytes) : Prop where
  length : v.length = k
  allowed : ∀ c ∈ v, kind.allows c = true

/-- The secret is over where `after` begins. -/
def Over (kind : Secret) (after : Bytes) : Prop := ∀ c, after.head? = some c → kind.allows c = false

end Secret

/-- The redactor gets to the line of the secret, takes it whole, and either
overwrites it or masks the secret. A masked token must not itself complete the
text that marks a line of credentials. -/
structure Covered (before : Bytes) (shown : Nat) (after : Bytes) : Prop where
  reached : ¬stops before
  whole : newline ∈ after ∨ 0 ∉ open_line before
  caught : kill (open_line before) = true ∨ kill (line_at after) = true ∨
    in_token (open_line before) = true ∧ ¬(4 ≤ shown ∧ reads (ascii " cred") (line_at after) = true)

variable {kind : Secret} {m v a before after head : Bytes} {k : Nat}

theorem newline_notMem_of_fits (h : kind.Fits k v) : newline ∉ v := by
  intro hmem
  have := h.allowed _ hmem
  cases kind <;> exact absurd this (by decide)

theorem zero_notMem_of_fits (h : kind.Fits k v) : (0 : UInt8) ∉ v := by
  intro hmem
  have := h.allowed _ hmem
  cases kind <;> exact absurd this (by decide)

theorem fits_replicate {d : UInt8} (hd : kind.allows d = true) (k : Nat) : kind.Fits k (List.replicate k d) :=
  ⟨List.length_replicate, fun _ hc => (List.eq_of_mem_replicate hc) ▸ hd⟩

theorem fits_eink (kind : Secret) (hk : 4 ≤ k) : kind.Fits k (List.replicate (k - 4) 48 ++ ascii "eink") := by
  have hword : ∀ c ∈ ascii "eink", kind.allows c = true := by
    cases kind <;> decide +kernel
  refine ⟨?_, fun c hc => ?_⟩
  · rw [List.length_append, List.length_replicate]
    exact Nat.sub_add_cancel hk
  · rcases List.mem_append.1 hc with hc | hc
    · rw [List.eq_of_mem_replicate hc]
      cases kind <;> decide
    · exact hword c hc

/-! ## The open line before a secret -/

theorem map_lower_marker (h : m <:+ head ++ kind.marker) :
    m.map lower <:+ head.map lower ++ kind.marker.map lower := by
  rw [← List.map_append]
  exact h.map lower

theorem at_word_of_marker (h : m <:+ head ++ kind.marker) : at_word m := by
  refine at_word_suffix (fun c hc => ?_) h
  cases kind <;>
    · rw [List.getLast?_append_of_ne_nil _ (by decide)] at hc
      exact (Option.some.inj hc).symm

theorem bearer_of_in_token (h : in_token m = true) : bearer <:+: m.map lower := by
  fun_induction in_token m with
  | case1 => cases h
  | case2 c cs hreads ih => exact ((reads_iff _ _).1 hreads).isInfix
  | case3 c cs hreads ih => exact (ih h).trans (List.suffix_cons _ _).isInfix

/-- A marker of credentials that is not wholly there does not leave a token open. -/
theorem kill_of_in_token (h : m <:+ head ++ Secret.creds.marker) (htok : in_token m = true) : kill m = true := by
  rcases List.suffix_or_suffix_of_suffix (map_lower_marker h) (List.suffix_append _ _) with hm | hm
  · have hnone : ¬bearer <:+: Secret.creds.marker.map lower := by decide
    exact absurd ((bearer_of_in_token htok).trans hm.isInfix) hnone
  · have hkey : eink_cred <:+: Secret.creds.marker.map lower := by decide
    exact (kill_iff m).2 (hkey.trans hm.isInfix)

/-- What can stand where a token is over. -/
theorem head_of_over (ha : Secret.token.Over a) {l : Bytes} (hl : l <+: a.map lower) :
    ∀ c, l.head? = some c → c ∈ [newline, 0, blank, cr] := by
  intro c hc
  obtain ⟨d, a, rfl⟩ : ∃ d a', a = d :: a' := by
    cases a with
    | nil =>
      rw [List.prefix_nil.1 hl] at hc
      cases hc
    | cons d a => exact ⟨d, a, rfl⟩
  cases l with
  | nil => cases hc
  | cons e l =>
    cases hc
    rw [(List.cons_prefix_cons.1 hl).1]
    have hd := ha d rfl
    simp only [Secret.allows, Bool.and_eq_false_iff, bne_eq_false_iff_eq] at hd
    rcases hd with ((rfl | rfl) | rfl) | rfl <;> decide

theorem eink_cred_split {l₁ l₂ : Bytes} (h₂ : l₂ ≠ []) (hkey : eink_cred = l₁ ++ l₂)
    (hhead : ∀ c, l₂.head? = some c → c ∈ [newline, 0, blank, cr]) : l₁.length = 4 ∧ l₂ = ascii " cred" := by
  have hall : ∀ l₁ ∈ eink_cred.inits, ∀ l₂ ∈ eink_cred.tails, l₁ ++ l₂ = eink_cred →
      (∃ c ∈ l₂.head?, c ∈ [newline, 0, blank, cr]) → l₁.length = 4 ∧ l₂ = ascii " cred" := by decide
  refine hall l₁ ((List.mem_inits _ _).2 ⟨l₂, hkey.symm⟩) l₂ ((List.mem_tails _ _).2 ⟨l₁, hkey.symm⟩) hkey.symm ?_
  obtain ⟨c, l₂, rfl⟩ := List.exists_cons_of_ne_nil h₂
  exact ⟨c, rfl, hhead c rfl⟩

/-- A token completes the marker of credentials only with its last four bytes. -/
theorem kill_of_token (hm : m <:+ head ++ Secret.token.marker) (hv : Secret.token.Fits k v)
    (ha : Secret.token.Over a) (h : kill (m ++ (v ++ a)) = true) :
    kill m = true ∨ kill a = true ∨ 4 ≤ k ∧ reads (ascii " cred") a = true := by
  have hparts : ∀ l₁ ∈ eink_cred.inits, l₁ ≠ [] → ¬(l₁ <:+ bearer ∨ bearer <:+ l₁) := by decide
  rw [kill_iff, List.map_append, List.infix_append_iff_ne_nil] at h
  rcases h with h | h | ⟨l₁, l₂, h₁, h₂, hkey, hsuffix, -⟩
  · exact .inl ((kill_iff m).2 h)
  · rw [List.map_append, List.infix_append_iff_ne_nil] at h
    rcases h with h | h | ⟨l₁, l₂, h₁, h₂, hkey, hsuffix, hpre⟩
    · have hblank : blank ∈ v.map lower := h.subset (by decide)
      obtain ⟨c, hc, hlower⟩ := List.mem_map.1 hblank
      have hallowed := hv.allowed c hc
      rw [(lower_eq_blank c).1 hlower] at hallowed
      exact absurd hallowed (by decide)
    · exact .inr (.inl ((kill_iff a).2 h))
    · obtain ⟨hlen, rfl⟩ := eink_cred_split h₂ hkey (head_of_over ha hpre)
      have := hsuffix.length_le
      rw [List.length_map, hv.length, hlen] at this
      exact .inr (.inr ⟨this, (reads_iff _ _).2 hpre⟩)
  · -- The text before the token ends in its own marker.
    refine absurd ?_ (hparts l₁ ((List.mem_inits _ _).2 ⟨l₂, hkey.symm⟩) h₁)
    exact List.suffix_or_suffix_of_suffix (hsuffix.trans (map_lower_marker hm)) (List.suffix_append _ _)

/-! ## The line of a secret -/

theorem line_at_mem {l r : Bytes} (hl : newline ∉ l) : line_at (l ++ newline :: r) = l := by
  rw [line_at, if_pos (List.mem_append_right _ List.mem_cons_self), List.takeWhile_append_of_pos (ne_of_notMem hl)]
  simp

theorem head_secret (hm : m.head? ≠ some 0) (hv : kind.Fits k v) (hk : 0 < k) (w : Bytes) :
    (m ++ (v ++ w)).head? ≠ some 0 := by
  cases m with
  | cons c m => exact hm
  | nil =>
    cases v with
    | nil => exact absurd hv.length (by simp; omega)
    | cons c v =>
      intro h
      exact zero_notMem_of_fits hv (Option.some.inj h ▸ List.mem_cons_self)

/-- The redactor gets to the secret, and takes its whole line. -/
theorem redact_secret (kind : Secret) (hreached : ¬stops before) (hwhole : newline ∈ after ∨ 0 ∉ open_line before)
    (hk : 0 < k) :
    ∃ done rest, ∀ v, kind.Fits k v → eink_log_ring_redact_inplace (before ++ (v ++ after))
      = done ++ (redact_line (open_line before ++ (v ++ line_at after)) ++ rest) := by
  obtain ⟨done, hdone⟩ := (redact_append before).2 hreached
  have hm := newline_notMem_open_line before
  have h0 := head_open_line hreached
  by_cases hnl : newline ∈ after
  · obtain ⟨a, r, rfl, ha⟩ := List.eq_append_cons_of_mem hnl
    refine ⟨done, newline :: eink_log_ring_redact_inplace r, fun v hv => ?_⟩
    have hline : newline ∉ open_line before ++ (v ++ a) := by
      simp [hm, newline_notMem_of_fits hv, ha]
    have hcons := redact_cons hline (head_secret h0 hv hk a) r
    rw [hdone, line_at_mem ha, ← hcons]
    simp only [List.append_assoc]
  · have h0m := hwhole.resolve_left hnl
    refine ⟨done, after.drop (cstring after).length, fun v hv => ?_⟩
    have hline : newline ∉ open_line before ++ (v ++ after) := by
      simp [hm, newline_notMem_of_fits hv, hnl]
    have hstring : cstring (open_line before ++ (v ++ after)) = open_line before ++ (v ++ cstring after) := by
      rw [cstring_append h0m, cstring_append (zero_notMem_of_fits hv)]
    rw [hdone, redact_last hline (head_secret h0 hv hk after), hstring, line_at, if_neg hnl, List.length_append,
      List.length_append, List.drop_length_add_append, List.drop_length_add_append]

/-- The redactor stops before the secret, or takes the line only up to a NUL in front of it. -/
theorem redact_beyond (kind : Secret) (h : stops before ∨ newline ∉ after ∧ 0 ∈ open_line before) (hk : 0 < k) :
    ∃ done rest, ∀ v, kind.Fits k v →
      eink_log_ring_redact_inplace (before ++ (v ++ after)) = done ++ (v ++ rest) := by
  by_cases hstops : stops before
  · obtain ⟨done, hdone⟩ := (redact_append before).1 hstops
    exact ⟨done, after, fun v _ => hdone _⟩
  · obtain ⟨hnl, hmem⟩ := h.resolve_left hstops
    obtain ⟨done, hdone⟩ := (redact_append before).2 hstops
    obtain ⟨x, y, hxy, hx⟩ := List.eq_append_cons_of_mem hmem
    have hcut (w : Bytes) : cstring (open_line before ++ w) = x := by
      rw [hxy, List.append_assoc, cstring_append hx]
      simp [cstring]
    refine ⟨done ++ redact_line x ++ 0 :: y, after, fun v hv => ?_⟩
    have hline : newline ∉ open_line before ++ (v ++ after) := by
      simp [newline_notMem_open_line before, newline_notMem_of_fits hv, hnl]
    rw [hdone, redact_last hline (head_secret (head_open_line hstops) hv hk after), hcut, hxy]
    simp

/-- A line that is overwritten keeps its length only. -/
theorem redact_line_kill (h : kill m = true ∨ kill a = true) (hv : v.length = k) :
    redact_line (m ++ (v ++ a)) = wiped (m.length + (k + a.length)) := by
  have hkill : kill (m ++ (v ++ a)) = true := by
    rcases h with h | h
    · exact kill_append_left h _
    · exact kill_append_right m (kill_append_right v h)
  rw [redact_line, if_pos hkill, List.length_append, List.length_append, hv]

/-- A token is masked if the line before it has begun it, and if it is not overwritten. -/
theorem redact_line_token (hword : at_word m) (htok : in_token m = true) :
    ∃ done rest, (∃ c ∈ done, lower c = 98) ∧ ∀ v, v.length = k → (∀ c ∈ v, in_tok c = true) →
      kill (m ++ (v ++ a)) = false → redact_line (m ++ (v ++ a)) = done ++ (List.replicate k 120 ++ rest) := by
  obtain ⟨done, hdone, happend⟩ := mask_bearer_append m hword
  refine ⟨done, mask a ++ mask_bearer (a.dropWhile in_tok), hdone htok, fun v hlen hv hkill => ?_⟩
  rw [redact_line, hkill, if_neg Bool.false_ne_true, happend, masked_from, if_pos htok,
    List.dropWhile_append_of_pos hv, mask, List.takeWhile_append_of_pos hv, List.map_append, List.map_const',
    hlen, List.append_assoc, mask]

theorem kill_digits {d : UInt8} (hd : lower d ∉ eink_cred) (hk : 0 < k) (hm : kill m = false) (ha : kill a = false) :
    kill (m ++ (List.replicate k d ++ a)) = false := by
  obtain ⟨k, rfl⟩ := Nat.exists_eq_succ_of_ne_zero (Nat.ne_of_gt hk)
  refine Bool.eq_false_iff.2 fun h => ?_
  rcases kill_split hd h with h | h
  · exact absurd (hm.symm.trans h) Bool.false_ne_true
  · exact absurd (ha.symm.trans (kill_replicate hd k h)) Bool.false_ne_true

/-- Digits show in a line that is neither overwritten nor masked there. -/
theorem redact_line_shows (hword : at_word m) (hm : kill m = false) (ha : kill a = false)
    (htok : in_token m = false) (hk : 0 < k) :
    ∃ done rest, ∀ d, lower d ∉ eink_cred → lower d ≠ 98 →
      redact_line (m ++ (List.replicate k d ++ a)) = done ++ (List.replicate k d ++ rest) := by
  obtain ⟨done, -, happend⟩ := mask_bearer_append m hword
  refine ⟨done, mask_bearer a, fun d hd hb => ?_⟩
  rw [redact_line, kill_digits hd hk hm ha, if_neg Bool.false_ne_true, happend, masked_from, htok,
    if_neg Bool.false_ne_true, mask_bearer_replicate hb]

theorem lower_wiped (n : Nat) : ∀ c ∈ wiped n, lower c ≠ 98 := by
  have hrep : ∀ c ∈ rep, lower c ≠ 98 := by decide +kernel
  intro c hc
  rcases List.mem_append.1 hc with hc | hc
  · exact hrep c (List.mem_of_mem_take hc)
  · rw [List.eq_of_mem_replicate hc]
    decide

/-- A token that ends in `eink`, in front of ` cred`: its line is overwritten, the line
of another token is not. -/
theorem redact_line_completed (hword : at_word m) (hm : kill m = false) (ha : kill a = false)
    (htok : in_token m = true) (hk : 0 < k) (hcred : reads (ascii " cred") a = true) (x : Bytes) :
    redact_line (m ++ (List.replicate k 48 ++ a)) ≠ redact_line (m ++ ((x ++ ascii "eink") ++ a)) := by
  have hkill : kill (m ++ ((x ++ ascii "eink") ++ a)) = true := by
    rw [List.append_assoc x]
    refine kill_append_right m (kill_append_right x ((kill_iff _).2 ?_))
    have hkey : eink_cred = (ascii "eink").map lower ++ ascii " cred" := by decide
    obtain ⟨t, ht⟩ := (reads_iff _ _).1 hcred
    rw [List.map_append, ← ht, hkey]
    exact ⟨[], t, by rw [List.nil_append, List.append_assoc]⟩
  have hdigits : kill (m ++ (List.replicate k 48 ++ a)) = false := kill_digits (by decide) hk hm ha
  obtain ⟨done, hdone, happend⟩ := mask_bearer_append m hword
  obtain ⟨c, hc, hlower⟩ := hdone htok
  intro heq
  rw [redact_line, redact_line, hdigits, hkill, if_neg Bool.false_ne_true, if_pos rfl, happend] at heq
  exact lower_wiped _ c (heq ▸ List.mem_append_left _ hc) hlower

/-! ## When a secret is covered -/

theorem digits_ne (hk : 0 < k) (done rest : Bytes) :
    done ++ (List.replicate k 48 ++ rest) ≠ done ++ (List.replicate k 49 ++ rest) := by
  obtain ⟨k, rfl⟩ := Nat.exists_eq_succ_of_ne_zero (Nat.ne_of_gt hk)
  intro h
  have hhead := List.append_cancel_left h
  exact absurd (List.cons.inj hhead).1 (by decide)

theorem in_tok_of_fits (hv : Secret.token.Fits k v) : ∀ c ∈ v, in_tok c = true := by
  intro c hc
  have := hv.allowed c hc
  simp only [Secret.allows, Bool.and_eq_true] at this
  rw [in_tok, Bool.and_eq_true]
  exact ⟨this.1.2, this.2⟩

theorem over_line_at (h : kind.Over after) : kind.Over (line_at after) := by
  have hpre : line_at after <+: after := by
    unfold line_at
    split
    · exact List.takeWhile_prefix _
    · exact List.takeWhile_prefix _
  intro c hc
  obtain ⟨t, ht⟩ := hpre
  refine h c ?_
  rw [← ht, List.head?_append, hc]
  rfl

/-- The redacted text does not depend on the bytes of the secret exactly if the secret is covered. -/
theorem covered_iff (hk : 0 < k) (hbefore : before <:+ head ++ kind.marker) (hafter : kind.Over after) :
    (∀ v w, kind.Fits k v → kind.Fits k w →
      eink_log_ring_redact_inplace (before ++ (v ++ after)) = eink_log_ring_redact_inplace (before ++ (w ++ after)))
    ↔ Covered before k after := by
  have hm := (open_line_suffix before).trans hbefore
  have hword := at_word_of_marker hm
  have h0 : kind.Fits k (List.replicate k 48) := fits_replicate (by cases kind <;> decide) k
  have h1 : kind.Fits k (List.replicate k 49) := fits_replicate (by cases kind <;> decide) k
  constructor
  · intro hidden
    have hwalk : ¬(stops before ∨ newline ∉ after ∧ 0 ∈ open_line before) := by
      intro h
      obtain ⟨done, rest, hshows⟩ := redact_beyond kind h hk
      have heq := hidden _ _ h0 h1
      rw [hshows _ h0, hshows _ h1] at heq
      exact digits_ne hk _ _ heq
    have hreached : ¬stops before := fun h => hwalk (.inl h)
    have hwhole : newline ∈ after ∨ 0 ∉ open_line before := by
      by_contra h
      exact hwalk (.inr (by simpa using h))
    obtain ⟨done, rest, hline⟩ := redact_secret kind hreached hwhole hk
    have hlines (v w : Bytes) (hv : kind.Fits k v) (hw : kind.Fits k w) :
        redact_line (open_line before ++ (v ++ line_at after)) =
          redact_line (open_line before ++ (w ++ line_at after)) := by
      have heq := hidden v w hv hw
      rw [hline v hv, hline w hw] at heq
      exact List.append_cancel_right (List.append_cancel_left heq)
    refine ⟨hreached, hwhole, ?_⟩
    by_contra hcaught
    simp only [not_or, Bool.not_eq_true] at hcaught
    obtain ⟨hkm, hka, htoken⟩ := hcaught
    cases htok : in_token (open_line before) with
    | false =>
      obtain ⟨done, rest, hshows⟩ := redact_line_shows (k := k) hword hkm hka htok hk
      have heq := hlines _ _ h0 h1
      rw [hshows 48 (by decide) (by decide), hshows 49 (by decide) (by decide)] at heq
      exact digits_ne hk _ _ heq
    | true =>
      obtain ⟨hfour, hcred⟩ := not_not.1 fun h => htoken ⟨htok, h⟩
      have heink := fits_eink kind hfour
      exact redact_line_completed hword hkm hka htok hk hcred _ (hlines _ _ h0 heink)
  · rintro ⟨hreached, hwhole, hcaught⟩ v w hv hw
    obtain ⟨done, rest, hline⟩ := redact_secret kind hreached hwhole hk
    rw [hline v hv, hline w hw]
    congr 2
    by_cases hkill : kill (open_line before) = true ∨ kill (line_at after) = true
    · rw [redact_line_kill hkill hv.length, redact_line_kill hkill hw.length]
    · obtain ⟨htok, hnot⟩ := (or_assoc.2 hcaught).resolve_left hkill
      cases kind with
      | creds => exact absurd (.inl (kill_of_in_token hm htok)) hkill
      | token =>
        have hkept (u : Bytes) (hu : Secret.token.Fits k u) :
            kill (open_line before ++ (u ++ line_at after)) = false := by
          refine Bool.eq_false_iff.2 fun h => ?_
          rcases or_assoc.2 (kill_of_token hm hu (over_line_at hafter) h) with h | h
          · exact hkill h
          · exact hnot h
        obtain ⟨done, rest, -, hmasks⟩ := redact_line_token hword htok
        rw [hmasks v hv.length (in_tok_of_fits hv) (hkept v hv), hmasks w hw.length (in_tok_of_fits hw) (hkept w hw)]

end EinkNode.Log
