import EinkNode.Lib.CString
/-!
# Searching quoted text

A text with quotes is a list of segments, none of which has a quote, with a
quote between any two. `strstr` for a word in quotes finds the first segment
that is the word and stands between two quotes, wherever it comes from.
-/

namespace NodeLib

/-! ## Searching -/

theorem strchr_of_notMem {s : Bytes} {c : UInt8} (h : c ∉ s) : strchr s c = none := by
  have hall : s.dropWhile (· ≠ c) = [] := List.dropWhile_eq_nil_iff.2 (ne_of_notMem h)
  rw [strchr, hall]

theorem strchr_append {s : Bytes} {c : UInt8} (h : c ∉ s) (rest : Bytes) :
    strchr (s ++ c :: rest) c = some (c :: rest) := by
  have hskip : (s ++ c :: rest).dropWhile (· ≠ c) = c :: rest := by
    rw [List.dropWhile_append_of_pos (ne_of_notMem h), List.dropWhile_cons_of_neg]
    simp
  rw [strchr, hskip]

theorem strstr_cons_of_ne {c : UInt8} {s key : Bytes} (h : ¬key <+: c :: s) : strstr (c :: s) key = strstr s key := by
  rw [strstr, if_neg]
  rwa [List.isPrefixOf_iff_prefix]

theorem strstr_of_starts {s key : Bytes} (h : key <+: s) : strstr s key = some s := by
  obtain ⟨rest, rfl⟩ := h
  exact strstr_self key rest

/-- What has not the first byte of the key is passed over. -/
theorem strstr_skip {q : UInt8} {s : Bytes} (h : q ∉ s) (rest key : Bytes) :
    strstr (s ++ rest) (q :: key) = strstr rest (q :: key) := by
  induction s with
  | nil => rfl
  | cons c s ih =>
    rw [List.mem_cons, not_or] at h
    rw [List.cons_append, strstr_cons_of_ne, ih h.2]
    rw [List.cons_prefix_cons]
    exact fun hp => h.1 hp.1

theorem strstr_of_notMem {q : UInt8} {s : Bytes} (h : q ∉ s) (key : Bytes) : strstr s (q :: key) = none := by
  have hskip := strstr_skip h [] key
  rw [List.append_nil] at hskip
  rw [hskip]
  rfl

/-! ## Segments -/

variable {q : UInt8}

/-- The segments with a `q` between any two. -/
def joined (q : UInt8) : List Bytes → Bytes
  | [] => []
  | [s] => s
  | s :: t :: ss => s ++ q :: joined q (t :: ss)

theorem joined_append_cons (ss : List Bytes) (s rest : Bytes) (ts : List Bytes) :
    joined q (ss ++ (s ++ rest) :: ts) = joined q (ss ++ [s]) ++ joined q (rest :: ts) := by
  induction ss with
  | nil =>
    cases ts with
    | nil => rfl
    | cons t ts => simp [joined]
  | cons u ss ih =>
    cases ss with
    | nil =>
      rw [List.nil_append] at ih
      rw [List.cons_append, List.nil_append, joined, ih]
      simp [joined]
    | cons v ss =>
      rw [List.cons_append] at ih
      rw [List.cons_append, List.cons_append, joined, ih]
      simp [joined]

theorem mem_joined {c : UInt8} {ss : List Bytes} (h : c ∈ joined q ss) : c = q ∨ ∃ s ∈ ss, c ∈ s := by
  induction ss with
  | nil => cases h
  | cons s ss ih =>
    cases ss with
    | nil => exact .inr ⟨s, by simp, h⟩
    | cons t ss =>
      rw [joined, List.mem_append, List.mem_cons] at h
      rcases h with h | h | h
      · exact .inr ⟨s, by simp, h⟩
      · exact .inl h
      · exact (ih h).imp_right fun ⟨u, hu, hc⟩ => ⟨u, List.mem_cons_of_mem _ hu, hc⟩

/-- What comes after the first segment that is `key`, which is not the last one. -/
def after_key (key : Bytes) : List Bytes → Option (List Bytes)
  | s :: t :: ss => if s = key then some (t :: ss) else after_key key (t :: ss)
  | _ => none

theorem after_key_some {key : Bytes} {ss r : List Bytes} (h : after_key key ss = some r) :
    r ≠ [] ∧ ∀ t ∈ r, t ∈ ss := by
  induction ss with
  | nil => cases h
  | cons s ss ih =>
    cases ss with
    | nil => cases h
    | cons t ss =>
      rw [after_key] at h
      split at h
      · cases h
        exact ⟨List.cons_ne_nil _ _, fun u hu => List.mem_cons_of_mem _ hu⟩
      · exact ⟨(ih h).1, fun u hu => List.mem_cons_of_mem _ ((ih h).2 u hu)⟩

/-- A word before a quote is known from what stands before the next quote. -/
theorem eq_of_quoted {key t rest : Bytes} (hkey : q ∉ key) (ht : q ∉ t) (h : key ++ [q] <+: t ++ q :: rest) :
    t = key := by
  induction key generalizing t with
  | nil =>
    cases t with
    | nil => rfl
    | cons c t =>
      rw [List.nil_append, List.cons_append, List.cons_prefix_cons] at h
      exact absurd (h.1 ▸ List.mem_cons_self) ht
  | cons k key ih =>
    rw [List.mem_cons, not_or] at hkey
    cases t with
    | nil =>
      rw [List.nil_append, List.cons_append, List.cons_prefix_cons] at h
      exact absurd h.1.symm hkey.1
    | cons c t =>
      rw [List.cons_append, List.cons_append, List.cons_prefix_cons] at h
      rw [List.mem_cons, not_or] at ht
      rw [ih hkey.2 ht.2 h.2, h.1]

/-- The text behind a key in quotes. -/
theorem strstr_joined {key s : Bytes} {ss : List Bytes} (hkey : q ∉ key) (hs : ∀ t ∈ s :: ss, q ∉ t) :
    (strstr (joined q (s :: ss)) (q :: (key ++ [q]))).map (·.drop (key.length + 2)) =
      (after_key key ss).map (joined q) := by
  induction ss generalizing s with
  | nil =>
    rw [joined, strstr_of_notMem (hs s (by simp))]
    rfl
  | cons t ss ih =>
    rw [joined, strstr_skip (hs s (by simp))]
    have ih := ih fun u hu => hs u (List.mem_cons_of_mem _ hu)
    cases ss with
    | nil =>
      have hmiss : ¬q :: (key ++ [q]) <+: q :: t := by
        rw [List.cons_prefix_cons]
        rintro ⟨-, hp⟩
        exact hs t (by simp) (hp.subset (by simp))
      rw [joined, strstr_cons_of_ne hmiss, strstr_of_notMem (hs t (by simp))]
      rfl
    | cons u us =>
      by_cases htk : t = key
      · subst htk
        have hhit : q :: (t ++ [q]) <+: q :: joined q (t :: u :: us) := by
          rw [List.cons_prefix_cons]
          exact ⟨rfl, joined q (u :: us), by simp [joined]⟩
        rw [strstr_of_starts hhit, after_key, if_pos rfl]
        simp [joined]
      · have hmiss : ¬q :: (key ++ [q]) <+: q :: joined q (t :: u :: us) := by
          rw [List.cons_prefix_cons]
          exact fun hp => htk (eq_of_quoted hkey (hs t (by simp)) hp.2)
        rw [strstr_cons_of_ne hmiss, ih, after_key, if_neg htk]

theorem takeWhile_joined {s : Bytes} (h : q ∉ s) (ss : List Bytes) : (joined q (s :: ss)).takeWhile (· ≠ q) = s := by
  have hall := ne_of_notMem h
  cases ss with
  | nil => exact List.takeWhile_eq_self_iff.2 hall
  | cons t ss =>
    rw [joined, List.takeWhile_append_of_pos hall, List.takeWhile_cons_of_neg (by simp), List.append_nil]

theorem strchr_joined {s : Bytes} (h : q ∉ s) (ss : List Bytes) :
    (strchr (joined q (s :: ss)) q).map (·.drop 1) = if ss = [] then none else some (joined q ss) := by
  cases ss with
  | nil =>
    rw [show joined q [s] = s from rfl, strchr_of_notMem h]
    rfl
  | cons t ss =>
    rw [joined, strchr_append h]
    rfl

end NodeLib
