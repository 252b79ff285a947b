import EinkNode.Lib.CString
/-!
# Scans that stay inside a buffer

The string functions once more, as loops over a buffer. A read behind its last
byte has no result, and then the whole scan has none. From a place where a string
with its NUL stands in the buffer, every scan has a result, and it is the one of
the function on strings.
-/

namespace NodeLib

namespace Scan

/-! ## The loops -/

/-- The first `c` from `p` on, unless the NUL comes first. -/
def strchr (mem : Bytes) (p : Nat) (c : UInt8) : Option (Option Nat) :=
  match _h : mem[p]? with
  | none => none
  | some d => if d = c then some (some p) else if d = 0 then some none else strchr mem (p + 1) c
termination_by mem.length - p
decreasing_by
  have := (List.getElem?_eq_some_iff.1 _h).1
  omega

/-- Whether `key` stands at `p`. -/
def starts (mem : Bytes) (p : Nat) : Bytes → Option Bool
  | [] => some true
  | k :: key =>
    match mem[p]? with
    | none => none
    | some d => if d = k then starts mem (p + 1) key else some false

/-- The first place from `p` on where `key` stands. -/
def strstr (mem : Bytes) (p : Nat) (key : Bytes) : Option (Option Nat) :=
  match starts mem p key with
  | none => none
  | some true => some (some p)
  | some false =>
    match _h : mem[p]? with
    | none => none
    | some d => if d = 0 then some none else strstr mem (p + 1) key
termination_by mem.length - p
decreasing_by
  have := (List.getElem?_eq_some_iff.1 _h).1
  omega

/-- The first place from `p` on with a byte that `f` does not take. -/
def skip (f : UInt8 → Bool) (mem : Bytes) (p : Nat) : Option Nat :=
  match _h : mem[p]? with
  | none => none
  | some d => if f d then skip f mem (p + 1) else some p
termination_by mem.length - p
decreasing_by
  have := (List.getElem?_eq_some_iff.1 _h).1
  omega

/-- At most `n` bytes up to `q` or the NUL. -/
def copy_until (q : UInt8) (mem : Bytes) (p : Nat) : Nat → Option Bytes
  | 0 => some []
  | n + 1 =>
    match mem[p]? with
    | none => none
    | some d => if d = 0 ∨ d = q then some [] else (copy_until q mem (p + 1) n).map (d :: ·)

/-- `memcpy` from `p`. -/
def read_n (mem : Bytes) (p n : Nat) : Option Bytes :=
  if p + n ≤ mem.length then some ((mem.drop p).take n) else none

/-- The string at `p`, read up to its NUL. -/
def text (mem : Bytes) (p : Nat) : Option Bytes :=
  match _h : mem[p]? with
  | none => none
  | some d => if d = 0 then some [] else (text mem (p + 1)).map (d :: ·)
termination_by mem.length - p
decreasing_by
  have := (List.getElem?_eq_some_iff.1 _h).1
  omega

/-! ## Where a string stands -/

/-- The string `s` stands at `p`, with its NUL behind it. -/
structure At (mem : Bytes) (p : Nat) (s : Bytes) : Prop where
  there : ∃ rest, mem.drop p = s ++ 0 :: rest
  noNul : (0 : UInt8) ∉ s

variable {mem s t key : Bytes} {p : Nat} {c q : UInt8} {f : UInt8 → Bool}

theorem At.start (h : (0 : UInt8) ∉ s) (rest : Bytes) : At (s ++ 0 :: rest) 0 s := ⟨⟨rest, rfl⟩, h⟩

theorem At.end (h : At mem p []) : mem[p]? = some 0 := by
  obtain ⟨rest, hrest⟩ := h.there
  rw [← List.head?_drop, hrest]
  rfl

theorem At.head (h : At mem p (c :: s)) : mem[p]? = some c := by
  obtain ⟨rest, hrest⟩ := h.there
  rw [← List.head?_drop, hrest]
  rfl

theorem At.ne_zero (h : At mem p (c :: s)) : c ≠ 0 := fun hc => h.noNul (hc ▸ List.mem_cons_self)

theorem At.drop (h : At mem p s) {k : Nat} (hk : k ≤ s.length) : At mem (p + k) (s.drop k) := by
  obtain ⟨rest, hrest⟩ := h.there
  refine ⟨⟨rest, ?_⟩, fun hmem => h.noNul (List.mem_of_mem_drop hmem)⟩
  rw [← List.drop_drop, hrest, List.drop_append_of_le_length hk]

theorem At.tail (h : At mem p (c :: s)) : At mem (p + 1) s := h.drop (Nat.le_add_left 1 s.length)

theorem At.suffix (h : At mem p s) (ht : t <:+ s) : At mem (p + (s.length - t.length)) t := by
  have hdrop := h.drop (Nat.sub_le s.length t.length)
  rwa [← List.suffix_iff_eq_drop.1 ht] at hdrop

/-- One step to the right, and one byte less. -/
theorem next_place {o : Option Bytes} (ho : ∀ t, o = some t → t.length ≤ s.length) :
    (o.map fun t => p + 1 + (s.length - t.length)) = o.map fun t => p + ((c :: s).length - t.length) := by
  cases o with
  | none => rfl
  | some t =>
    have hle := ho t rfl
    simp only [Option.map_some, List.length_cons, Option.some.injEq]
    omega

/-! ## What the scans find -/

theorem strchr_cons (d : UInt8) (s : Bytes) (c : UInt8) :
    NodeLib.strchr (d :: s) c = if d = c then some (d :: s) else NodeLib.strchr s c := by
  unfold NodeLib.strchr
  by_cases hd : d = c
  · rw [List.dropWhile_cons_of_neg (by simp [hd]), if_pos hd]
  · rw [List.dropWhile_cons_of_pos (by simp [hd]), if_neg hd]

theorem suffix_of_strchr (h : NodeLib.strchr s c = some t) : t <:+ s := by
  unfold NodeLib.strchr at h
  split at h
  · cases h
  · cases h
    exact List.dropWhile_suffix _

theorem cons_of_strchr (h : NodeLib.strchr s c = some t) : ∃ t', t = c :: t' := by
  induction s with
  | nil => cases h
  | cons d s ih =>
    rw [strchr_cons] at h
    split at h
    · next hd =>
      cases h
      exact ⟨s, by rw [hd]⟩
    · exact ih h

theorem strchr_eq (h : At mem p s) (hc : c ≠ 0) :
    strchr mem p c = some ((NodeLib.strchr s c).map fun t => p + (s.length - t.length)) := by
  induction s generalizing p with
  | nil =>
    rw [strchr, h.end]
    simp [hc.symm, NodeLib.strchr]
  | cons d s ih =>
    rw [strchr, h.head, strchr_cons]
    simp only [h.ne_zero, if_false, ih h.tail]
    by_cases hd : d = c
    · simp [hd]
    · rw [if_neg hd, if_neg hd, next_place fun t ht => (suffix_of_strchr ht).length_le]

theorem starts_eq (h : At mem p s) (hkey : (0 : UInt8) ∉ key) : starts mem p key = some (key.isPrefixOf s) := by
  induction key generalizing p s with
  | nil => simp [starts]
  | cons k key ih =>
    have hk : k ≠ 0 := fun h => hkey (h ▸ List.mem_cons_self)
    cases s with
    | nil => simp [starts, h.end, hk.symm]
    | cons d s =>
      rw [starts, h.head]
      by_cases hd : d = k
      · simp [hd, ih h.tail fun h => hkey (List.mem_cons_of_mem k h)]
      · have hk : k ≠ d := fun h => hd h.symm
        simp [hd, List.isPrefixOf, hk]

theorem suffix_of_strstr (h : NodeLib.strstr s key = some t) : t <:+ s := by
  induction s with
  | nil =>
    unfold NodeLib.strstr at h
    split at h
    · cases h
      exact List.suffix_rfl
    · cases h
  | cons d s ih =>
    unfold NodeLib.strstr at h
    split at h
    · cases h
      exact List.suffix_rfl
    · exact (ih h).trans (List.suffix_cons d s)

theorem prefix_of_strstr (h : NodeLib.strstr s key = some t) : key <+: t := by
  induction s with
  | nil =>
    unfold NodeLib.strstr at h
    split at h
    · next hkey =>
      cases h
      exact List.isPrefixOf_iff_prefix.1 hkey
    · cases h
  | cons d s ih =>
    unfold NodeLib.strstr at h
    split at h
    · next hkey =>
      cases h
      exact List.isPrefixOf_iff_prefix.1 hkey
    · exact ih h

theorem strstr_eq (h : At mem p s) (hkey : (0 : UInt8) ∉ key) :
    strstr mem p key = some ((NodeLib.strstr s key).map fun t => p + (s.length - t.length)) := by
  induction s generalizing p with
  | nil =>
    rw [strstr, starts_eq h hkey, NodeLib.strstr, h.end]
    cases key.isPrefixOf [] <;> simp
  | cons d s ih =>
    rw [strstr, starts_eq h hkey, NodeLib.strstr, h.head]
    simp only [h.ne_zero, if_false, ih h.tail]
    cases key.isPrefixOf (d :: s) with
    | true => simp
    | false =>
      rw [if_neg Bool.false_ne_true, next_place fun t ht => (suffix_of_strstr ht).length_le]

theorem skip_eq (h : At mem p s) (hf : f 0 = false) : skip f mem p = some (p + (s.takeWhile f).length) := by
  induction s generalizing p with
  | nil =>
    rw [skip, h.end]
    simp [hf]
  | cons d s ih =>
    rw [skip, h.head]
    by_cases hd : f d = true
    · simp only [hd, if_true, ih h.tail, List.takeWhile_cons_of_pos hd, List.length_cons, Option.some.injEq]
      omega
    · simp [hd]

theorem At.skipped (h : At mem p s) (f : UInt8 → Bool) : At mem (p + (s.takeWhile f).length) (s.dropWhile f) := by
  have hrest : s.drop (s.takeWhile f).length = s.dropWhile f :=
    (congrArg (List.drop (s.takeWhile f).length) List.takeWhile_append_dropWhile.symm).trans (List.drop_left' rfl)
  rw [← hrest]
  exact h.drop (List.takeWhile_prefix f).length_le

theorem copy_until_eq (h : At mem p s) (n : Nat) :
    copy_until q mem p n = some ((s.takeWhile (· ≠ q)).take n) := by
  induction n generalizing p s with
  | zero => simp [copy_until]
  | succ n ih =>
    cases s with
    | nil => simp [copy_until, h.end]
    | cons d s =>
      rw [copy_until, h.head]
      by_cases hd : d = q
      · simp [hd]
      · simp [h.ne_zero, hd, ih h.tail]

theorem read_n_eq (h : At mem p s) {n : Nat} (hn : n ≤ s.length) : read_n mem p n = some (s.take n) := by
  obtain ⟨rest, hrest⟩ := h.there
  have hlen := congrArg List.length hrest
  rw [List.length_drop, List.length_append, List.length_cons] at hlen
  rw [read_n, if_pos (by omega), hrest, List.take_append_of_le_length hn]

theorem text_eq (h : At mem p s) : text mem p = some s := by
  induction s generalizing p with
  | nil =>
    rw [text, h.end]
    simp
  | cons d s ih =>
    rw [text, h.head]
    simp [h.ne_zero, ih h.tail]

end Scan

end NodeLib
