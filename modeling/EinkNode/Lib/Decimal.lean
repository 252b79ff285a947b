import EinkNode.Lib.CString
/-!
# Decimal numbers in text

Printing (`%u`, `%lld`) and reading (`%d` of `sscanf`, `strtoul`, `strtoll`)
of decimal numbers. Reading back what was printed gives the number again,
whatever text follows that does not begin with a digit.
-/

namespace NodeLib

/-! ## Reading -/

/-- `isspace` in the C locale. -/
def isSpace (c : UInt8) : Bool := c == 32 || (9 ≤ c && c ≤ 13)

def isDigit (c : UInt8) : Bool := 48 ≤ c && c ≤ 57

/-- The value of a run of digits. -/
def digitsVal (ds : Bytes) : Nat := ds.foldl (fun n c => 10 * n + (c.toNat - 48)) 0

/-- The sign in front of a number (`true` for minus) and what follows it. -/
def scanSign : Bytes → Bool × Bytes
  | [] => (false, [])
  | c :: s => if c = 45 then (true, s) else if c = 43 then (false, s) else (false, c :: s)

/-- One `%d` conversion: blanks, an optional sign, then at least one digit.
Numbers are unbounded: a text that does not fit an `int` is the callers' concern. -/
def scanInt (s : Bytes) : Option (Int × Bytes) :=
  let (neg, s) := scanSign (s.dropWhile isSpace)
  let ds := s.takeWhile isDigit
  if ds = [] then none
  else some (if neg then -(digitsVal ds : Int) else digitsVal ds, s.dropWhile isDigit)

/-- `sscanf(s, "%d %d", &a, &b)` when both conversions succeed. -/
def scanTwoInts (s : Bytes) : Option (Int × Int) := do
  let (a, s) ← scanInt s
  let (b, _) ← scanInt (s.dropWhile isSpace)
  return (a, b)

example : scanTwoInts (ascii "30 12 * * *") = some (30, 12) := by decide

/-- `strtoul(s, NULL, 10)` with a 32-bit `unsigned long`. -/
def strtoul (s : Bytes) : UInt32 :=
  let (neg, s) := scanSign (s.dropWhile isSpace)
  let v := digitsVal (s.takeWhile isDigit)
  if v > 4294967295 then 4294967295 else if neg then -(.ofNat v) else .ofNat v

/-- `strtoll(s, NULL, 10)`. -/
def strtoll (s : Bytes) : Int :=
  let (neg, s) := scanSign (s.dropWhile isSpace)
  let v : Int := digitsVal (s.takeWhile isDigit)
  if neg then max (-v) (-(2 ^ 63)) else min v (2 ^ 63 - 1)

theorem isDigit_iff {c : UInt8} : isDigit c = true ↔ 48 ≤ c.toNat ∧ c.toNat ≤ 57 := by
  simp only [isDigit, Bool.and_eq_true, decide_eq_true_eq, UInt8.le_iff_toNat_le]
  exact Iff.rfl

theorem isSpace_iff {c : UInt8} : isSpace c = true ↔ c.toNat = 32 ∨ 9 ≤ c.toNat ∧ c.toNat ≤ 13 := by
  simp only [isSpace, Bool.or_eq_true, beq_iff_eq, Bool.and_eq_true, decide_eq_true_eq, UInt8.le_iff_toNat_le,
    ← UInt8.toNat_inj]
  exact Iff.rfl

theorem isSpace_of_isDigit {c : UInt8} (h : isDigit c = true) : isSpace c = false := by
  rw [isDigit_iff] at h
  rw [Bool.eq_false_iff, ne_eq, isSpace_iff]
  omega

/-! ## Printing -/

def digit (n : Nat) : UInt8 := .ofNat (48 + n % 10)

/-- The digits of a number that has at most `k + 1` of them. -/
def digits : Nat → Nat → Bytes
  | 0, n => [digit n]
  | k + 1, n => if n < 10 then [digit n] else digits k (n / 10) ++ [digit n]

/-- `%u` -/
def decimal (n : Nat) : Bytes := digits n n

/-- `%lld` -/
def decimalInt (z : Int) : Bytes := if z < 0 then 45 :: decimal z.natAbs else decimal z.natAbs

theorem digits_of_le {k n : Nat} (h : n ≤ k) : digits k n = decimal n := by
  induction k using Nat.strongRecOn generalizing n with
  | ind k ih =>
    rcases Nat.lt_or_eq_of_le h with hlt | rfl
    · obtain ⟨k, rfl⟩ := Nat.exists_eq_add_of_lt hlt
      cases n with
      | zero => rfl
      | succ n =>
        rw [decimal, digits, digits]
        split
        · rfl
        · rw [ih (n + 1 + k) (by omega) (by omega), ih n (by omega) (by omega)]
    · rfl

theorem decimal_eq (n : Nat) : decimal n = if n < 10 then [digit n] else decimal (n / 10) ++ [digit n] := by
  cases n with
  | zero => rfl
  | succ n => rw [decimal, digits, digits_of_le (by omega)]

theorem digit_toNat (n : Nat) : (digit n).toNat = 48 + n % 10 := by
  rw [digit, UInt8.toNat_ofNat', Nat.mod_eq_of_lt]
  omega

theorem isDigit_digit (n : Nat) : isDigit (digit n) = true := by
  rw [isDigit_iff, digit_toNat]
  omega

theorem digitsVal_concat (ds : Bytes) (c : UInt8) : digitsVal (ds ++ [c]) = 10 * digitsVal ds + (c.toNat - 48) := by
  simp [digitsVal]

/-- Printed digits stand for the number. -/
theorem digitsVal_decimal (n : Nat) : digitsVal (decimal n) = n := by
  induction n using Nat.strongRecOn with
  | ind n ih =>
    rw [decimal_eq]
    split
    · simp only [digitsVal, List.foldl_cons, List.foldl_nil, digit_toNat]
      omega
    · rw [digitsVal_concat, ih _ (by omega), digit_toNat]
      omega

theorem isDigit_of_mem_decimal {n : Nat} {c : UInt8} (h : c ∈ decimal n) : isDigit c = true := by
  induction n using Nat.strongRecOn with
  | ind n ih =>
    rw [decimal_eq] at h
    split at h
    · rw [List.mem_singleton.1 h, isDigit_digit]
    · rcases List.mem_append.1 h with h | h
      · exact ih _ (by omega) h
      · rw [List.mem_singleton.1 h, isDigit_digit]

theorem decimal_ne_nil (n : Nat) : decimal n ≠ [] := by
  rw [decimal_eq]; split <;> simp

/-- A number below `10 ^ k` prints in at most `k` digits. -/
theorem length_decimal_le {n k : Nat} (hk : 0 < k) (h : n < 10 ^ k) : (decimal n).length ≤ k := by
  induction n using Nat.strongRecOn generalizing k with
  | ind n ih =>
    rw [decimal_eq]
    split
    · exact hk
    · obtain ⟨k, rfl⟩ := Nat.exists_eq_add_of_le' hk
      have hk1 : 0 < k := by
        rcases k with _ | k
        · simp at h; omega
        · omega
      have := ih (n / 10) (by omega) hk1 (by rw [Nat.pow_succ] at h; omega)
      rw [List.length_append, List.length_singleton]
      omega

/-! ## Reading back -/

theorem takeWhile_isDigit_decimal (n : Nat) {rest : Bytes} (h : ∀ c ∈ rest.head?, isDigit c = false) :
    (decimal n ++ rest).takeWhile isDigit = decimal n := by
  rw [List.takeWhile_append_of_pos fun c hc => isDigit_of_mem_decimal hc]
  cases rest with
  | nil => simp
  | cons c rest => simp [h c rfl]

/-- Nothing in front of a printed number is skipped. -/
theorem scanSign_decimal (n : Nat) (rest : Bytes) :
    scanSign ((decimal n ++ rest).dropWhile isSpace) = (false, decimal n ++ rest) := by
  obtain ⟨c, ds, hds⟩ := List.exists_cons_of_ne_nil (decimal_ne_nil n)
  have hc : isDigit c = true := isDigit_of_mem_decimal (hds ▸ List.mem_cons_self)
  have hspace : isSpace c = false := isSpace_of_isDigit hc
  have h45 : c ≠ 45 := by rintro rfl; revert hc; decide
  have h43 : c ≠ 43 := by rintro rfl; revert hc; decide
  simp [hds, hspace, scanSign, h45, h43]

theorem strtoul_decimal {n : Nat} (hn : n < 4294967296) {rest : Bytes} (h : ∀ c ∈ rest.head?, isDigit c = false) :
    strtoul (decimal n ++ rest) = .ofNat n := by
  simp only [strtoul, scanSign_decimal, takeWhile_isDigit_decimal n h, digitsVal_decimal]
  rw [if_neg (by omega)]
  simp

theorem strtoll_decimalInt {z : Int} (h0 : -(2 ^ 63) ≤ z) (h1 : z < 2 ^ 63) {rest : Bytes}
    (h : ∀ c ∈ rest.head?, isDigit c = false) : strtoll (decimalInt z ++ rest) = z := by
  unfold decimalInt
  split
  · have hsign : scanSign ((45 :: decimal z.natAbs ++ rest).dropWhile isSpace) = (true, decimal z.natAbs ++ rest) := rfl
    simp only [strtoll, hsign, takeWhile_isDigit_decimal _ h, digitsVal_decimal, if_true]
    omega
  · simp only [strtoll, scanSign_decimal, takeWhile_isDigit_decimal _ h, digitsVal_decimal, Bool.false_eq_true,
    if_false]
    omega

theorem mem_decimalInt {z : Int} {c : UInt8} (h : c ∈ decimalInt z) : c = 45 ∨ isDigit c = true := by
  unfold decimalInt at h
  split at h
  · exact (List.mem_cons.1 h).imp_right isDigit_of_mem_decimal
  · exact .inr (isDigit_of_mem_decimal h)

theorem zero_notMem_decimalInt (z : Int) : (0 : UInt8) ∉ decimalInt z := fun h => by
  have := mem_decimalInt h
  revert this
  decide

/-- A number that fits 64 bits is printed in at most 20 bytes. -/
theorem length_decimalInt_le {z : Int} (h0 : -(2 ^ 63) ≤ z) (h1 : z < 2 ^ 63) : (decimalInt z).length ≤ 20 := by
  have := length_decimal_le (n := z.natAbs) (k := 19) (by decide) (by omega)
  unfold decimalInt
  split
  · rw [List.length_cons]
    omega
  · omega

/-! ## Fields of digits -/

/-- `%0wd` -/
def decimalPadded (w : Nat) (z : Int) : Bytes :=
  if z < 0 then 45 :: (List.replicate (w - 1 - (decimal z.natAbs).length) 48 ++ decimal z.natAbs)
  else List.replicate (w - (decimal z.natAbs).length) 48 ++ decimal z.natAbs

/-- The number that the first `w` bytes spell, and what follows them. -/
def readDigits (w : Nat) (s : Bytes) : Option (Int × Bytes) :=
  if w ≤ s.length ∧ (s.take w).all isDigit then some (digitsVal (s.take w), s.drop w) else none

theorem digitsVal_zeros (k : Nat) (ds : Bytes) : digitsVal (List.replicate k 48 ++ ds) = digitsVal ds := by
  induction k with
  | zero => rfl
  | succ k ih =>
    rw [← ih]
    simp [digitsVal, List.replicate_succ]

theorem length_decimalPadded {w : Nat} {z : Int} (hw : 0 < w) (h0 : 0 ≤ z) (h1 : z.natAbs < 10 ^ w) :
    (decimalPadded w z).length = w := by
  have hlen : (decimal z.natAbs).length ≤ w := length_decimal_le hw h1
  rw [decimalPadded, if_neg (by omega), List.length_append, List.length_replicate]
  omega

/-- A number that the field has room for is read back. -/
theorem readDigits_padded {w : Nat} {z : Int} (hw : 0 < w) (h0 : 0 ≤ z) (h1 : z.natAbs < 10 ^ w) (rest : Bytes) :
    readDigits w (decimalPadded w z ++ rest) = some (z, rest) := by
  have hlen := length_decimalPadded hw h0 h1
  have hdigits : (decimalPadded w z).all isDigit = true := by
    rw [decimalPadded, if_neg (by omega), List.all_append, Bool.and_eq_true]
    refine ⟨?_, List.all_eq_true.2 fun c hc => isDigit_of_mem_decimal hc⟩
    exact List.all_eq_true.2 fun c hc => by
      rw [List.eq_of_mem_replicate hc]
      rfl
  have hval : (digitsVal (decimalPadded w z) : Int) = z := by
    rw [decimalPadded, if_neg (by omega), digitsVal_zeros, digitsVal_decimal]
    omega
  rw [readDigits, List.take_left' hlen, List.drop_left' hlen, hval, if_pos]
  exact ⟨by rw [List.length_append]; omega, hdigits⟩

end NodeLib
