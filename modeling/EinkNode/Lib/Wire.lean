import EinkNode.Lib.CString
/-!
# Bytes on the wire

Little-endian numbers and the IEEE CRC32 of a byte sequence.
-/

namespace NodeLib

/-- The number that the bytes stand for, lowest byte first. -/
def leNat : Bytes → Nat
  | [] => 0
  | b :: bs => b.toNat + 256 * leNat bs

/-- `n` in `k` bytes, lowest byte first. -/
def leBytes : Nat → Nat → Bytes
  | 0, _ => []
  | k + 1, n => .ofNat n :: leBytes k (n / 256)

@[simp] theorem length_leBytes (k n : Nat) : (leBytes k n).length = k := by
  induction k generalizing n with
  | zero => rfl
  | succ k ih => rw [leBytes, List.length_cons, ih]

/-- The bytes stand for the number that was written, as far as it fits. -/
theorem leNat_leBytes (k n : Nat) : leNat (leBytes k n) = n % 256 ^ k := by
  induction k generalizing n with
  | zero => rw [leBytes, leNat, pow_zero, Nat.mod_one]
  | succ k ih =>
    have hb : (UInt8.ofNat n).toNat = n % 256 := UInt8.toNat_ofNat'
    rw [leBytes, leNat, ih, hb, pow_succ', Nat.mod_mul]

theorem leNat_lt (bs : Bytes) : leNat bs < 256 ^ bs.length := by
  induction bs with
  | nil => decide
  | cons b bs ih =>
    have hb := b.toNat_lt
    rw [leNat, List.length_cons, pow_succ]
    omega

/-- Bytes of one length are told apart by the number they stand for. -/
theorem leNat_inj {a b : Bytes} (hlen : a.length = b.length) (h : leNat a = leNat b) : a = b := by
  induction a generalizing b with
  | nil => exact (List.eq_nil_of_length_eq_zero hlen.symm).symm
  | cons x a ih =>
    cases b with
    | nil => cases hlen
    | cons y b =>
      have hx := x.toNat_lt
      have hy := y.toNat_lt
      simp only [leNat] at h
      rw [ih (by simpa using hlen) (by omega), UInt8.toNat_inj.1 (show x.toNat = y.toNat by omega)]

def le16 (b : Bytes) (off : Nat) : UInt16 := .ofNat (leNat ((b.drop off).take 2))

def le32 (b : Bytes) (off : Nat) : UInt32 := .ofNat (leNat ((b.drop off).take 4))

theorem le16_take {file : Bytes} {off n : Nat} (h : off + 2 ≤ n) : le16 (file.take n) off = le16 file off := by
  rw [le16, le16, List.drop_take, List.take_take, Nat.min_eq_left (by omega)]

theorem le32_take {file : Bytes} {off n : Nat} (h : off + 4 ≤ n) : le32 (file.take n) off = le32 file off := by
  rw [le32, le32, List.drop_take, List.take_take, Nat.min_eq_left (by omega)]

/-- A number that was written in two bytes is read back. -/
theorem le16_of_drop {b rest : Bytes} {off : Nat} {v : UInt16} (h : b.drop off = leBytes 2 v.toNat ++ rest) :
    le16 b off = v := by
  rw [le16, h, List.take_left' (length_leBytes 2 _), leNat_leBytes, show 256 ^ 2 = 2 ^ 16 by decide,
    Nat.mod_eq_of_lt v.toNat_lt, UInt16.ofNat_toNat]

theorem le32_of_drop {b rest : Bytes} {off : Nat} {v : UInt32} (h : b.drop off = leBytes 4 v.toNat ++ rest) :
    le32 b off = v := by
  rw [le32, h, List.take_left' (length_leBytes 4 _), leNat_leBytes, show 256 ^ 4 = 2 ^ 32 by decide,
    Nat.mod_eq_of_lt v.toNat_lt, UInt32.ofNat_toNat]

/-! ## `struct.pack` -/

/-- The values of a little-endian format, by their format characters. -/
inductive PackItem where
  | B (v : Nat)
  | H (v : Nat)
  | I (v : Nat)
  | x (n : Nat)

/-- The bytes of one value; a value out of range is an error. -/
def PackItem.pack : PackItem → Option Bytes
  | .B v => if v < 256 then some (leBytes 1 v) else none
  | .H v => if v < 65536 then some (leBytes 2 v) else none
  | .I v => if v < 4294967296 then some (leBytes 4 v) else none
  | .x n => some (List.replicate n 0)

def struct_pack : List PackItem → Option Bytes
  | [] => some []
  | item :: items => do
    let head ← item.pack
    let tail ← struct_pack items
    pure (head ++ tail)

/-! ## CRC32 -/

/-- One bit of the reflected polynomial division. -/
def crcBit (c : UInt32) : UInt32 := if c &&& 1 = 1 then (c >>> 1) ^^^ 0xEDB88320 else c >>> 1

def crcByte (c : UInt32) (b : UInt8) : UInt32 :=
  crcBit (crcBit (crcBit (crcBit (crcBit (crcBit (crcBit (crcBit (c ^^^ b.toUInt32))))))))

def crc32_ieee_update (crc : UInt32) (data : Bytes) : UInt32 := ~~~(data.foldl crcByte (~~~crc))

def crc32_ieee (data : Bytes) : UInt32 := crc32_ieee_update 0 data

@[simp] theorem crc32_ieee_nil : crc32_ieee [] = 0 := by decide

/-- The checksum goes on where an update left it. -/
theorem crc32_ieee_update_append (crc : UInt32) (a b : Bytes) :
    crc32_ieee_update crc (a ++ b) = crc32_ieee_update (crc32_ieee_update crc a) b := by
  simp [crc32_ieee_update, List.foldl_append]

theorem crc32_ieee_append (a b : Bytes) : crc32_ieee (a ++ b) = crc32_ieee_update (crc32_ieee a) b := by
  rw [crc32_ieee, crc32_ieee_update_append, crc32_ieee]

-- The check value of the polynomial.
example : crc32_ieee (ascii "123456789") = 0xCBF43926 := by decide +kernel

end NodeLib
