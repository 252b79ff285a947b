import EinkNode.Lib.Decimal
import EinkNode.Store.Images
/-!
# The content hash beside an image

Next to `images/<id>.es6f.lz4` the store keeps a text file with the SHA-256 of
the compressed bytes and their number, as the server declared them.
-/
open NodeLib

namespace EinkNode.Store

variable (b : Build)

def eink_store_content_hash_path (image_id : Bytes) : Path :=
  snprintf 300 (b.root.val ++ ascii "/images/" ++ image_id ++ ascii ".es6f.lz4.sha")

/-- The file that is written first and then renamed. -/
def content_hash_tmp (image_id : Bytes) : Path := eink_store_content_hash_path b image_id ++ ascii ".tmp"

/-- The two lines of the file. -/
def content_hash_text (sha256_hex : Bytes) (byte_size : UInt32) : Bytes :=
  sha256_hex ++ 10 :: (decimal byte_size.toNat ++ [10])

/-- The file operations of `eink_store_save_content_hash`. The file that is
written first is not truncated: an older and longer one leaves its end. -/
def write_and_rename (tmp path : Path) (line : Bytes) : FS Int := do
  let ret ← fs_open tmp true false
  if ret < 0 then pure ret
  else
    let n ← fs_write tmp 0 line
    if n ≠ line.length then
      let _ ← fs_unlink tmp
      pure (if n < 0 then n else -EIOERR)
    else
      let _ ← fs_unlink path
      let ret ← fs_rename tmp path
      if ret < 0 then
        let _ ← fs_unlink tmp
        pure ret
      else pure ret

def eink_store_save_content_hash (image_id sha256_hex : Bytes) (byte_size : UInt32) : FS Int := do
  if (cstring sha256_hex).length ≠ 64 then pure (-EINVAL)
  else
    write_and_rename (content_hash_tmp b image_id) (eink_store_content_hash_path b image_id)
      (snprintf 96 (content_hash_text (cstring sha256_hex) byte_size))

def isUpperHex (c : UInt8) : Bool := 65 ≤ c && c ≤ 70

/-- A digit, or a letter up to `f` in either case. -/
def isHex (c : UInt8) : Bool := isUpperHex c || isDigit c || (97 ≤ c && c ≤ 102)

def lowerHex (c : UInt8) : UInt8 := if isUpperHex c then c + 32 else c

theorem isUpperHex_iff {c : UInt8} : isUpperHex c = true ↔ 65 ≤ c.toNat ∧ c.toNat ≤ 70 := by
  simp only [isUpperHex, Bool.and_eq_true, decide_eq_true_eq, UInt8.le_iff_toNat_le]
  exact Iff.rfl

theorem isUpperHex_lowerHex (c : UInt8) : isUpperHex (lowerHex c) = false := by
  unfold lowerHex
  split
  · next h =>
    rw [isUpperHex_iff] at h
    rw [Bool.eq_false_iff, ne_eq, isUpperHex_iff, UInt8.toNat_add]
    change ¬ (65 ≤ (c.toNat + 32) % 256 ∧ (c.toNat + 32) % 256 ≤ 70)
    omega
  · next h => simpa using h

theorem lowerHex_lowerHex (c : UInt8) : lowerHex (lowerHex c) = lowerHex c := by
  rw [lowerHex, isUpperHex_lowerHex]
  rfl

theorem isHex_lowerHex {c : UInt8} (h : isHex c = true) : isHex (lowerHex c) = true := by
  unfold lowerHex
  split
  · next hu =>
    have hle : 97 ≤ c + 32 ∧ c + 32 ≤ 102 := by
      rw [isUpperHex_iff] at hu
      rw [UInt8.le_iff_toNat_le, UInt8.le_iff_toNat_le, UInt8.toNat_add]
      change 97 ≤ (c.toNat + 32) % 256 ∧ (c.toNat + 32) % 256 ≤ 102
      omega
    simp [isHex, hle]
  · exact h

theorem lowerHex_ne_zero {c : UInt8} (h : c ≠ 0) : lowerHex c ≠ 0 := by
  unfold lowerHex
  split
  · next hu =>
    rw [isUpperHex_iff] at hu
    intro h0
    have := congrArg UInt8.toNat h0
    rw [UInt8.toNat_add] at this
    change (c.toNat + 32) % 256 = 0 at this
    omega
  · exact h

/-- What `eink_store_load_content_hash` makes of the bytes it has read. -/
def parse_content_hash (buf : Bytes) : Except Int (Bytes × UInt32) :=
  let hex := (cstring buf).takeWhile (· ≠ 10)
  match (cstring buf).drop hex.length with
  | [] => .error (-EINVAL)
  | _ :: rest =>
    if hex.length ≠ 64 then .error (-EINVAL)
    else if hex.all isHex then .ok (hex.map lowerHex, strtoul rest)
    else .error (-EINVAL)

def eink_store_load_content_hash (image_id : Bytes) : FS (Except Int (Bytes × UInt32)) := do
  match ← read_head (eink_store_content_hash_path b image_id) 95 with
  | .error e => pure (.error e)
  | .ok buf => if buf.length < 65 then pure (.error (-EINVAL)) else pure (parse_content_hash buf)

/-! ## Reading back what was saved -/

theorem length_content_hash_text {sha : Bytes} (hlen : sha.length = 64) (size : UInt32) :
    (content_hash_text sha size).length ≤ 76 := by
  have := length_decimal_le (n := size.toNat) (k := 10) (by decide) (by have := size.toNat_lt; omega)
  simp only [content_hash_text, List.length_append, List.length_cons, List.length_nil, hlen]
  omega

/-- The text reads back as the hash and the size, whatever an older and longer
text left behind it. -/
theorem parse_content_hash_text {sha : Bytes} (hlen : sha.length = 64) (h0 : (0 : UInt8) ∉ sha) (size : UInt32)
    (tail : Bytes) : parse_content_hash ((content_hash_text sha size ++ tail).take 95) =
      if sha.all isHex then .ok (sha.map lowerHex, size) else .error (-EINVAL) := by
  have hlen' := length_content_hash_text hlen size
  have hdec : (0 : UInt8) ∉ decimal size.toNat := fun h => by
    have := isDigit_of_mem_decimal h
    revert this; decide
  have hline : cstring ((content_hash_text sha size ++ tail).take 95) =
      sha ++ 10 :: (decimal size.toNat ++ 10 :: cstring (tail.take (95 - (content_hash_text sha size).length))) := by
    rw [List.take_append, List.take_of_length_le (by omega), cstring_append (by simp [content_hash_text, h0, hdec]) _]
    simp [content_hash_text]
  have hsize : ∀ rest, strtoul (decimal size.toNat ++ 10 :: rest) = size := fun rest => by
    rw [strtoul_decimal (by have := size.toNat_lt; omega) (by simp; decide)]
    simp
  unfold parse_content_hash
  rw [hline]
  generalize cstring (tail.take (95 - (content_hash_text sha size).length)) = rest
  by_cases hnl : (10 : UInt8) ∈ sha
  · -- A newline in the hash ends the line too early, and is no hex digit.
    have hshort : ((sha ++ 10 :: (decimal size.toNat ++ 10 :: rest)).takeWhile (· ≠ 10)).length < 64 := by
      by_contra hge
      have hp : sha <+: (sha ++ 10 :: (decimal size.toNat ++ 10 :: rest)).takeWhile (· ≠ 10) :=
        List.prefix_of_prefix_length_le (List.prefix_append _ _) (List.takeWhile_prefix _) (by omega)
      simpa using List.mem_takeWhile_imp (hp.subset hnl)
    have hall : ¬ sha.all isHex = true := fun h => by
      have := List.all_eq_true.1 h 10 hnl
      revert this; decide
    rw [if_neg hall]
    dsimp only
    split
    · rfl
    · rw [if_pos (by omega)]
  · have htake : (sha ++ 10 :: (decimal size.toNat ++ 10 :: rest)).takeWhile (· ≠ 10) = sha := by
      rw [List.takeWhile_append_of_pos fun c hc => by simpa using fun h : c = 10 => hnl (h ▸ hc)]
      simp
    have hdrop : (sha ++ 10 :: (decimal size.toNat ++ 10 :: rest)).drop 64 = 10 :: (decimal size.toNat ++ 10 :: rest) :=
      List.drop_left' hlen
    simp only [htake, hlen, hdrop, hsize, ne_eq, not_true_eq_false, if_false]

theorem save_content_hash_eq {sha : Bytes} (hlen : sha.length = 64) (h0 : (0 : UInt8) ∉ sha) (image_id : Bytes)
    (size : UInt32) : eink_store_save_content_hash b image_id sha size =
      write_and_rename (content_hash_tmp b image_id) (eink_store_content_hash_path b image_id)
        (content_hash_text sha size) := by
  have htext : snprintf 96 (content_hash_text sha size) = content_hash_text sha size :=
    List.take_of_length_le (by have := length_content_hash_text hlen size; omega)
  simp [eink_store_save_content_hash, cstring_of_notMem h0, hlen, htext]

/-- What is loaded when no call fails. -/
theorem load_content_hash_calm (image_id : Bytes) (files : Path → Option Bytes) :
    (eink_store_load_content_hash b image_id (.calm files)).1 =
      match files (eink_store_content_hash_path b image_id) with
      | none => .error (-ENOENT)
      | some bs => if (bs.take 95).length < 65 then .error (-EINVAL) else parse_content_hash (bs.take 95) := by
  unfold eink_store_load_content_hash
  cases hf : files (eink_store_content_hash_path b image_id) with
  | none => simp [read_head, fs_open, hf, ENOENT]
  | some bs =>
    simp only [bind_app, read_head_calm hf]
    split <;> rfl

/-- A file that begins with a saved text loads as that text says. -/
theorem load_content_hash_saved {image_id : Bytes} {files : Path → Option Bytes} {sha : Bytes} (hlen : sha.length = 64)
    (h0 : (0 : UInt8) ∉ sha) (size : UInt32) {tail : Bytes}
    (hf : files (eink_store_content_hash_path b image_id) = some (content_hash_text sha size ++ tail)) :
    (eink_store_load_content_hash b image_id (.calm files)).1 =
      if sha.all isHex then .ok (sha.map lowerHex, size) else .error (-EINVAL) := by
  have hne := List.length_pos_iff.2 (decimal_ne_nil size.toNat)
  rw [load_content_hash_calm, hf]
  dsimp only
  rw [if_neg, parse_content_hash_text hlen h0]
  simp only [content_hash_text, List.length_take, List.length_append, List.length_cons, hlen]
  omega

/-! ## What a save leaves -/

theorem content_hash_path_ne_tmp (image_id : Bytes) :
    eink_store_content_hash_path b image_id ≠ content_hash_tmp b image_id := ne_append_tmp _

inductive Fate where
  | saved
  | kept
  | removed
deriving DecidableEq

section
variable (tmp path : Path) (d : Disk Path) (len : Nat)

/-- All `len` bytes get into the file that is written first. -/
def Written : Prop :=
  d.err .fs_open tmp = none ∧ d.err .fs_write tmp = none ∧ (d.outcome .fs_write tmp).moved len = len

instance : Decidable (Written tmp d len) := inferInstanceAs (Decidable (_ ∧ _))

/-- What becomes of the file at `path` when `len` bytes are to be saved there. -/
def saveFate : Fate :=
  if ¬ Written tmp d len then .kept
  else if d.err .fs_rename tmp = none then .saved
  else if d.err .fs_unlink path = none then .removed
  else .kept

variable {tmp path}

theorem write_and_rename_files (hne : path ≠ tmp) (line : Bytes) :
    match saveFate tmp path d line.length with
    | .saved => ∃ tail, (write_and_rename tmp path line d).2.files path = some (line ++ tail)
    | .kept => (write_and_rename tmp path line d).2.files path = d.files path
    | .removed => (write_and_rename tmp path line d).2.files path = none := by
  -- Whatever happens to the temporary file does not touch the other one.
  have hunlink (d' : Disk Path) : (fs_unlink tmp d').2.files path = d'.files path := (sameAt_fs_unlink hne d').1
  unfold write_and_rename saveFate
  cases ho : d.err .fs_open tmp with
  | some e => simp [Written, fs_open_of_err ho, ho, d.err_neg ho]
  | none =>
    obtain ⟨hret, -⟩ := fs_open_create ho false
    have hwq := sameQueue_fs_open (p := tmp) (c := .fs_write) (by decide) true false d
    have hrq := sameQueue_fs_open (p := tmp) (c := .fs_rename) (by decide) true false d
    have hsame := sameAt_fs_open hne true false d
    simp only [bind_app, hret, Int.lt_irrefl, if_false]
    generalize (fs_open tmp true false d).2 = d1 at hsame hwq hrq ⊢
    have hrq := trans_of (SameQueue .fs_rename) hrq
      (sameQueue_fs_write (p := tmp) (c := .fs_rename) (by decide) 0 line d1)
    have hsame := trans_of (SameAt path) hsame (sameAt_fs_write hne 0 line d1)
    have hn : (fs_write tmp 0 line d1).1 =
        (d.err .fs_write tmp).getD ((d.outcome .fs_write tmp).moved line.length) := by
      simp only [fs_write, hwq.err, hwq.outcome]
    have hfile : (d.outcome .fs_write tmp).moved line.length = line.length →
        (fs_write tmp 0 line d1).2.files tmp = some (line ++ ((d1.files tmp).getD []).drop line.length) := by
      intro hm
      simp [fs_write, hwq.outcome, hm, overwrite]
    generalize (fs_write tmp 0 line d1).2 = d2 at hsame hrq hfile ⊢
    rw [hn]
    cases hw : d.err .fs_write tmp with
    | some e =>
      have he := d.err_neg hw
      have hlen : e ≠ line.length := by omega
      simp [Written, hw, hlen, hunlink, hsame.1]
    | none =>
      by_cases hm : (d.outcome .fs_write tmp).moved line.length = line.length
      · have hfile := hfile hm
        have hsame3 := sameAt_fs_unlink (Ne.symm hne) d2
        have hrq3 := trans_of (SameQueue .fs_rename) hrq
          (sameQueue_fs_unlink (p := path) (c := .fs_rename) (by decide) d2)
        have hpath := fs_unlink_files path d2
        rw [hsame.err, hsame.1] at hpath
        simp only [hm, Option.getD_none, ne_eq, not_true_eq_false, if_false, bind_app]
        generalize (fs_unlink path d2).2 = d3 at hsame3 hrq3 hpath ⊢
        have hneg := fs_rename_fst tmp path d3
        rw [hrq3.err, hsame3.1, hfile] at hneg
        cases hr : d.err .fs_rename tmp with
        | none =>
          rw [fs_rename_of_ok (hrq3.err tmp |>.trans hr) (hsame3.1.trans hfile) (Ne.symm hne)]
          simp [Written, ho, hw, hm, Disk.files_put_of_ne _ _ hne]
        | some e =>
          have hneg' := hneg.2 (.inl (by simp [hr]))
          have hfiles := fs_rename_files_of_neg hneg'
          simp only [hneg', if_true, bind_app, pure_app, hunlink, hfiles, hpath]
          cases hu : d.err .fs_unlink path <;> simp [Written, ho, hw, hm]
      · have hm' : (((d.outcome .fs_write tmp).moved line.length : Nat) : Int) ≠ line.length := by omega
        simp [Written, hw, hm, hm', hunlink, hsame.1]

/-- A save that succeeds has written the line. -/
theorem write_and_rename_saved (hne : path ≠ tmp) {line : Bytes} (h : 0 ≤ (write_and_rename tmp path line d).1) :
    ∃ tail, (write_and_rename tmp path line d).2.files path = some (line ++ tail) := by
  unfold write_and_rename at h ⊢
  simp only [bind_app] at h ⊢
  generalize fs_open tmp true false d = opened at h ⊢
  obtain ⟨ret, d1⟩ := opened
  dsimp only at h ⊢
  by_cases hret : ret < 0
  · rw [if_pos hret, pure_app] at h
    omega
  rw [if_neg hret] at h ⊢
  simp only [bind_app] at h ⊢
  by_cases hn : (fs_write tmp 0 line d1).1 = line.length
  · obtain ⟨tail, htail⟩ := fs_write_all hn
    have hunlink := (sameAt_fs_unlink (Ne.symm hne) (fs_write tmp 0 line d1).2).1
    rw [if_neg (not_not.2 hn)] at h ⊢
    simp only [bind_app] at h ⊢
    generalize (fs_unlink path (fs_write tmp 0 line d1).2).2 = d2 at h hunlink ⊢
    by_cases hren : (fs_rename tmp path d2).1 < 0
    · rw [if_pos hren] at h
      exact absurd hren (Int.not_lt.2 h)
    · rw [if_neg hren, pure_app, fs_rename_files hren hne, hunlink]
      exact ⟨tail, htail⟩
  · rw [if_pos hn] at h
    simp only [bind_app, pure_app] at h
    split at h
    · omega
    · exact absurd h (by decide)

theorem touches_write_and_rename {W : Path → Prop} (ht : W tmp) (hp : W path) (line : Bytes) :
    Keeps (Touches W) (write_and_rename tmp path line) := by
  have hgone (ret : Int) : Keeps (Touches W) (do let _ ← fs_unlink tmp; pure ret : FS Int) :=
    keeps_bind (touches_fs_unlink ht) fun _ => keeps_pure _
  refine keeps_bind (touches_fs_open ht true false) fun ret => keeps_ite (keeps_pure _) ?_
  refine keeps_bind (touches_fs_write ht 0 line) fun n => keeps_ite (hgone _) ?_
  refine keeps_bind (touches_fs_unlink hp) fun _ => keeps_bind (touches_fs_rename ht hp) fun ret => ?_
  exact keeps_ite (hgone ret) (keeps_pure _)

end

end EinkNode.Store
