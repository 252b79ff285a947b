import EinkNode.Lib.CString
import EinkNode.Lib.Errno
import EinkNode.Lib.Wp
/-!
# A disk that may fail

Files named by paths of any type. Each call of the file system takes its
outcome from a queue kept for that call and path, and succeeds once the queue
is empty: the queues range over every pattern of failures, and a theorem can
name the calls that may fail. A failing `open`, `unlink` or `rename` changes
nothing; a failing `read` or `write` may have moved some bytes.
-/

namespace NodeLib

inductive Call where
  | fs_stat
  | fs_open
  | fs_read
  | fs_seek
  | fs_write
  | fs_sync
  | fs_unlink
  | fs_rename
deriving DecidableEq

/-- How a call ends: as it should, with the error `-(e + 1)`, or after `n` bytes. -/
inductive Fault where
  | ok
  | error (e n : Nat)
  | short (n : Nat)
deriving DecidableEq

/-- The error that the caller sees. -/
def Fault.err : Fault → Option Int
  | .error e _ => some (-(e + 1 : Nat))
  | _ => none

/-- How many of `len` bytes the call moves. -/
def Fault.moved (len : Nat) : Fault → Nat
  | .ok => len
  | .error _ n => min n len
  | .short n => min n len

theorem Fault.moved_le (o : Fault) (len : Nat) : o.moved len ≤ len := by
  cases o with
  | ok => exact Nat.le_refl len
  | error e n => exact Nat.min_le_right n len
  | short n => exact Nat.min_le_right n len

structure Disk (P : Type) where
  files : P → Option Bytes
  faults : Call → P → List Fault

variable {P : Type}

namespace Disk

/-- The outcome of the next such call. -/
def outcome (d : Disk P) (c : Call) (p : P) : Fault := (d.faults c p).headD .ok

/-- The error of the next such call. -/
def err (d : Disk P) (c : Call) (p : P) : Option Int := (d.outcome c p).err

/-- No call will fail. -/
def calm (files : P → Option Bytes) : Disk P := ⟨files, fun _ _ => []⟩

@[simp] theorem files_calm (files : P → Option Bytes) : (calm files).files = files := rfl

@[simp] theorem err_calm (files : P → Option Bytes) (c : Call) (p : P) : (calm files).err c p = none := rfl

@[simp] theorem outcome_calm (files : P → Option Bytes) (c : Call) (p : P) : (calm files).outcome c p = .ok := rfl

theorem err_neg {d : Disk P} {c : Call} {p : P} {e : Int} (h : d.err c p = some e) : e < 0 := by
  unfold err at h
  cases hf : d.outcome c p <;> simp only [hf, Fault.err] at h <;> cases h
  omega

theorem outcome_of_nil {d : Disk P} {c : Call} {p : P} (h : d.faults c p = []) : d.outcome c p = .ok := by
  simp [outcome, h]

theorem err_of_nil {d : Disk P} {c : Call} {p : P} (h : d.faults c p = []) : d.err c p = none := by
  rw [err, outcome_of_nil h]; rfl

variable [DecidableEq P]

/-- The disk after such a call has taken its outcome. -/
def called (d : Disk P) (c : Call) (p : P) : Disk P :=
  { d with faults := fun c' p' => if c' = c ∧ p' = p then (d.faults c p).tail else d.faults c' p' }

def put (d : Disk P) (p : P) (b : Option Bytes) : Disk P :=
  { d with files := fun p' => if p' = p then b else d.files p' }

@[simp] theorem files_called (d : Disk P) (c : Call) (p : P) : (d.called c p).files = d.files := rfl

@[simp] theorem faults_put (d : Disk P) (p : P) (b : Option Bytes) : (d.put p b).faults = d.faults := rfl

@[simp] theorem files_put_self (d : Disk P) (p : P) (b : Option Bytes) : (d.put p b).files p = b := by simp [put]

theorem files_put_of_ne (d : Disk P) {p q : P} (b : Option Bytes) (h : q ≠ p) :
    (d.put p b).files q = d.files q := by simp [put, h]

@[simp] theorem outcome_put (d : Disk P) (p : P) (b : Option Bytes) (c : Call) (q : P) :
    (d.put p b).outcome c q = d.outcome c q := rfl

@[simp] theorem err_put (d : Disk P) (p : P) (b : Option Bytes) (c : Call) (q : P) :
    (d.put p b).err c q = d.err c q := rfl

@[simp] theorem faults_called (d : Disk P) (c c' : Call) (p p' : P) :
    (d.called c p).faults c' p' = if c' = c ∧ p' = p then (d.faults c p).tail else d.faults c' p' := rfl

@[simp] theorem err_called (d : Disk P) {c c' : Call} (h : c' ≠ c) (p p' : P) :
    (d.called c p).err c' p' = d.err c' p' := by simp [err, outcome, h]

@[simp] theorem called_calm (files : P → Option Bytes) (c : Call) (p : P) : (calm files).called c p = calm files := by
  simp [called, calm]

theorem faults_called_of_ne (d : Disk P) {c c' : Call} {p p' : P} (h : c' ≠ c ∨ p' ≠ p) :
    (d.called c p).faults c' p' = d.faults c' p' := by
  rcases h with h | h <;> simp [called, h]

end Disk

variable [DecidableEq P]

/-! ## The calls -/

/-- The size of the file. -/
def fs_stat (p : P) : StateM (Disk P) (Except Int Nat) := fun d =>
  (match d.err .fs_stat p, d.files p with
    | some e, _ => .error e
    | none, none => .error (-ENOENT)
    | none, some b => .ok b.length, d.called .fs_stat p)

/-- Open for writing or reading; `create` and `trunc` are the flags. -/
def fs_open (p : P) (create trunc : Bool) : StateM (Disk P) Int := fun d =>
  let d' := d.called .fs_open p
  match d.err .fs_open p, d.files p with
  | some e, _ => (e, d')
  | none, none => if create then (0, d'.put p (some [])) else (-ENOENT, d')
  | none, some _ => (0, if trunc then d'.put p (some []) else d')

/-- At most `len` bytes from the offset `off` on. -/
def fs_read (p : P) (off len : Nat) : StateM (Disk P) (Except Int Bytes) := fun d =>
  (match d.err .fs_read p with
    | some e => .error e
    | none => .ok ((((d.files p).getD []).drop off).take ((d.outcome .fs_read p).moved len)), d.called .fs_read p)

/-- The file once `data` has been written over it from the offset `off` on. -/
def overwrite (b : Bytes) (off : Nat) (data : Bytes) : Bytes := b.take off ++ data ++ b.drop (off + data.length)

def fs_write (p : P) (off : Nat) (data : Bytes) : StateM (Disk P) Int := fun d =>
  let n := (d.outcome .fs_write p).moved data.length
  let d' := (d.called .fs_write p).put p (some (overwrite ((d.files p).getD []) off (data.take n)))
  ((d.err .fs_write p).getD n, d')

def fs_sync (p : P) : StateM (Disk P) Int := fun d => ((d.err .fs_sync p).getD 0, d.called .fs_sync p)

def fs_seek (p : P) : StateM (Disk P) Int := fun d => ((d.err .fs_seek p).getD 0, d.called .fs_seek p)

def fs_unlink (p : P) : StateM (Disk P) Int := fun d =>
  let d' := d.called .fs_unlink p
  match d.err .fs_unlink p, d.files p with
  | some e, _ => (e, d')
  | none, none => (-ENOENT, d')
  | none, some _ => (0, d'.put p none)

def fs_rename (src dst : P) : StateM (Disk P) Int := fun d =>
  let d' := d.called .fs_rename src
  match d.err .fs_rename src, d.files src with
  | some e, _ => (e, d')
  | none, none => (-ENOENT, d')
  | none, some b => (0, if src = dst then d' else (d'.put dst (some b)).put src none)

theorem negErr_fs_read (p : P) (off len : Nat) : Always NegErr (fs_read p off len) := by
  intro d
  unfold fs_read
  dsimp only
  split
  · next e h => exact d.err_neg h
  · trivial

/-! ## A disk where nothing fails -/

@[simp]
theorem Disk.put_calm (files : P → Option Bytes) (p : P) (b : Option Bytes) :
    (calm files).put p b = calm fun q => if q = p then b else files q := rfl

theorem fs_open_calm (p : P) (files : P → Option Bytes) :
    fs_open p true true (.calm files) = (0, .calm fun q => if q = p then some [] else files q) := by
  cases hf : files p <;> simp [fs_open, hf]

theorem fs_write_calm (p : P) (off : Nat) (data : Bytes) (files : P → Option Bytes) :
    fs_write p off data (.calm files) =
      ((data.length : Int),
        .calm fun q => if q = p then some (overwrite ((files p).getD []) off data) else files q) := by
  simp [fs_write, Fault.moved]

theorem fs_sync_calm (p : P) (files : P → Option Bytes) : fs_sync p (.calm files) = (0, .calm files) := by
  simp [fs_sync]

/-- A file that is put where it is. -/
theorem put_same {files : P → Option Bytes} {p : P} {b : Option Bytes} (h : files p = b) :
    (fun q => if q = p then b else files q) = files := by
  funext q
  by_cases hq : q = p
  · rw [if_pos hq, hq, h]
  · rw [if_neg hq]

/-- What was put last is there. -/
theorem put_put {c : Prop} [Decidable c] (b b' b'' : Option Bytes) :
    (if c then b else if c then b' else b'') = if c then b else b'' := by
  by_cases hc : c
  · rw [if_pos hc, if_pos hc]
  · rw [if_neg hc, if_neg hc, if_neg hc]

/-- Afterwards there is no such file, whether there was one or not. -/
theorem fs_unlink_calm (p : P) (files : P → Option Bytes) :
    (fs_unlink p (.calm files)).2 = .calm fun q => if q = p then none else files q := by
  cases hp : files p with
  | some b => simp [fs_unlink, hp]
  | none => simp [fs_unlink, hp, put_same hp]

theorem fs_rename_calm {src dst : P} {files : P → Option Bytes} {b : Bytes} (hb : files src = some b) (h : src ≠ dst) :
    fs_rename src dst (.calm files) =
      (0, .calm fun q => if q = src then none else if q = dst then some b else files q) := by
  simp [fs_rename, hb, h]

/-! ## What each call leaves alone -/

/-- The file at `p` and the outcomes in store for it are the same. -/
def SameAt (p : P) (d d' : Disk P) : Prop := d'.files p = d.files p ∧ ∀ c, d'.faults c p = d.faults c p

instance (p : P) : IsPreorder (Disk P) (SameAt p) where
  refl _ := ⟨rfl, fun _ => rfl⟩
  trans _ _ _ h h' := ⟨h'.1.trans h.1, fun c => (h'.2 c).trans (h.2 c)⟩

/-- The files are the same, and so are the outcomes in store for the calls outside `S`. -/
def OnlyCalls (S : Call → Prop) (d d' : Disk P) : Prop :=
  d'.files = d.files ∧ ∀ c p, ¬ S c → d'.faults c p = d.faults c p

instance (S : Call → Prop) : IsPreorder (Disk P) (OnlyCalls S) where
  refl _ := ⟨rfl, fun _ _ _ => rfl⟩
  trans _ _ _ h h' := ⟨h'.1.trans h.1, fun c p hc => (h'.2 c p hc).trans (h.2 c p hc)⟩

theorem onlyCalls_called {S : Call → Prop} {c : Call} (hc : S c) (d : Disk P) (p : P) :
    OnlyCalls S d (d.called c p) :=
  ⟨rfl, fun _ _ hc' => d.faults_called_of_ne (.inl fun h => hc' (h ▸ hc))⟩

/-- The outcomes in store for `c` are the same. -/
def SameQueue (c : Call) (d d' : Disk P) : Prop := d'.faults c = d.faults c

instance (c : Call) : IsPreorder (Disk P) (SameQueue c) where
  refl _ := rfl
  trans _ _ _ h h' := Eq.trans h' h

theorem sameQueue_called {c c' : Call} (h : c ≠ c') (d : Disk P) (p : P) : SameQueue c d (d.called c' p) :=
  funext fun _ => d.faults_called_of_ne (.inl h)

/-- No file outside `W` changes, and outcomes are only taken from the queues. -/
def Touches (W : P → Prop) (d d' : Disk P) : Prop :=
  (∀ p, ¬ W p → d'.files p = d.files p) ∧ ∀ c p, d'.faults c p <:+ d.faults c p

instance (W : P → Prop) : IsPreorder (Disk P) (Touches W) where
  refl _ := ⟨fun _ _ => rfl, fun _ _ => List.suffix_rfl⟩
  trans _ _ _ h h' := ⟨fun p hp => (h'.1 p hp).trans (h.1 p hp), fun c p => (h'.2 c p).trans (h.2 c p)⟩

theorem touches_called (W : P → Prop) (d : Disk P) (c : Call) (p : P) : Touches W d (d.called c p) := by
  refine ⟨fun _ _ => rfl, fun c' p' => ?_⟩
  rw [Disk.faults_called]
  split
  · next h => rw [h.1, h.2]; exact List.tail_suffix _
  · exact List.suffix_rfl

theorem touches_put {W : P → Prop} {p : P} (hp : W p) {d d' : Disk P} (h : Touches W d d') (b : Option Bytes) :
    Touches W d (d'.put p b) :=
  ⟨fun q hq => (d'.files_put_of_ne b fun e => hq (by rwa [e])).trans (h.1 q hq), h.2⟩

omit [DecidableEq P] in
/-- A call that cannot fail before cannot fail after. -/
theorem Touches.calm {W : P → Prop} {d d' : Disk P} (h : Touches W d d') {c : Call} {p : P}
    (hc : d.faults c p = []) : d'.faults c p = [] := List.suffix_nil.1 (hc ▸ h.2 c p)

omit [DecidableEq P] in
/-- Where nothing fails, nothing fails afterwards. -/
theorem Touches.eq_calm {W : P → Prop} {files : P → Option Bytes} {d : Disk P} (h : Touches W (.calm files) d) :
    d = .calm d.files := by
  have hnil : d.faults = fun _ _ => [] := funext fun c => funext fun p => h.calm rfl
  cases d
  cases hnil
  rfl

theorem sameAt_called {p q : P} (h : q ≠ p) (d : Disk P) (c : Call) : SameAt q d (d.called c p) :=
  ⟨rfl, fun _ => d.faults_called_of_ne (.inr h)⟩

theorem sameAt_put {p q : P} (h : q ≠ p) {d d' : Disk P} (hd : SameAt q d d') (b : Option Bytes) :
    SameAt q d (d'.put p b) := ⟨(d'.files_put_of_ne b h).trans hd.1, hd.2⟩

section
variable {p q : P}

theorem onlyCalls_fs_open {S : Call → Prop} (hS : S .fs_open) : Keeps (OnlyCalls S) (fs_open p false false) := by
  intro d; unfold fs_open; dsimp only; split <;> exact onlyCalls_called hS d p

theorem onlyCalls_fs_read {S : Call → Prop} (hS : S .fs_read) (off len : Nat) :
    Keeps (OnlyCalls S) (fs_read p off len) := fun d => onlyCalls_called hS d p

theorem onlyCalls_fs_seek {S : Call → Prop} (hS : S .fs_seek) : Keeps (OnlyCalls S) (fs_seek p) :=
  fun d => onlyCalls_called hS d p

variable {W : P → Prop}

theorem touches_fs_stat : Keeps (Touches W) (fs_stat p) := fun d => touches_called W d _ p

theorem touches_fs_read (off len : Nat) : Keeps (Touches W) (fs_read p off len) := fun d => touches_called W d _ p

theorem touches_fs_seek : Keeps (Touches W) (fs_seek p) := fun d => touches_called W d _ p

theorem touches_fs_sync : Keeps (Touches W) (fs_sync p) := fun d => touches_called W d _ p

theorem touches_fs_open_read : Keeps (Touches W) (fs_open p false false) := by
  intro d; unfold fs_open; dsimp only; split <;> exact touches_called W d _ p

theorem touches_fs_open (hp : W p) (create trunc : Bool) : Keeps (Touches W) (fs_open p create trunc) := by
  intro d; unfold fs_open; dsimp only
  have hd := touches_called W d .fs_open p
  split
  · exact hd
  · split
    · exact touches_put hp hd _
    · exact hd
  · split
    · exact touches_put hp hd _
    · exact hd

theorem touches_fs_write (hp : W p) (off : Nat) (data : Bytes) : Keeps (Touches W) (fs_write p off data) :=
  fun d => touches_put hp (touches_called W d _ p) _

theorem touches_fs_unlink (hp : W p) : Keeps (Touches W) (fs_unlink p) := by
  intro d; unfold fs_unlink; dsimp only
  have hd := touches_called W d .fs_unlink p
  split
  · exact hd
  · exact hd
  · exact touches_put hp hd _

theorem touches_fs_rename (hp : W p) (hq : W q) : Keeps (Touches W) (fs_rename p q) := by
  intro d; unfold fs_rename; dsimp only
  have hd := touches_called W d .fs_rename p
  split
  · exact hd
  · exact hd
  · split
    · exact hd
    · exact touches_put hp (touches_put hq hd _) _

theorem sameQueue_fs_open {c : Call} (h : c ≠ .fs_open) (create trunc : Bool) :
    Keeps (SameQueue c) (fs_open p create trunc) := by
  intro d; unfold fs_open; dsimp only
  have hd := sameQueue_called h d p
  split
  · exact hd
  · split <;> exact hd
  · split <;> exact hd

theorem sameQueue_fs_write {c : Call} (h : c ≠ .fs_write) (off : Nat) (data : Bytes) :
    Keeps (SameQueue c) (fs_write p off data) := fun d => sameQueue_called h d p

theorem sameQueue_fs_stat {c : Call} (h : c ≠ .fs_stat) : Keeps (SameQueue c) (fs_stat p) :=
  fun d => sameQueue_called h d p

theorem sameQueue_fs_unlink {c : Call} (h : c ≠ .fs_unlink) : Keeps (SameQueue c) (fs_unlink p) := by
  intro d; unfold fs_unlink; dsimp only; split <;> exact sameQueue_called h d p

variable (h : q ≠ p)
include h

theorem sameAt_fs_stat : Keeps (SameAt q) (fs_stat p) := fun d => sameAt_called h d _

theorem sameAt_fs_open (create trunc : Bool) : Keeps (SameAt q) (fs_open p create trunc) := by
  intro d; unfold fs_open; dsimp only
  have hd := sameAt_called h d .fs_open
  split
  · exact hd
  · split
    · exact sameAt_put h hd _
    · exact hd
  · split
    · exact sameAt_put h hd _
    · exact hd

theorem sameAt_fs_read (off len : Nat) : Keeps (SameAt q) (fs_read p off len) := fun d => sameAt_called h d _

theorem sameAt_fs_seek : Keeps (SameAt q) (fs_seek p) := fun d => sameAt_called h d _

theorem sameAt_fs_write (off : Nat) (data : Bytes) : Keeps (SameAt q) (fs_write p off data) :=
  fun d => sameAt_put h (sameAt_called h d _) _

theorem sameAt_fs_unlink : Keeps (SameAt q) (fs_unlink p) := by
  intro d; unfold fs_unlink; dsimp only
  have hd := sameAt_called h d .fs_unlink
  split
  · exact hd
  · exact hd
  · exact sameAt_put h hd _

end

omit [DecidableEq P] in
theorem SameQueue.err {c : Call} {d d' : Disk P} (h : SameQueue c d d') (p : P) : d'.err c p = d.err c p := by
  simp only [Disk.err, Disk.outcome, congrFun h p]

omit [DecidableEq P] in
theorem SameQueue.outcome {c : Call} {d d' : Disk P} (h : SameQueue c d d') (p : P) :
    d'.outcome c p = d.outcome c p := by
  simp only [Disk.outcome, congrFun h p]

omit [DecidableEq P] in
theorem SameAt.err {p : P} {d d' : Disk P} (h : SameAt p d d') (c : Call) : d'.err c p = d.err c p := by
  simp only [Disk.err, Disk.outcome, h.2]

theorem fs_unlink_files (p : P) (d : Disk P) :
    (fs_unlink p d).2.files p = if d.err .fs_unlink p = none then none else d.files p := by
  unfold fs_unlink
  dsimp only
  split
  · next he => simp [he]
  · next he hf => simp [he, hf]
  · next he hf => simp [he]

/-- Opening to write makes sure that there is a file. -/
theorem fs_open_create {p : P} {d : Disk P} (h : d.err .fs_open p = none) (trunc : Bool) :
    (fs_open p true trunc d).1 = 0 ∧ (fs_open p true trunc d).2.files p ≠ none := by
  unfold fs_open
  dsimp only
  split
  · next he => simp [h] at he
  · simp
  · next he hf =>
    refine ⟨rfl, ?_⟩
    split <;> simp [hf]

theorem fs_open_of_err {p : P} {d : Disk P} {e : Int} (h : d.err .fs_open p = some e) (create trunc : Bool) :
    fs_open p create trunc d = (e, d.called .fs_open p) := by
  simp [fs_open, h]

theorem fs_rename_fst (src dst : P) (d : Disk P) :
    (fs_rename src dst d).1 < 0 ↔ (d.err .fs_rename src).isSome ∨ d.files src = none := by
  unfold fs_rename
  dsimp only
  split
  · next e _ he => simpa [he] using d.err_neg he
  · next he hf => simp [hf, ENOENT]
  · next he hf => simp [he, hf]

theorem fs_rename_of_ok {src dst : P} {d : Disk P} (he : d.err .fs_rename src = none) {b : Bytes}
    (hb : d.files src = some b) (hne : src ≠ dst) :
    fs_rename src dst d = (0, ((d.called .fs_rename src).put dst (some b)).put src none) := by
  simp [fs_rename, he, hb, hne]

/-- What was opened for reading is a file. -/
theorem fs_open_read_ok {p : P} {d : Disk P} (h : ¬ (fs_open p false false d).1 < 0) :
    ∃ b, d.files p = some b ∧ (fs_open p false false d).2.files = d.files := by
  unfold fs_open at h ⊢
  dsimp only at h ⊢
  split
  · next e _ he => exact absurd (d.err_neg he) (by simpa [he] using h)
  · next he hf => simp [he, hf, ENOENT] at h
  · next b he hf => exact ⟨b, hf, rfl⟩

/-- What was read stands in the file. -/
theorem fs_read_ok {p : P} {off len : Nat} {d : Disk P} {chunk : Bytes} (h : (fs_read p off len d).1 = .ok chunk) :
    chunk.length ≤ len ∧ chunk <+: ((d.files p).getD []).drop off := by
  unfold fs_read at h
  dsimp only at h
  split at h
  · cases h
  · cases h
    refine ⟨?_, List.take_prefix _ _⟩
    rw [List.length_take]
    exact Nat.le_trans (Nat.min_le_left _ _) (Fault.moved_le _ _)

/-- All of the data was written over the beginning of the file. -/
theorem fs_write_all {p : P} {d : Disk P} {data : Bytes} (h : (fs_write p 0 data d).1 = data.length) :
    ∃ tail, (fs_write p 0 data d).2.files p = some (data ++ tail) := by
  unfold fs_write at h ⊢
  dsimp only at h ⊢
  cases he : d.err .fs_write p with
  | some e =>
    have := d.err_neg he
    rw [he, Option.getD_some] at h
    omega
  | none =>
    rw [he, Option.getD_none, Int.ofNat_inj] at h
    rw [Disk.files_put_self, h, List.take_length]
    exact ⟨((d.files p).getD []).drop data.length, by simp [overwrite]⟩

/-- A write without an error returns how much it has moved. -/
theorem fs_write_nonneg {p : P} {off : Nat} {data : Bytes} {d : Disk P} (h : 0 ≤ (fs_write p off data d).1) :
    (d.outcome .fs_write p).err = none ∧ (fs_write p off data d).1 = (d.outcome .fs_write p).moved data.length := by
  have heq : (fs_write p off data d).1 = (d.err .fs_write p).getD ((d.outcome .fs_write p).moved data.length) := rfl
  rw [heq] at h ⊢
  cases he : d.err .fs_write p with
  | some e =>
    have := d.err_neg he
    rw [he, Option.getD_some] at h
    omega
  | none => exact ⟨he, rfl⟩

/-- Data that is written behind the end of the file. -/
theorem fs_write_at_end {p : P} {d : Disk P} {content : Bytes} (data : Bytes) (hfile : d.files p = some content)
    (h : 0 ≤ (fs_write p content.length data d).1) :
    ∃ n ≤ data.length, (fs_write p content.length data d).1 = n ∧
      (fs_write p content.length data d).2.files p = some (content ++ data.take n) := by
  refine ⟨(d.outcome .fs_write p).moved data.length, Fault.moved_le _ _, (fs_write_nonneg h).2, ?_⟩
  simp [fs_write, hfile, overwrite]

/-- A file that is opened to be written anew is empty. -/
theorem fs_open_trunc {p : P} {d : Disk P} (h : ¬(fs_open p true true d).1 < 0) :
    (fs_open p true true d).2.files p = some [] := by
  unfold fs_open at h ⊢
  dsimp only at h ⊢
  split
  · next e _ he => exact absurd (d.err_neg he) (by simpa [he] using h)
  · simp
  · simp

theorem fs_rename_files {src dst : P} {d : Disk P} (h : ¬ (fs_rename src dst d).1 < 0) (hne : dst ≠ src) :
    (fs_rename src dst d).2.files dst = d.files src := by
  have hok := fun hbad => h ((fs_rename_fst src dst d).2 hbad)
  have he : d.err .fs_rename src = none := by
    cases he : d.err .fs_rename src with
    | none => rfl
    | some e => exact absurd (.inl (by simp [he])) hok
  obtain ⟨b, hb⟩ := Option.ne_none_iff_exists'.1 fun hn => hok (.inr hn)
  rw [fs_rename_of_ok he hb (Ne.symm hne), Disk.files_put_of_ne _ _ hne, Disk.files_put_self, hb]

theorem fs_rename_files_of_neg {src dst : P} {d : Disk P} (h : (fs_rename src dst d).1 < 0) :
    (fs_rename src dst d).2.files = d.files := by
  unfold fs_rename at h ⊢
  dsimp only at h ⊢
  split
  · rfl
  · rfl
  · next he hf => simp [he, hf] at h

theorem sameAt_fs_rename {src dst q : P} (h : q ≠ src) (h' : q ≠ dst) : Keeps (SameAt q) (fs_rename src dst) := by
  intro d; unfold fs_rename; dsimp only
  have hd := sameAt_called h d .fs_rename
  split
  · exact hd
  · exact hd
  · split
    · exact hd
    · exact sameAt_put h (sameAt_put h' hd _) _

end NodeLib
