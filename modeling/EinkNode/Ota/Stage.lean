import EinkNode.Build
import EinkNode.Lib.Runs
import EinkNode.Lib.Wire
/-!
# The staged update

`eink_ota_stage.c`: the chunks of an update go to a temporary file, the length
and the CRC of what was taken are kept in memory, and `finish` renames the file
if the CRC is the expected one. The disk may fail at every call and take a part
of a chunk, and the caller may write the chunk again.
-/
open NodeLib

namespace EinkNode.Ota

def EINK_OTA_STAGE_PATH : Path := ascii "/lfs1/ota/staged.bin"
def EINK_OTA_STAGE_TMP : Path := ascii "/lfs1/ota/staged.bin.tmp"

/-- `struct eink_ota_stage_status`. -/
structure StageStatus where
  staging_valid : Bool
  copy_in_progress : Bool
  staged_bytes : UInt32
  last_result : Int
deriving DecidableEq

/-- The variables of the module. The open file is the temporary one. -/
structure Stage where
  g_st : StageStatus
  g_writing : Bool
  g_crc : UInt32
deriving DecidableEq

/-- After `eink_ota_stage_init`. -/
def Stage.init : Stage := ⟨⟨false, false, 0, 0⟩, false, 0⟩

/-- `fs_write` at the position that the writes before have left. -/
def fs_append (p : Path) (data : Bytes) : FS Int := fun d => fs_write p ((d.files p).getD []).length data d

/-- The start of a session, unless there is one. `dir` is the result of `ensure_ota_dir`. -/
def begin_session (s : Stage) (dir : Int) : FS (Int × Stage) := do
  if s.g_writing then pure (0, s)
  else if dir < 0 then pure (dir, s)
  else
    let ret ← fs_open EINK_OTA_STAGE_TMP true true
    if ret < 0 then pure (ret, s)
    else
      pure (0, ⟨{ s.g_st with staged_bytes := 0, copy_in_progress := false, staging_valid := false }, true, 0⟩)

/-- A chunk in a session. What is in the file counts once the whole chunk is. -/
def write_chunk (s : Stage) (data : Bytes) : FS (Int × Stage) := do
  if data = [] then pure (0, s)
  else
    let ret ← fs_append EINK_OTA_STAGE_TMP data
    if ret ≠ data.length then pure (if ret < 0 then ret else -EIOERR, s)
    else
      pure (0, { s with
        g_crc := crc32_ieee_update s.g_crc data
        g_st := { s.g_st with staged_bytes := s.g_st.staged_bytes + .ofNat data.length } })

def eink_ota_stage_write (s : Stage) (dir : Int) (data : Bytes) : FS (Int × Stage) := do
  let (ret, s) ← begin_session s dir
  if ret < 0 then pure (ret, s) else write_chunk s data

/-- The end of a session that has an error. -/
def drop_session (s : Stage) (e : Int) : FS (Int × Stage) := do
  let _ ← fs_unlink EINK_OTA_STAGE_TMP
  pure (e, { s with g_writing := false, g_st := { s.g_st with last_result := e } })

/-- The end of a session whose CRC is the expected one. -/
def rename_session (s : Stage) : FS (Int × Stage) := do
  let _ ← fs_unlink EINK_OTA_STAGE_PATH
  let ret ← fs_rename EINK_OTA_STAGE_TMP EINK_OTA_STAGE_PATH
  pure (ret, { s with g_writing := false, g_st := { s.g_st with staging_valid := ret = 0, last_result := ret } })

def eink_ota_stage_finish (s : Stage) (expected_crc32 : UInt32) : FS (Int × Stage) := do
  if !s.g_writing then pure (-EINVAL, s)
  else
    let ret ← fs_sync EINK_OTA_STAGE_TMP
    if ret < 0 then drop_session s ret
    else if s.g_crc ≠ expected_crc32 then drop_session s (-EILSEQ)
    else rename_session s

/-- Nothing is copied yet: the boot slot is not on this board. -/
def eink_ota_stage_install_slot1 (s : Stage) : Int × Stage :=
  if !s.g_st.staging_valid then (-ENOENT, s)
  else (-ENOTSUP, { s with g_st := { s.g_st with copy_in_progress := false, last_result := -ENOTSUP } })

/-! ## Runs -/

inductive StageEvent
  | write (dir : Int) (data : Bytes)
  | finish (expected_crc32 : UInt32)
  | install

/-- The module, the disk, and what has happened: the CRC that the last session
was finished with, and whether a part of a chunk of the session is in the file. -/
structure Staged where
  stage : Stage
  disk : Disk Path
  finished : UInt32
  torn : Bool

/-- The disk will take some bytes of the chunk and not report all of them. -/
def TakesPart (d : Disk Path) (data : Bytes) : Prop :=
  0 < (d.outcome .fs_write EINK_OTA_STAGE_TMP).moved data.length ∧
  (fs_append EINK_OTA_STAGE_TMP data d).1 ≠ data.length

instance (d : Disk Path) (data : Bytes) : Decidable (TakesPart d data) := inferInstanceAs (Decidable (_ ∧ _))

/-- Whether the session after a write has a torn file. -/
def torn_after (s : Staged) (dir : Int) (data : Bytes) : Bool :=
  let ((ret, _), d) := begin_session s.stage dir s.disk
  if ret < 0 then s.torn
  else (s.stage.g_writing && s.torn) || TakesPart d data

def stage_step (s : Staged) : StageEvent → Staged
  | .write dir data =>
    let r := eink_ota_stage_write s.stage dir data s.disk
    ⟨r.1.2, r.2, s.finished, torn_after s dir data⟩
  | .finish expected_crc32 =>
    let r := eink_ota_stage_finish s.stage expected_crc32 s.disk
    ⟨r.1.2, r.2, if s.stage.g_writing then expected_crc32 else s.finished, s.torn⟩
  | .install => { s with stage := (eink_ota_stage_install_slot1 s.stage).2 }

/-- At start-up, on any disk. -/
def staged_init (d : Disk Path) : Staged := ⟨.init, d, 0, false⟩

/-- What is valid is in the file. -/
def StagedTrue (s : Staged) : Prop :=
  s.stage.g_st.staging_valid = true → ∃ file, s.disk.files EINK_OTA_STAGE_PATH = some file ∧
    crc32_ieee file = s.finished ∧ file.length = s.stage.g_st.staged_bytes.toNat

/-- The session ends with the rename. -/
def GoesThrough (s : Staged) (expected_crc32 : UInt32) : Prop :=
  s.stage.g_writing = true ∧ s.disk.err .fs_sync EINK_OTA_STAGE_TMP = none ∧ s.stage.g_crc = expected_crc32 ∧
    s.disk.err .fs_rename EINK_OTA_STAGE_TMP = none

/-- A session that goes through has a file of less than 4 GiB and no part of a chunk in it. -/
def FinishesWhole (s : Staged) : StageEvent → Prop
  | .finish expected_crc32 => GoesThrough s expected_crc32 →
    s.torn = false ∧ ((s.disk.files EINK_OTA_STAGE_TMP).getD []).length < 2 ^ 32
  | _ => True

/-! ## The calls -/

theorem path_ne_tmp : EINK_OTA_STAGE_PATH ≠ EINK_OTA_STAGE_TMP := by decide

/-- The stage at the start of a session. -/
def Stage.opened (s : Stage) : Stage :=
  ⟨{ s.g_st with staged_bytes := 0, copy_in_progress := false, staging_valid := false }, true, 0⟩

/-- There is a session, there is none because of an error, or a new one starts with an empty file. -/
theorem begin_session_cases (s : Stage) (dir : Int) (d : Disk Path) :
    s.g_writing = true ∧ begin_session s dir d = ((0, s), d) ∨
    s.g_writing = false ∧ (∃ e d', e < 0 ∧ d'.files = d.files ∧ begin_session s dir d = ((e, s), d')) ∨
    s.g_writing = false ∧ ∃ d', d'.files EINK_OTA_STAGE_TMP = some [] ∧
      (∀ q ≠ EINK_OTA_STAGE_TMP, d'.files q = d.files q) ∧ begin_session s dir d = ((0, s.opened), d') := by
  unfold begin_session
  cases hw : s.g_writing with
  | true => exact .inl ⟨rfl, rfl⟩
  | false =>
    by_cases hdir : dir < 0
    · exact .inr (.inl ⟨rfl, dir, d, hdir, rfl, by simp [hdir]⟩)
    · cases he : d.err .fs_open EINK_OTA_STAGE_TMP with
      | some e =>
        have hneg := Disk.err_neg he
        exact .inr (.inl ⟨rfl, e, d.called .fs_open EINK_OTA_STAGE_TMP, hneg, rfl, by simp [hdir, fs_open, he, hneg]⟩)
      | none =>
        refine .inr (.inr ⟨rfl, (d.called .fs_open EINK_OTA_STAGE_TMP).put EINK_OTA_STAGE_TMP (some []), ?_, ?_, ?_⟩)
        · simp
        · intro q hq
          simp [Disk.files_put_of_ne _ _ hq]
        · cases hf : d.files EINK_OTA_STAGE_TMP <;> simp [hdir, fs_open, he, hf, Stage.opened]

/-- What the disk takes of a chunk goes to the end of the file. -/
theorem fs_append_spec {p : Path} {d : Disk Path} {file : Bytes} (hf : d.files p = some file) (data : Bytes) :
    (fs_append p data d).2.files p = some (file ++ data.take ((d.outcome .fs_write p).moved data.length)) ∧
    ∀ q ≠ p, (fs_append p data d).2.files q = d.files q := by
  refine ⟨?_, fun q hq => ?_⟩
  · simp [fs_append, fs_write, hf, overwrite]
  · simp [fs_append, fs_write, Disk.files_put_of_ne _ _ hq]

/-- A chunk that is reported as taken was taken. -/
theorem moved_of_append {p : Path} {data : Bytes} {d : Disk Path} (h : (fs_append p data d).1 = data.length) :
    (d.outcome .fs_write p).moved data.length = data.length := by
  have hval : (d.err .fs_write p).getD ((d.outcome .fs_write p).moved data.length) = (data.length : Int) := h
  cases he : d.err .fs_write p with
  | none =>
    rw [he, Option.getD_none] at hval
    exact Int.ofNat.inj hval
  | some e =>
    rw [he] at hval
    have := Disk.err_neg he
    simp only [Option.getD_some] at hval
    omega

/-! ## The file of a session -/

/-- Unless the file is torn, the module has its length and its CRC. A torn file is longer. -/
def SessionFile (s : Stage) (d : Disk Path) (torn : Bool) : Prop :=
  ∃ file taken, d.files EINK_OTA_STAGE_TMP = some file ∧ s.g_st.staged_bytes = UInt32.ofNat taken ∧
    (torn = false → file.length = taken ∧ crc32_ieee file = s.g_crc) ∧ (torn = true → taken < file.length)

theorem sessionFile_write_chunk {s : Stage} {d : Disk Path} {torn : Bool} (h : SessionFile s d torn) (data : Bytes) :
    SessionFile (write_chunk s data d).1.2 (write_chunk s data d).2 (torn || TakesPart d data) := by
  obtain ⟨file, taken, hf, hbytes, hwhole, htorn⟩ := h
  obtain ⟨hfile, -⟩ := fs_append_spec hf data
  have hle := Fault.moved_le (d.outcome .fs_write EINK_OTA_STAGE_TMP) data.length
  unfold write_chunk
  by_cases hdata : data = []
  · have hpart : ¬TakesPart d data := fun hp => absurd hp.1 (by rw [hdata] at hle ⊢; simpa using hle)
    rw [if_pos hdata, decide_eq_false hpart, Bool.or_false]
    exact ⟨file, taken, hf, hbytes, hwhole, htorn⟩
  · rw [if_neg hdata, bind_app]
    by_cases hret : (fs_append EINK_OTA_STAGE_TMP data d).1 = data.length
    · have hpart : ¬TakesPart d data := fun hp => hp.2 hret
      rw [if_neg (not_not.2 hret), decide_eq_false hpart, Bool.or_false]
      rw [moved_of_append hret, List.take_length] at hfile
      refine ⟨file ++ data, taken + data.length, hfile, ?_, fun ht => ?_, fun ht => ?_⟩
      · show s.g_st.staged_bytes + _ = _
        rw [hbytes, UInt32.ofNat_add]
      · obtain ⟨hlen, hcrc⟩ := hwhole ht
        exact ⟨by rw [List.length_append, hlen], by rw [crc32_ieee_append, hcrc]; rfl⟩
      · have := htorn ht
        rw [List.length_append]
        omega
    · rw [if_pos hret]
      -- The module counts nothing, and the file may have grown.
      refine ⟨_, taken, hfile, hbytes, fun ht => ?_, fun ht => ?_⟩
      · obtain ⟨h0, hpart⟩ := Bool.or_eq_false_iff.1 ht
        have hzero : (d.outcome .fs_write EINK_OTA_STAGE_TMP).moved data.length = 0 := by
          by_contra hpos
          exact of_decide_eq_false hpart ⟨Nat.pos_of_ne_zero hpos, hret⟩
        rw [hzero, List.take_zero, List.append_nil]
        exact hwhole h0
      · rw [List.length_append, List.length_take]
        rcases Bool.or_eq_true_iff.1 ht with h1 | h1
        · exact Nat.lt_add_right _ (htorn h1)
        · have hpos := (of_decide_eq_true h1).1
          cases ht0 : torn with
          | true => exact Nat.lt_add_right _ (htorn ht0)
          | false =>
            have := (hwhole ht0).1
            omega

/-- What a chunk leaves alone. -/
theorem write_chunk_frame (s : Stage) (data : Bytes) (d : Disk Path) :
    (write_chunk s data d).1.2.g_writing = s.g_writing ∧
    (write_chunk s data d).1.2.g_st.staging_valid = s.g_st.staging_valid ∧
    ∀ q ≠ EINK_OTA_STAGE_TMP, (write_chunk s data d).2.files q = d.files q := by
  have hfiles : ∀ q ≠ EINK_OTA_STAGE_TMP, (fs_append EINK_OTA_STAGE_TMP data d).2.files q = d.files q := by
    intro q hq
    simp [fs_append, fs_write, Disk.files_put_of_ne _ _ hq]
  unfold write_chunk
  split
  · exact ⟨rfl, rfl, fun q _ => rfl⟩
  · rw [bind_app]
    split
    · exact ⟨rfl, rfl, hfiles⟩
    · exact ⟨rfl, rfl, hfiles⟩

/-! ## The invariant -/

/-- In a session nothing is valid, and the file is the one the module knows of. -/
structure SessionInv (s : Staged) : Prop where
  not_valid : s.stage.g_writing = true → s.stage.g_st.staging_valid = false
  file : s.stage.g_writing = true → SessionFile s.stage s.disk s.torn

theorem sessionInv_init (d : Disk Path) : SessionInv (staged_init d) := ⟨fun h => (nomatch h), fun h => (nomatch h)⟩

/-- A write changes nothing that counts, or it is a chunk in a session. -/
theorem write_step {s : Staged} (h : SessionInv s) (dir : Int) (data : Bytes) :
    (s.stage.g_writing = false ∧ ∃ d, d.files = s.disk.files ∧
      stage_step s (.write dir data) = { s with disk := d }) ∨
    ∃ stage d torn, stage.g_writing = true ∧ stage.g_st.staging_valid = false ∧ SessionFile stage d torn ∧
      stage_step s (.write dir data) =
        ⟨(write_chunk stage data d).1.2, (write_chunk stage data d).2, s.finished, torn || TakesPart d data⟩ := by
  rcases begin_session_cases s.stage dir s.disk with ⟨hw, hb⟩ | ⟨hw, e, d, he, hd, hb⟩ | ⟨hw, d, hempty, -, hb⟩
  · refine .inr ⟨s.stage, s.disk, s.torn, hw, h.not_valid hw, h.file hw, ?_⟩
    simp [stage_step, eink_ota_stage_write, torn_after, hb, hw]
  · refine .inl ⟨hw, d, hd, ?_⟩
    simp [stage_step, eink_ota_stage_write, torn_after, hb, he]
  · refine .inr ⟨s.stage.opened, d, false, rfl, rfl,
      ⟨[], 0, hempty, rfl, fun _ => ⟨rfl, by simp [Stage.opened]⟩, nofun⟩, ?_⟩
    simp [stage_step, eink_ota_stage_write, torn_after, hb, hw]

/-- The module as a session leaves it that goes through. -/
def Stage.closed (s : Stage) : Stage :=
  { s with g_writing := false, g_st := { s.g_st with staging_valid := true, last_result := 0 } }

theorem rename_session_cases (s : Stage) {d : Disk Path} {file : Bytes} (hf : d.files EINK_OTA_STAGE_TMP = some file) :
    (d.err .fs_rename EINK_OTA_STAGE_TMP = none ∧ ∃ d', d'.files EINK_OTA_STAGE_PATH = some file ∧
      rename_session s d = ((0, s.closed), d')) ∨
    (d.err .fs_rename EINK_OTA_STAGE_TMP ≠ none ∧ (rename_session s d).1.2.g_writing = false ∧
      (rename_session s d).1.2.g_st.staging_valid = false) := by
  have hunlink : (fs_unlink EINK_OTA_STAGE_PATH d).2.files EINK_OTA_STAGE_TMP = some file ∧
      (fs_unlink EINK_OTA_STAGE_PATH d).2.err .fs_rename EINK_OTA_STAGE_TMP = d.err .fs_rename EINK_OTA_STAGE_TMP := by
    unfold fs_unlink
    dsimp only
    split
    · exact ⟨hf, by simp⟩
    · exact ⟨hf, by simp⟩
    · exact ⟨by rw [Disk.files_put_of_ne _ _ path_ne_tmp.symm]; exact hf, by simp⟩
  unfold rename_session
  rw [bind_app, bind_app]
  generalize (fs_unlink EINK_OTA_STAGE_PATH d).2 = d1 at hunlink
  obtain ⟨hf1, herr⟩ := hunlink
  rw [← herr]
  cases he : d1.err .fs_rename EINK_OTA_STAGE_TMP with
  | none =>
    refine .inl ⟨rfl, (fs_rename EINK_OTA_STAGE_TMP EINK_OTA_STAGE_PATH d1).2, ?_, ?_⟩
    · simp [fs_rename, he, hf1, path_ne_tmp.symm, Disk.files_put_of_ne _ _ path_ne_tmp]
    · simp [fs_rename, he, hf1, Stage.closed]
  | some e =>
    have hneg := Int.ne_of_lt (Disk.err_neg he)
    exact .inr ⟨Option.some_ne_none e, rfl, by simp [fs_rename, he, hneg]⟩

/-- A finish in a session ends it: by the rename, or without anything valid. -/
theorem finish_cases {s : Stage} {d : Disk Path} {file : Bytes} (hw : s.g_writing = true)
    (hf : d.files EINK_OTA_STAGE_TMP = some file) (hv : s.g_st.staging_valid = false) (expected_crc32 : UInt32) :
    (d.err .fs_sync EINK_OTA_STAGE_TMP = none ∧ s.g_crc = expected_crc32 ∧ d.err .fs_rename EINK_OTA_STAGE_TMP = none ∧
      ∃ d', d'.files EINK_OTA_STAGE_PATH = some file ∧ eink_ota_stage_finish s expected_crc32 d = ((0, s.closed), d')) ∨
    (¬(d.err .fs_sync EINK_OTA_STAGE_TMP = none ∧ s.g_crc = expected_crc32 ∧
        d.err .fs_rename EINK_OTA_STAGE_TMP = none) ∧
      (eink_ota_stage_finish s expected_crc32 d).1.2.g_writing = false ∧
      (eink_ota_stage_finish s expected_crc32 d).1.2.g_st.staging_valid = false) := by
  unfold eink_ota_stage_finish
  rw [hw, Bool.not_true, if_neg Bool.false_ne_true, bind_app]
  cases hsync : d.err .fs_sync EINK_OTA_STAGE_TMP with
  | some e =>
    have hret : (fs_sync EINK_OTA_STAGE_TMP d).1 = e := by simp [fs_sync, hsync]
    rw [hret, if_pos (Disk.err_neg hsync)]
    exact .inr ⟨fun h => Option.some_ne_none e h.1, rfl, hv⟩
  | none =>
    have hret : (fs_sync EINK_OTA_STAGE_TMP d).1 = 0 := by simp [fs_sync, hsync]
    have herr : (fs_sync EINK_OTA_STAGE_TMP d).2.err .fs_rename EINK_OTA_STAGE_TMP
        = d.err .fs_rename EINK_OTA_STAGE_TMP := by simp [fs_sync]
    rw [hret, if_neg (Int.lt_irrefl 0)]
    by_cases hcrc : s.g_crc = expected_crc32
    · rw [if_neg (not_not.2 hcrc), ← herr]
      rcases rename_session_cases s (show (fs_sync EINK_OTA_STAGE_TMP d).2.files _ = _ from hf) with h | ⟨he, h⟩
      · exact .inl ⟨rfl, hcrc, h⟩
      · exact .inr ⟨fun h => he h.2.2, h⟩
    · rw [if_pos hcrc]
      exact .inr ⟨fun h => hcrc h.2.1, rfl, hv⟩

theorem finish_without_session {s : Staged} (hw : s.stage.g_writing = false) (expected_crc32 : UInt32) :
    stage_step s (.finish expected_crc32) = s := by
  simp [stage_step, eink_ota_stage_finish, hw]

theorem install_frame (s : Stage) : (eink_ota_stage_install_slot1 s).2.g_writing = s.g_writing ∧
    (eink_ota_stage_install_slot1 s).2.g_crc = s.g_crc ∧
    (eink_ota_stage_install_slot1 s).2.g_st.staging_valid = s.g_st.staging_valid ∧
    (eink_ota_stage_install_slot1 s).2.g_st.staged_bytes = s.g_st.staged_bytes := by
  unfold eink_ota_stage_install_slot1
  split
  · exact ⟨rfl, rfl, rfl, rfl⟩
  · exact ⟨rfl, rfl, rfl, rfl⟩

theorem sessionInv_step {s : Staged} (h : SessionInv s) (e : StageEvent) : SessionInv (stage_step s e) := by
  cases e with
  | write dir data =>
    rcases write_step h dir data with ⟨hw, d, -, hs⟩ | ⟨stage, d, torn, hw, hv, hfile, hs⟩
    · rw [hs]
      exact ⟨h.not_valid, fun hw' => absurd (hw.symm.trans hw') Bool.false_ne_true⟩
    · rw [hs]
      obtain ⟨-, hv', -⟩ := write_chunk_frame stage data d
      exact ⟨fun _ => hv'.trans hv, fun _ => sessionFile_write_chunk hfile data⟩
  | finish expected_crc32 =>
    cases hw : s.stage.g_writing with
    | false =>
      rw [finish_without_session hw]
      exact h
    | true =>
      obtain ⟨file, taken, hf, -⟩ := h.file hw
      have hend : (stage_step s (.finish expected_crc32)).stage.g_writing = false := by
        rcases finish_cases hw hf (h.not_valid hw) expected_crc32 with ⟨-, -, -, d, -, he⟩ | ⟨-, he, -⟩
        · simp only [stage_step, he]
          rfl
        · exact he
      exact ⟨fun hw' => absurd (hend.symm.trans hw') Bool.false_ne_true,
        fun hw' => absurd (hend.symm.trans hw') Bool.false_ne_true⟩
  | install =>
    obtain ⟨hw, hcrc, hv, hbytes⟩ := install_frame s.stage
    refine ⟨fun hw' => hv.trans (h.not_valid (hw.symm.trans hw')), fun hw' => ?_⟩
    obtain ⟨file, taken, hf, hb, hwhole, htorn⟩ := h.file (hw.symm.trans hw')
    exact ⟨file, taken, hf, hbytes.trans hb, fun ht => ⟨(hwhole ht).1, (hwhole ht).2.trans hcrc.symm⟩, htorn⟩

/-- Only a finish can make something valid that is not in the file. -/
theorem stagedTrue_step_iff {s : Staged} (hi : SessionInv s) (h : StagedTrue s) (e : StageEvent) :
    StagedTrue (stage_step s e) ↔ FinishesWhole s e := by
  cases e with
  | write dir data =>
    refine ⟨fun _ => trivial, fun _ => ?_⟩
    rcases write_step hi dir data with ⟨-, d, hd, hs⟩ | ⟨stage, d, torn, -, hv, -, hs⟩
    · rw [hs]
      intro hvalid
      rw [show ({ s with disk := d } : Staged).disk.files = s.disk.files from hd]
      exact h hvalid
    · rw [hs]
      intro hvalid
      obtain ⟨-, hv', -⟩ := write_chunk_frame stage data d
      exact absurd ((hv'.trans hv).symm.trans hvalid) Bool.false_ne_true
  | finish expected_crc32 =>
    cases hw : s.stage.g_writing with
    | false =>
      rw [finish_without_session hw]
      exact ⟨fun _ hthrough => absurd (hw.symm.trans hthrough.1) Bool.false_ne_true, fun _ => h⟩
    | true =>
      obtain ⟨file, taken, hf, hb, hwhole, htorn⟩ := hi.file hw
      rcases finish_cases hw hf (hi.not_valid hw) expected_crc32 with ⟨hsync, hcrc, hren, d, hd, he⟩ | ⟨hno, -, hv⟩
      · have hstep : stage_step s (.finish expected_crc32) = ⟨s.stage.closed, d, expected_crc32, s.torn⟩ := by
          simp [stage_step, he, hw]
        have hcount : s.stage.g_st.staged_bytes.toNat = taken % 2 ^ 32 := by rw [hb, UInt32.toNat_ofNat']
        rw [hstep]
        constructor
        · intro htrue _
          obtain ⟨file', hf', -, hlen⟩ := htrue rfl
          obtain rfl : file = file' := Option.some.inj (hd.symm.trans hf')
          have hlen' : file.length = taken % 2 ^ 32 := hlen.trans hcount
          have hlt : taken % 2 ^ 32 < 2 ^ 32 := Nat.mod_lt _ (by decide)
          have hle : taken % 2 ^ 32 ≤ taken := Nat.mod_le _ _
          rw [hf, Option.getD_some]
          refine ⟨?_, by omega⟩
          cases ht : s.torn with
          | false => rfl
          | true =>
            have := htorn ht
            omega
        · intro hwholeAt _
          obtain ⟨ht, hlt⟩ := hwholeAt ⟨hw, hsync, hcrc, hren⟩
          rw [hf, Option.getD_some] at hlt
          obtain ⟨hlen, hfcrc⟩ := hwhole ht
          refine ⟨file, hd, hfcrc.trans hcrc, ?_⟩
          show file.length = s.stage.g_st.staged_bytes.toNat
          rw [hcount, ← hlen, Nat.mod_eq_of_lt hlt]
      · refine ⟨fun _ hthrough => absurd ⟨hthrough.2.1, hthrough.2.2.1, hthrough.2.2.2⟩ hno, fun _ hvalid => ?_⟩
        exact absurd (hv.symm.trans hvalid) Bool.false_ne_true
  | install =>
    refine ⟨fun _ => trivial, fun _ hvalid => ?_⟩
    obtain ⟨-, -, hv, hbytes⟩ := install_frame s.stage
    obtain ⟨file, hf, hcrc, hlen⟩ := h (hv.symm.trans hvalid)
    exact ⟨file, hf, hcrc, hlen.trans (congrArg UInt32.toNat hbytes.symm)⟩

/-- Over a run on any disk, what is valid is in the file all the time if and only
if every session that goes through is whole. -/
theorem staged_true_iff (d : Disk Path) (es : List StageEvent) :
    (∀ n, StagedTrue (run stage_step (staged_init d) (es.take n))) ↔
      Meets stage_step FinishesWhole (staged_init d) es :=
  forall_take_iff_meets SessionInv (sessionInv_init d) (fun h => nomatch h) (fun _ e hi => sessionInv_step hi e)
    fun _ e hi h => stagedTrue_step_iff hi h e

/-- A disk that takes one byte of the first chunk. -/
def shortDisk : Disk Path :=
  ⟨fun _ => none, fun c p => if c = .fs_write ∧ p = EINK_OTA_STAGE_TMP then [.short 1] else []⟩

/-- The chunk is written again after the error, and the session is finished. -/
def chunkAgain : List StageEvent := [.write 0 [1, 2], .write 0 [1, 2], .finish (crc32_ieee [1, 2])]

theorem valid_over_torn_file : ¬StagedTrue (run stage_step (staged_init shortDisk) chunkAgain) := by
  intro h
  obtain ⟨file, hf, -, hlen⟩ := h (by decide +kernel)
  have hfile : (run stage_step (staged_init shortDisk) chunkAgain).disk.files EINK_OTA_STAGE_PATH = some [1, 1, 2] := by
    decide +kernel
  obtain rfl : [1, 1, 2] = file := Option.some.inj (hfile.symm.trans hf)
  have hcount : (run stage_step (staged_init shortDisk) chunkAgain).stage.g_st.staged_bytes.toNat = 2 := by
    decide +kernel
  rw [hcount] at hlen
  exact absurd hlen (by decide)

end EinkNode.Ota
