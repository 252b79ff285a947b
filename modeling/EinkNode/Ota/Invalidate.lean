import EinkNode.Ota.Stage
/-!
# Invalidating the staged update

`eink_ota_stage_invalidate` unlinks both files and clears the status. The open
file, the flag that says so and the running CRC stay as they are: a download
that was in progress goes on, into a file that has lost its name.
-/
open NodeLib

namespace EinkNode.Ota

def eink_ota_stage_invalidate (s : Stage) : FS (Int × Stage) := do
  let _ ← fs_unlink EINK_OTA_STAGE_PATH
  let _ ← fs_unlink EINK_OTA_STAGE_TMP
  pure (0, { s with g_st := { s.g_st with staging_valid := false, staged_bytes := 0 } })

/-! ## The open file -/

/-- The module, the names on the disk, and what the open file holds if its name has been unlinked. -/
structure Device where
  stage : Stage
  disk : Disk Path
  orphan : Option Bytes

/-- After `eink_ota_stage_init`, on a disk where no call fails. -/
def Device.start (files : Path → Option Bytes) : Device := ⟨.init, .calm files, none⟩

/-- The disk as it is seen through the open file. -/
def Device.view (s : Device) : Disk Path :=
  match s.orphan with
  | none => s.disk
  | some file => s.disk.put EINK_OTA_STAGE_TMP (some file)

def Device.write (s : Device) (data : Bytes) : Int × Device :=
  let r := eink_ota_stage_write s.stage 0 data s.view
  match s.orphan with
  | none => (r.1.1, ⟨r.1.2, r.2, none⟩)
  | some _ => (r.1.1, ⟨r.1.2, r.2.put EINK_OTA_STAGE_TMP none, r.2.files EINK_OTA_STAGE_TMP⟩)

/-- A session that ends closes the file; the rename is one of names. -/
def Device.finish (s : Device) (expected_crc32 : UInt32) : Int × Device :=
  let r := eink_ota_stage_finish s.stage expected_crc32 s.disk
  (r.1.1, ⟨r.1.2, r.2, none⟩)

def Device.invalidate (s : Device) : Device :=
  let r := eink_ota_stage_invalidate s.stage s.disk
  ⟨r.1.2, r.2, if s.stage.g_writing then s.orphan.or (s.disk.files EINK_OTA_STAGE_TMP) else none⟩

inductive DeviceEvent
  | write (data : Bytes)
  | finish (expected_crc32 : UInt32)
  | invalidate

def device_step (s : Device) : DeviceEvent → Device
  | .write data => (s.write data).2
  | .finish expected_crc32 => (s.finish expected_crc32).2
  | .invalidate => s.invalidate

def Device.writes (s : Device) (ds : List Bytes) : Device := ds.foldl (fun s data => (s.write data).2) s

/-- The chunks of an update, and its end with their CRC. -/
def Device.download (s : Device) (ds : List Bytes) : Int × Device := (s.writes ds).finish (crc32_ieee ds.flatten)

/-- After an invalidation a download goes through, as it would after a start on the same disk. -/
def StartsClean (s : Device) (ds : List Bytes) : Prop :=
  (s.invalidate.download ds).1 = 0 ∧
  (s.invalidate.download ds).2.stage.g_st.staging_valid = true ∧
  (s.invalidate.download ds).2.stage.g_st.staged_bytes.toNat = ds.flatten.length ∧
  (s.invalidate.download ds).2.disk.files EINK_OTA_STAGE_PATH = some ds.flatten ∧
  s.invalidate.download ds = Device.download ⟨.init, s.invalidate.disk, none⟩ ds

/-! ## On a disk where nothing fails -/

/-- A stage that has taken `data` more. -/
def Stage.fed (s : Stage) (data : Bytes) : Stage :=
  { s with
    g_crc := crc32_ieee_update s.g_crc data
    g_st := { s.g_st with staged_bytes := s.g_st.staged_bytes + .ofNat data.length } }

theorem fed_nil (s : Stage) : s.fed [] = s := by
  simp [Stage.fed, crc32_ieee_update]

theorem fed_append (s : Stage) (a c : Bytes) : s.fed (a ++ c) = (s.fed a).fed c := by
  simp [Stage.fed, crc32_ieee_update_append, UInt32.ofNat_add, UInt32.add_assoc]

section
variable {s : Stage} {files : Path → Option Bytes} {file : Bytes}

theorem write_chunk_calm (hfile : files EINK_OTA_STAGE_TMP = some file) (data : Bytes) :
    write_chunk s data (.calm files) =
      ((0, s.fed data), .calm fun q => if q = EINK_OTA_STAGE_TMP then some (file ++ data) else files q) := by
  unfold write_chunk
  by_cases hdata : data = []
  · subst hdata
    rw [if_pos rfl, fed_nil, List.append_nil, put_same hfile]
    rfl
  · have happend : fs_append EINK_OTA_STAGE_TMP data (.calm files) =
        ((data.length : Int), .calm fun q => if q = EINK_OTA_STAGE_TMP then some (file ++ data) else files q) := by
      have hend : file.drop (file.length + data.length) = [] := List.drop_of_length_le (Nat.le_add_right _ _)
      simp [fs_append, fs_write_calm, hfile, overwrite, hend]
    rw [if_neg hdata, bind_app, happend]
    dsimp only
    rw [if_neg (not_not.2 rfl)]
    rfl

/-- A chunk in a session. -/
theorem write_open (hw : s.g_writing = true) (hfile : files EINK_OTA_STAGE_TMP = some file) (data : Bytes) :
    eink_ota_stage_write s 0 data (.calm files) =
      ((0, s.fed data), .calm fun q => if q = EINK_OTA_STAGE_TMP then some (file ++ data) else files q) := by
  have hbegin : begin_session s 0 (.calm files) = ((0, s), .calm files) := by
    rw [begin_session, if_pos hw]
    rfl
  unfold eink_ota_stage_write
  rw [bind_app, hbegin]
  dsimp only
  rw [if_neg (Int.lt_irrefl 0), write_chunk_calm hfile]

/-- The first chunk of a session. -/
theorem write_first (hw : s.g_writing = false) (data : Bytes) :
    eink_ota_stage_write s 0 data (.calm files) =
      ((0, s.opened.fed data), .calm fun q => if q = EINK_OTA_STAGE_TMP then some data else files q) := by
  have hbegin : begin_session s 0 (.calm files) =
      ((0, s.opened), .calm fun q => if q = EINK_OTA_STAGE_TMP then some [] else files q) := by
    rw [begin_session, hw, if_neg Bool.false_ne_true, if_neg (Int.lt_irrefl 0), bind_app, fs_open_calm]
    rfl
  unfold eink_ota_stage_write
  rw [bind_app, hbegin]
  dsimp only
  rw [if_neg (Int.lt_irrefl 0), write_chunk_calm (if_pos rfl)]
  simp only [put_put, List.nil_append]

end

/-! ## A download -/

/-- Between two calls: nothing fails, a session has its file under the name or without one, and else there is none. -/
structure DeviceInv (s : Device) : Prop where
  calm : s.disk = .calm s.disk.files
  session : s.stage.g_writing = true → s.orphan = none → ∃ file, s.disk.files EINK_OTA_STAGE_TMP = some file
  orphan : s.orphan ≠ none → s.stage.g_writing = true ∧ s.disk.files EINK_OTA_STAGE_TMP = none

theorem deviceInv_start (files : Path → Option Bytes) : DeviceInv (Device.start files) :=
  ⟨rfl, fun h => (nomatch h), fun h => absurd rfl h⟩

section
variable {stage : Stage} {files : Path → Option Bytes}

theorem device_write_open {file : Bytes} (hw : stage.g_writing = true) (hfile : files EINK_OTA_STAGE_TMP = some file)
    (data : Bytes) :
    (Device.write ⟨stage, .calm files, none⟩ data).2 = ⟨stage.fed data,
      .calm fun q => if q = EINK_OTA_STAGE_TMP then some (file ++ data) else files q, none⟩ := by
  unfold Device.write Device.view
  dsimp only
  rw [write_open hw hfile]

theorem device_write_first (hw : stage.g_writing = false) (data : Bytes) :
    (Device.write ⟨stage, .calm files, none⟩ data).2 = ⟨stage.opened.fed data,
      .calm fun q => if q = EINK_OTA_STAGE_TMP then some data else files q, none⟩ := by
  unfold Device.write Device.view
  dsimp only
  rw [write_first hw]

end

/-- A session whose file has its name takes all chunks. -/
theorem writes_open {stage : Stage} {files : Path → Option Bytes} {file : Bytes} (hw : stage.g_writing = true)
    (hfile : files EINK_OTA_STAGE_TMP = some file) (ds : List Bytes) :
    Device.writes ⟨stage, .calm files, none⟩ ds = ⟨stage.fed ds.flatten,
      .calm fun q => if q = EINK_OTA_STAGE_TMP then some (file ++ ds.flatten) else files q, none⟩ := by
  induction ds generalizing stage files file with
  | nil =>
    rw [List.flatten_nil, List.append_nil, fed_nil, put_same hfile]
    rfl
  | cons data ds ih =>
    unfold Device.writes at ih ⊢
    have hrest := @ih (stage.fed data) (fun q => if q = EINK_OTA_STAGE_TMP then some (file ++ data) else files q)
      (file ++ data) hw (if_pos rfl)
    rw [List.foldl_cons, device_write_open hw hfile, hrest, List.flatten_cons, fed_append]
    simp only [put_put, List.append_assoc]

/-- A session that is begun takes all chunks, whatever was there before. -/
theorem writes_first {stage : Stage} {files : Path → Option Bytes} (hw : stage.g_writing = false) {ds : List Bytes}
    (hne : ds ≠ []) :
    Device.writes ⟨stage, .calm files, none⟩ ds = ⟨stage.opened.fed ds.flatten,
      .calm fun q => if q = EINK_OTA_STAGE_TMP then some ds.flatten else files q, none⟩ := by
  cases ds with
  | nil => exact absurd rfl hne
  | cons data ds =>
    have hrest := @writes_open (stage.opened.fed data)
      (fun q => if q = EINK_OTA_STAGE_TMP then some data else files q) data rfl (if_pos rfl) ds
    unfold Device.writes at hrest ⊢
    rw [List.foldl_cons, device_write_first hw, hrest, List.flatten_cons, fed_append]
    simp only [put_put]

/-- The session ends with its file under the other name. -/
theorem finish_open {stage : Stage} {files : Path → Option Bytes} {file : Bytes} (hw : stage.g_writing = true)
    (hfile : files EINK_OTA_STAGE_TMP = some file) {expected_crc32 : UInt32} (hcrc : stage.g_crc = expected_crc32) :
    Device.finish ⟨stage, .calm files, none⟩ expected_crc32 = (0, ⟨stage.closed,
      .calm fun q => if q = EINK_OTA_STAGE_TMP then none else if q = EINK_OTA_STAGE_PATH then some file else files q,
      none⟩) := by
  have hren : fs_rename EINK_OTA_STAGE_TMP EINK_OTA_STAGE_PATH
      (.calm fun q => if q = EINK_OTA_STAGE_PATH then none else files q) = (0, _) :=
    fs_rename_calm ((if_neg path_ne_tmp.symm).trans hfile) path_ne_tmp.symm
  unfold Device.finish eink_ota_stage_finish
  dsimp only
  rw [hw, Bool.not_true, if_neg Bool.false_ne_true, bind_app, fs_sync_calm]
  dsimp only
  rw [if_neg (Int.lt_irrefl 0), if_neg (not_not.2 hcrc), rename_session, bind_app, fs_unlink_calm, bind_app, hren]
  simp only [put_put]
  rfl

/-- With no session open, an update ends with its chunks in the file, and nothing of the module's past is left. -/
theorem download_idle {stage : Stage} (files : Path → Option Bytes) (hw : stage.g_writing = false) {ds : List Bytes}
    (hne : ds ≠ []) :
    Device.download ⟨stage, .calm files, none⟩ ds =
      (0, ⟨⟨⟨true, false, .ofNat ds.flatten.length, 0⟩, false, crc32_ieee ds.flatten⟩,
        .calm fun q => if q = EINK_OTA_STAGE_TMP then none else
          if q = EINK_OTA_STAGE_PATH then some ds.flatten else files q,
        none⟩) := by
  have hcrc : (stage.opened.fed ds.flatten).g_crc = crc32_ieee ds.flatten := rfl
  have hstage : (stage.opened.fed ds.flatten).closed =
      ⟨⟨true, false, .ofNat ds.flatten.length, 0⟩, false, crc32_ieee ds.flatten⟩ := by
    simp [Stage.opened, Stage.fed, Stage.closed, crc32_ieee]
  have hsame : (fun q => if q = EINK_OTA_STAGE_TMP then none else if q = EINK_OTA_STAGE_PATH then some ds.flatten else
      if q = EINK_OTA_STAGE_TMP then some ds.flatten else files q) =
      fun q => if q = EINK_OTA_STAGE_TMP then none else
        if q = EINK_OTA_STAGE_PATH then some ds.flatten else files q := by
    funext q
    by_cases hq : q = EINK_OTA_STAGE_TMP
    · simp only [if_pos hq]
    · simp only [if_neg hq]
  unfold Device.download
  rw [writes_first hw hne, finish_open rfl (if_pos rfl) hcrc, hstage, hsame]

/-! ## A file that has lost its name -/

/-- A chunk goes into the open file, and no name comes back. -/
theorem write_lost {stage : Stage} {files : Path → Option Bytes} (hw : stage.g_writing = true)
    (hgone : files EINK_OTA_STAGE_TMP = none) (file data : Bytes) :
    (Device.write ⟨stage, .calm files, some file⟩ data).2 =
      ⟨stage.fed data, .calm files, some (file ++ data)⟩ := by
  unfold Device.write Device.view
  dsimp only
  rw [Disk.put_calm, write_open hw (if_pos rfl)]
  simp only [Disk.put_calm, Disk.files_calm, if_pos, put_put, put_same hgone]

theorem writes_lost {stage : Stage} {files : Path → Option Bytes} (hw : stage.g_writing = true)
    (hgone : files EINK_OTA_STAGE_TMP = none) (file : Bytes) (ds : List Bytes) :
    ∃ file', Device.writes ⟨stage, .calm files, some file⟩ ds =
      ⟨stage.fed ds.flatten, .calm files, some file'⟩ := by
  induction ds generalizing stage file with
  | nil => exact ⟨file, by rw [List.flatten_nil, fed_nil]; rfl⟩
  | cons data ds ih =>
    obtain ⟨file', h⟩ := ih (show (stage.fed data).g_writing = true from hw) (file ++ data)
    refine ⟨file', ?_⟩
    unfold Device.writes at h ⊢
    rw [List.foldl_cons, write_lost hw hgone, h, List.flatten_cons, fed_append]

theorem touches_drop_session (s : Stage) (e : Int) : Keeps (Touches fun _ => True) (drop_session s e) :=
  keeps_bind (touches_fs_unlink trivial) fun _ => keeps_pure _

theorem touches_rename_session (s : Stage) : Keeps (Touches fun _ => True) (rename_session s) :=
  keeps_bind (touches_fs_unlink trivial) fun _ => keeps_bind (touches_fs_rename trivial trivial) fun _ => keeps_pure _

theorem touches_finish (s : Stage) (expected_crc32 : UInt32) :
    Keeps (Touches fun _ => True) (eink_ota_stage_finish s expected_crc32) := by
  unfold eink_ota_stage_finish
  refine keeps_ite (keeps_pure _) (keeps_bind touches_fs_sync fun _ => ?_)
  exact keeps_ite (touches_drop_session _ _) (keeps_ite (touches_drop_session _ _) (touches_rename_session _))

/-- However it ends, the session has ended. -/
theorem finish_closes (s : Stage) (expected_crc32 : UInt32) :
    Always (fun r => r.2.g_writing = false) (eink_ota_stage_finish s expected_crc32) := by
  unfold eink_ota_stage_finish
  refine always_ite (fun hw => always_pure ?_) fun _ => always_then fun _ => ?_
  · simpa using hw
  · refine always_ite (fun _ => always_then fun _ => always_pure rfl) fun _ => ?_
    exact always_ite (fun _ => always_then fun _ => always_pure rfl) fun _ =>
      always_then fun _ => always_then fun _ => always_pure rfl

/-- The CRC is another one, or there is nothing to rename. -/
theorem finish_lost {stage : Stage} {files : Path → Option Bytes} (hw : stage.g_writing = true)
    (hgone : files EINK_OTA_STAGE_TMP = none) (orphan : Option Bytes) (expected_crc32 : UInt32) :
    (Device.finish ⟨stage, .calm files, orphan⟩ expected_crc32).1 < 0 := by
  have hmissing : (fun q => if q = EINK_OTA_STAGE_PATH then none else files q) EINK_OTA_STAGE_TMP = none :=
    (if_neg path_ne_tmp.symm).trans hgone
  have hren : (fs_rename EINK_OTA_STAGE_TMP EINK_OTA_STAGE_PATH
      (.calm fun q => if q = EINK_OTA_STAGE_PATH then none else files q)).1 = -ENOENT := by
    simp only [fs_rename, Disk.err_calm, Disk.files_calm, hmissing]
  unfold Device.finish eink_ota_stage_finish
  dsimp only
  rw [hw, Bool.not_true, if_neg Bool.false_ne_true, bind_app, fs_sync_calm]
  dsimp only
  rw [if_neg (Int.lt_irrefl 0)]
  split
  · show -EILSEQ < 0
    decide
  · rw [rename_session, bind_app, fs_unlink_calm, bind_app]
    show (fs_rename EINK_OTA_STAGE_TMP EINK_OTA_STAGE_PATH _).1 < 0
    rw [hren]
    decide

/-! ## Every run -/

def Stage.cleared (s : Stage) : Stage :=
  { s with g_st := { s.g_st with staging_valid := false, staged_bytes := 0 } }

@[simp] theorem cleared_g_writing (s : Stage) : s.cleared.g_writing = s.g_writing := rfl

/-- The files without the two of the module. -/
def unlinked (files : Path → Option Bytes) : Path → Option Bytes := fun q =>
  if q = EINK_OTA_STAGE_TMP then none else if q = EINK_OTA_STAGE_PATH then none else files q

@[simp] theorem unlinked_tmp (files : Path → Option Bytes) : unlinked files EINK_OTA_STAGE_TMP = none := if_pos rfl

/-- The names are gone, and a session that was open is open still. -/
theorem invalidate_calm {s : Device} (hs : DeviceInv s) :
    s.invalidate = ⟨s.stage.cleared, .calm (unlinked s.disk.files),
      if s.stage.g_writing then s.orphan.or (s.disk.files EINK_OTA_STAGE_TMP) else none⟩ := by
  have hdisk : (eink_ota_stage_invalidate s.stage s.disk).2 = .calm (unlinked s.disk.files) := by
    rw [hs.calm]
    unfold eink_ota_stage_invalidate
    rw [bind_app, fs_unlink_calm, bind_app, fs_unlink_calm]
    rfl
  unfold Device.invalidate
  dsimp only
  rw [hdisk]
  rfl

theorem deviceInv_write {s : Device} (hs : DeviceInv s) (data : Bytes) : DeviceInv (s.write data).2 := by
  obtain ⟨stage, disk, orphan⟩ := s
  obtain ⟨hcalm, hsession, horphan⟩ := hs
  dsimp only at hcalm hsession horphan
  rw [hcalm]
  cases orphan with
  | some file =>
    obtain ⟨hw, hgone⟩ := horphan (Option.some_ne_none file)
    rw [write_lost hw hgone]
    exact ⟨rfl, fun _ h => absurd h (Option.some_ne_none _), fun _ => ⟨hw, hgone⟩⟩
  | none =>
    cases hw : stage.g_writing with
    | true =>
      obtain ⟨file, hfile⟩ := hsession hw rfl
      rw [device_write_open hw hfile]
      exact ⟨rfl, fun _ _ => ⟨file ++ data, by simp⟩, fun h => absurd rfl h⟩
    | false =>
      rw [device_write_first hw]
      exact ⟨rfl, fun _ _ => ⟨data, by simp⟩, fun h => absurd rfl h⟩

theorem deviceInv_finish {s : Device} (hs : DeviceInv s) (expected_crc32 : UInt32) :
    DeviceInv (s.finish expected_crc32).2 := by
  have htouch := touches_finish s.stage expected_crc32 s.disk
  rw [hs.calm] at htouch
  have hcloses := finish_closes s.stage expected_crc32 s.disk
  refine ⟨?_, fun hw => ?_, fun h => absurd rfl h⟩
  · have := htouch.eq_calm
    rwa [← hs.calm] at this
  · exact absurd (hcloses.symm.trans hw) Bool.false_ne_true

theorem deviceInv_invalidate {s : Device} (hs : DeviceInv s) : DeviceInv s.invalidate := by
  rw [invalidate_calm hs]
  cases hw : s.stage.g_writing with
  | false => exact ⟨rfl, fun h => absurd (hw.symm.trans h) Bool.false_ne_true, fun h => absurd rfl h⟩
  | true =>
    refine ⟨rfl, fun _ hnone => ?_, fun _ => ⟨hw, by simp⟩⟩
    -- The session had a file, under its name or without one, and it has it still.
    cases ho : s.orphan with
    | some file => simp [ho] at hnone
    | none =>
      obtain ⟨file, hfile⟩ := hs.session hw ho
      simp [ho, hfile] at hnone

theorem deviceInv_step (s : Device) (e : DeviceEvent) (hs : DeviceInv s) : DeviceInv (device_step s e) := by
  cases e with
  | write data => exact deviceInv_write hs data
  | finish expected_crc32 => exact deviceInv_finish hs expected_crc32
  | invalidate => exact deviceInv_invalidate hs

theorem deviceInv_run (files : Path → Option Bytes) (es : List DeviceEvent) :
    DeviceInv (run device_step (.start files) es) :=
  run_inv DeviceInv (deviceInv_start files) fun s e _ hs => deviceInv_step s e hs

/-! ## After an invalidation -/

/-- With a session open the file has no name to be renamed from. -/
theorem download_lost {s : Device} (hs : DeviceInv s) (hw : s.stage.g_writing = true) (ds : List Bytes) :
    (s.invalidate.download ds).1 < 0 := by
  have horphan : ∃ file, s.orphan.or (s.disk.files EINK_OTA_STAGE_TMP) = some file := by
    cases ho : s.orphan with
    | some file => exact ⟨file, rfl⟩
    | none => exact hs.session hw ho
  obtain ⟨file, hfile⟩ := horphan
  have hinv : s.invalidate = ⟨s.stage.cleared, .calm (unlinked s.disk.files), some file⟩ := by
    rw [invalidate_calm hs, hw, if_pos rfl, hfile]
  obtain ⟨file', hwrites⟩ := writes_lost (show s.stage.cleared.g_writing = true from hw)
    (unlinked_tmp s.disk.files) file ds
  have hfails := finish_lost (show (s.stage.cleared.fed ds.flatten).g_writing = true from hw)
    (unlinked_tmp s.disk.files) (some file') (crc32_ieee ds.flatten)
  rw [← hwrites, ← hinv] at hfails
  exact hfails

/-- It goes through exactly when no session was open and the count of the bytes does not wrap. -/
theorem invalidated_startsClean_iff (files : Path → Option Bytes) (es : List DeviceEvent) (ds : List Bytes)
    (hne : ds ≠ []) :
    StartsClean (run device_step (.start files) es) ds ↔
      (run device_step (.start files) es).stage.g_writing = false ∧ ds.flatten.length < 2 ^ 32 := by
  have hs := deviceInv_run files es
  generalize run device_step (.start files) es = s at hs ⊢
  constructor
  · intro h
    cases hw : s.stage.g_writing with
    | true => exact absurd h.1 (Int.ne_of_lt (download_lost hs hw ds))
    | false =>
      refine ⟨rfl, ?_⟩
      rw [← h.2.2.1]
      exact UInt32.toNat_lt _
  · rintro ⟨hw, hlen⟩
    have hinv : s.invalidate = ⟨s.stage.cleared, .calm (unlinked s.disk.files), none⟩ := by
      rw [invalidate_calm hs, hw, if_neg Bool.false_ne_true]
    have hrest := download_idle (unlinked s.disk.files) (show s.stage.cleared.g_writing = false from hw) hne
    have hfresh := download_idle (unlinked s.disk.files) (show Stage.init.g_writing = false from rfl) hne
    unfold StartsClean
    rw [hinv, hrest]
    refine ⟨rfl, rfl, ?_, ?_, hfresh.symm⟩
    · exact UInt32.toNat_ofNat_of_lt' hlen
    · simp [path_ne_tmp]

/-- An update of one chunk that was finished, then the invalidation, and another update. -/
theorem invalidated_startsClean_finished :
    StartsClean (run device_step (.start fun _ => none) [.write [1], .finish (crc32_ieee [1])]) [[2], [3]] :=
  (invalidated_startsClean_iff (fun _ => none) [.write [1], .finish (crc32_ieee [1])] [[2], [3]] (by simp)).2
    ⟨by decide, by decide⟩

/-- In the middle of a download the next one fails. -/
theorem invalidated_keeps_session :
    ¬StartsClean (run device_step (.start fun _ => none) [.write [1]]) [[2]] := by
  intro h
  have hinv := deviceInv_run (fun _ => none) [.write [1]]
  exact absurd h.1 (Int.ne_of_lt (download_lost hinv rfl [[2]]))

end EinkNode.Ota
