import EinkNode.Build
import EinkNode.Frame
/-!
# The image store

The part of `eink_store.c` that finds, checks and replaces images. An image is
raw (`.es6f`) or compressed (`.es6f.lz4`); a raw one is preferred. Arguments
are values, so the null-pointer guards have no counterpart here.
-/
open NodeLib

namespace EinkNode.Store

def EINK_LZ4_COMPRESSED_MAX : Nat := 1024 * 1024

def eink_lz4_is_frame (buf : Bytes) : Bool := buf.take 4 = [0x04, 0x22, 0x4D, 0x18]

variable (b : Build)

/-! ## Paths -/

def eink_store_image_path (image_id : Bytes) : Path :=
  snprintf 300 (b.root.val ++ ascii "/images/" ++ image_id ++ ascii ".es6f")

def eink_store_image_lz4_path (image_id : Bytes) : Path :=
  snprintf 300 (b.root.val ++ ascii "/images/" ++ image_id ++ ascii ".es6f.lz4")

/-! ## Finding an image -/

def path_is_file (path : Path) : FS Bool := do
  match ← fs_stat path with
  | .ok size => pure (size > 0)
  | .error _ => pure false

/-- The path to show and whether it is compressed. -/
def eink_store_resolve_show_path (image_id : Bytes) (out_cap : Nat) : FS (Except Int (Path × Bool)) := do
  let es6f := eink_store_image_path b image_id
  if ← path_is_file es6f then
    pure (if es6f.length + 1 > out_cap then .error (-ENOMEM) else .ok (es6f, false))
  else if b.LZ4 then do
    let lz4p := eink_store_image_lz4_path b image_id
    if ← path_is_file lz4p then
      pure (if lz4p.length + 1 > out_cap then .error (-ENOMEM) else .ok (lz4p, true))
    else pure (.error (-ENOENT))
  else pure (.error (-ENOENT))

/-- There is a file with something in it. -/
def IsFile (files : Path → Option Bytes) (path : Path) : Prop := ∃ bs, files path = some bs ∧ bs ≠ []

theorem path_is_file_calm (files : Path → Option Bytes) (path : Path) :
    ∃ r, path_is_file path (.calm files) = (r, .calm files) ∧ (r = true ↔ IsFile files path) := by
  cases hf : files path with
  | none => exact ⟨false, by simp [path_is_file, fs_stat, hf], by simp [IsFile, hf]⟩
  | some bs =>
    refine ⟨decide (bs.length > 0), by simp [path_is_file, fs_stat, hf], ?_⟩
    simp [IsFile, hf, List.length_pos_iff]

theorem path_is_file_some {files : Path → Option Bytes} {path : Path} {file : Bytes} (h : files path = some file)
    (hne : file ≠ []) : path_is_file path (.calm files) = (true, .calm files) := by
  simp [path_is_file, fs_stat, h, List.length_pos_iff.2 hne]

/-- What is resolved when no call fails. -/
theorem resolve_calm (files : Path → Option Bytes) {image_id : Bytes} {cap : Nat} {path : Path} {is_lz4 : Bool}
    (h : (eink_store_resolve_show_path b image_id cap (.calm files)).1 = .ok (path, is_lz4)) :
    IsFile files path ∧
      (path = eink_store_image_path b image_id ∨ path = eink_store_image_lz4_path b image_id) := by
  obtain ⟨r, hr, hfile⟩ := path_is_file_calm files (eink_store_image_path b image_id)
  obtain ⟨r', hr', hfile'⟩ := path_is_file_calm files (eink_store_image_lz4_path b image_id)
  unfold eink_store_resolve_show_path at h
  simp only [bind_app, hr] at h
  split at h
  · next hr1 =>
    simp only [pure_app] at h
    split at h <;> cases h
    exact ⟨hfile.1 hr1, .inl rfl⟩
  · split at h
    · simp only [bind_app, hr'] at h
      split at h
      · next hr1 =>
        simp only [pure_app] at h
        split at h <;> cases h
        exact ⟨hfile'.1 hr1, .inr rfl⟩
      · cases h
    · cases h

/-! ## Reading a file as a stream -/

/-- The disk and the offset of the open file. -/
abbrev StreamState := Disk Path × Nat

def fs_stream_read (path : Path) (len : Nat) : StateM StreamState (Except Int Bytes) := fun s =>
  match fs_read path s.2 len s.1 with
  | (.error e, d) => (.error e, (d, s.2))
  | (.ok bs, d) => (.ok bs, (d, s.2 + bs.length))

def fs_stream_seek (path : Path) (offset : Nat) : StateM StreamState Int := fun s =>
  match fs_seek path s.1 with
  | (ret, d) => (ret, (d, if ret < 0 then s.2 else offset))

def eink_store_validate_path (path : Path) : FS (Except Int Header) := do
  let ret ← fs_open path false false
  if ret < 0 then pure (.error ret)
  else fun d =>
    match eink_frame_validate_stream (fs_stream_read path) (some (fs_stream_seek path)) (d, 0) with
    | (r, s) => (r, s.1)

/-- The first bytes of the file, as each format check reads them. -/
def read_head (path : Path) (len : Nat) : FS (Except Int Bytes) := do
  let ret ← fs_open path false false
  if ret < 0 then pure (.error ret) else fs_read path 0 len

theorem read_head_calm {files : Path → Option Bytes} {path : Path} {file : Bytes} (h : files path = some file)
    (len : Nat) : read_head path len (.calm files) = (.ok (file.take len), .calm files) := by
  simp [read_head, fs_open, fs_read, h, Fault.moved]

/-! ### What reading leaves alone -/

section
variable {R : Disk Path → Disk Path → Prop} [IsPreorder (Disk Path) R] {path : Path}
  (hopen : Keeps R (fs_open path false false)) (hread : ∀ off len, Keeps R (fs_read path off len))
include hopen hread

theorem keeps_read_head (len : Nat) : Keeps R (read_head path len) :=
  keeps_bind hopen fun _ => keeps_ite (keeps_pure _) (hread 0 len)

theorem keeps_validate_path (hseek : Keeps R (fs_seek path)) : Keeps R (eink_store_validate_path path) := by
  refine keeps_bind hopen fun ret => keeps_ite (keeps_pure _) ?_
  have hread' (len : Nat) : Keeps (InvImage R Prod.fst) (fs_stream_read path len) := by
    intro s
    have := hread s.2 len s.1
    unfold fs_stream_read
    split <;> next h => simpa [InvImage, h] using this
  have hseek' : ∀ f ∈ some (fs_stream_seek path), Keeps (InvImage R Prod.fst) (f 0) := by
    rintro f ⟨⟩ s
    exact hseek s.1
  exact fun d => keeps_validate_stream hread' hseek' (d, 0)

end

/-- The calls with which a file is read. -/
def Reading (c : Call) : Prop := c = .fs_open ∨ c = .fs_read ∨ c = .fs_seek

theorem reading_read_head (path : Path) (len : Nat) : Keeps (OnlyCalls Reading) (read_head path len) :=
  keeps_read_head (onlyCalls_fs_open (.inl rfl)) (onlyCalls_fs_read (.inr (.inl rfl))) len

theorem reading_validate_path (path : Path) : Keeps (OnlyCalls Reading) (eink_store_validate_path path) :=
  keeps_validate_path (onlyCalls_fs_open (.inl rfl)) (onlyCalls_fs_read (.inr (.inl rfl)))
    (onlyCalls_fs_seek (.inr (.inr rfl)))

theorem negErr_read_head (path : Path) (len : Nat) : Always NegErr (read_head path len) :=
  always_then fun _ => always_ite (fun h => always_pure h) fun _ => negErr_fs_read path 0 len

theorem negErr_validate_path (path : Path) : Always NegErr (eink_store_validate_path path) := by
  have hread (len : Nat) : Always NegErr (fs_stream_read path len) := by
    intro s
    have := negErr_fs_read path s.2 len s.1
    unfold fs_stream_read
    split
    · next h => simpa [h] using this
    · trivial
  refine always_then fun ret => always_ite (fun h => always_pure h) fun _ => ?_
  exact fun d => negErr_validate_stream hread (some (fs_stream_seek path)) (d, 0)

/-- A head that was read is the beginning of a file. -/
theorem read_head_ok {path : Path} {len : Nat} {d : Disk Path} {head : Bytes}
    (h : (read_head path len d).1 = .ok head) : ∃ bs, d.files path = some bs ∧ head <+: bs := by
  unfold read_head at h
  simp only [bind_app] at h
  split at h
  · cases h
  · next hopen =>
    obtain ⟨bs, hbs, hfiles⟩ := fs_open_read_ok hopen
    obtain ⟨-, hhead⟩ := fs_read_ok h
    rw [hfiles, hbs, Option.getD_some, List.drop_zero] at hhead
    exact ⟨bs, hbs, hhead⟩

/-- A stream goes through the file in order. -/
theorem readsFrom_fs_stream (path : Path) :
    ReadsFrom (fun s : StreamState => ((s.1.files path).getD []).drop s.2) (fs_stream_read path) := by
  intro len s chunk h
  unfold fs_stream_read at h ⊢
  have hok : ∀ bs, (fs_read path s.2 len s.1).1 = .ok bs → bs.length ≤ len ∧
      ((s.1.files path).getD []).drop s.2 = bs ++ ((s.1.files path).getD []).drop (s.2 + bs.length) := by
    intro bs hbs
    obtain ⟨hlen, hpre⟩ := fs_read_ok hbs
    refine ⟨hlen, ?_⟩
    rw [← List.drop_drop]
    exact (List.prefix_iff_eq_append.1 hpre).symm
  have hfiles : (fs_read path s.2 len s.1).2.files = s.1.files := rfl
  generalize fs_read path s.2 len s.1 = r at h hok hfiles ⊢
  obtain ⟨r, d⟩ := r
  cases r with
  | error e => cases h
  | ok bs =>
    cases h
    dsimp only at hfiles ⊢
    rw [hfiles]
    exact hok chunk rfl

/-- A path that validates names a file that starts with a frame. -/
theorem validate_path_ok {path : Path} {d : Disk Path} {hdr : Header}
    (h : (eink_store_validate_path path d).1 = .ok hdr) : ∃ file, d.files path = some file ∧ IsFrame file hdr := by
  unfold eink_store_validate_path at h
  simp only [bind_app] at h
  split at h
  · cases h
  · next hopen =>
    obtain ⟨file, hfile, hfiles⟩ := fs_open_read_ok hopen
    have hvalid : (eink_frame_validate_stream (fs_stream_read path) (some (fs_stream_seek path))
        ((fs_open path false false d).2, 0)).1 = .ok hdr := h
    refine ⟨file, hfile, validate_stream_ok (readsFrom_fs_stream path) (fun hret => ?_) hvalid⟩
    -- The seek that succeeds leaves the stream at the start of the file.
    generalize hs : fs_seek path (fs_open path false false d).2 = r
    obtain ⟨ret, d'⟩ := r
    have hd' : d'.files = d.files := by
      rw [← hfiles, ← show (fs_seek path (fs_open path false false d).2).2 = d' by rw [hs]]
      rfl
    simp only [fs_stream_seek, hs] at hret ⊢
    rw [if_neg (by omega), List.drop_zero, hd', hfile]
    rfl

def eink_store_has_image_quick (image_id : Bytes) : FS Bool := do
  match ← eink_store_resolve_show_path b image_id 300 with
  | .error _ => pure false
  | .ok (path, is_lz4) =>
    match ← fs_stat path with
    | .error _ => pure false
    | .ok size =>
      if b.LZ4 && is_lz4 then
        if size < 16 ∨ size > EINK_LZ4_COMPRESSED_MAX then pure false
        else
          match ← read_head path 8 with
          | .error _ => pure false
          | .ok head => pure (head.length ≥ 4 && eink_lz4_is_frame head)
      else if size ≠ EINK_FRAME_FILE_SIZE then pure false
      else
        match ← read_head path EINK_FRAME_HEADER_SIZE with
        | .error _ => pure false
        | .ok hdr_raw =>
          if hdr_raw.length ≠ EINK_FRAME_HEADER_SIZE then pure false
          else
            match eink_frame_header_parse hdr_raw with
            | .error _ => pure false
            | .ok hdr => pure (hdr.payload_len = .ofNat EINK_PAYLOAD_LEN)

def eink_store_has_valid_image (image_id : Bytes) : FS Bool := do
  match ← eink_store_resolve_show_path b image_id 300 with
  | .error _ => pure false
  | .ok (path, _) =>
    if b.STORE_QUICK_CACHE_CHECK then eink_store_has_image_quick b image_id
    else
      -- The path array keeps the first answer when the second call fails.
      let again ← eink_store_resolve_show_path b image_id 300
      let (path, is_lz4) := match again with
        | .ok found => found
        | .error _ => (path, false)
      if is_lz4 then
        match ← read_head path 8 with
        | .error _ => pure false
        | .ok head => pure (head.length ≥ 4 && eink_lz4_is_frame head)
      else
        match ← eink_store_validate_path path with
        | .error _ => pure false
        | .ok _ => pure true

/-! ## Accepting an image -/

def unlink_if_exists (path : Path) : FS Unit := do
  if path = [] then pure ()
  else
    match ← fs_stat path with
    | .ok _ => let _ ← fs_unlink path
    | .error _ => pure ()

inductive Format where
  | ES6F
  | LZ4
deriving DecidableEq

/-- The first half of `eink_store_accept_temp_image`: the format of a
temporary file that may be accepted. -/
def check_temp_image (temp_path : Path) : FS (Except Int Format) := do
  match ← read_head temp_path 8 with
  | .error e => pure (.error e)
  | .ok head =>
    if head.length < 4 then pure (.error (-EINVAL))
    else if b.LZ4 && eink_lz4_is_frame head then
      if b.LZ4_EXPAND_ON_DISPLAY then
        match ← fs_stat temp_path with
        | .error _ => pure (.error (-EINVAL))
        | .ok size =>
          pure (if size < 16 ∨ size > EINK_LZ4_COMPRESSED_MAX then .error (-EINVAL) else .ok .LZ4)
      else pure (.error (-EINVAL))
    else
      match ← eink_store_validate_path temp_path with
      | .error e => pure (.error e)
      | .ok _ => pure (.ok .ES6F)

/-- The path that an image of this format is renamed to. -/
def accepted_path (image_id : Bytes) : Format → Path
  | .ES6F => eink_store_image_path b image_id
  | .LZ4 => eink_store_image_lz4_path b image_id

def eink_store_accept_temp_image (image_id temp_path : Bytes) : FS Int := do
  match ← check_temp_image b temp_path with
  | .error e => pure e
  | .ok format =>
    unlink_if_exists (eink_store_image_path b image_id)
    unlink_if_exists (eink_store_image_lz4_path b image_id)
    fs_rename temp_path (accepted_path b image_id format)

end EinkNode.Store
