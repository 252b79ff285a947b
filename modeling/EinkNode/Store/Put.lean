import EinkNode.Frame.Build
import EinkNode.Store.Reboot
/-!
# An image that is put into the store

`eink_store_put_image` checks a buffer with the validator for buffers, writes
all of it and never looks at it again. The store's own checks count the bytes
of the file, so a frame with more bytes behind it goes in and is then refused.
-/
open NodeLib

namespace EinkNode.Store

variable (b : Build)

def eink_store_put_image (image_id es6f : Bytes) : FS Int :=
  match eink_frame_validate es6f with
  | .error e => pure e
  | .ok _ => save_text (eink_store_image_path b image_id) es6f

/-! ## Saving one text -/

section
variable {path : Path} {json : Bytes} {d : Disk Path}

/-- What was reported as written and synced is in the file. -/
theorem write_synced_nonneg {tmp : Path} (hfile : d.files tmp = some []) (h : 0 ≤ (write_synced tmp json d).1) :
    (write_synced tmp json d).2.files tmp = some json := by
  unfold write_synced at h ⊢
  rw [bind_app] at h ⊢
  split at h
  · have hneg : ¬ (0 : Int) ≤ if (fs_write tmp 0 json d).1 < 0 then (fs_write tmp 0 json d).1 else -EIOERR := by
      split
      · omega
      · decide
    exact absurd h hneg
  · next hwhole =>
    rw [if_neg hwhole]
    obtain ⟨n, -, hn, hwritten⟩ := fs_write_at_end json hfile (by rw [List.length_nil]; omega)
    rw [List.length_nil] at hn hwritten
    obtain rfl : n = json.length := by omega
    rw [List.take_length, List.nil_append] at hwritten
    exact hwritten

/-- After a return of 0 the file holds the text. -/
theorem save_text_zero (h : (save_text path json d).1 = 0) : (save_text path json d).2.files path = some json := by
  unfold save_text at h ⊢
  rw [bind_app] at h ⊢
  by_cases hopen : (fs_open (path ++ ascii ".tmp") true true d).1 < 0
  · rw [if_pos hopen] at h
    exact absurd h (Int.ne_of_lt hopen)
  · rw [if_neg hopen, bind_app] at h ⊢
    obtain ⟨hret, hfile⟩ := finish_file_zero (ne_append_tmp path) h
    rw [hfile]
    exact write_synced_nonneg (fs_open_trunc hopen) hret

end

/-! ## What the store says about a file -/

/-- The stream over a file on a disk where no call fails. -/
theorem stream_read_calm {path : Path} {files : Path → Option Bytes} {file : Bytes} (h : files path = some file)
    (off len : Nat) :
    fs_stream_read path len (.calm files, off) =
      (.ok ((file.drop off).take len), (.calm files, off + ((file.drop off).take len).length)) := by
  simp [fs_stream_read, fs_read, h, Fault.moved]

theorem stream_seek_calm (path : Path) (files : Path → Option Bytes) (off off' : Nat) :
    fs_stream_seek path off (.calm files, off') = (0, (.calm files, off)) := by
  simp [fs_stream_seek, fs_seek]

section
variable {path : Path} {files : Path → Option Bytes} {file : Bytes}

theorem stream_rewinds (path : Path) (files : Path → Option Bytes) : ∀ seek ∈ some (fs_stream_seek path),
    0 ≤ (seek 0 ((.calm files, 0) : StreamState)).1 := by
  rintro seek ⟨⟩
  rw [stream_seek_calm]

theorem stream_opened (path : Path) (files : Path → Option Bytes) (file : Bytes) :
    (fs_stream_seek path 0 (.calm files, 0)).2.1 = .calm files ∧
      file.drop (fs_stream_seek path 0 (.calm files, 0)).2.2 = file := by
  rw [stream_seek_calm]
  exact ⟨rfl, List.drop_zero⟩

theorem stream_header (h : files path = some file) :
    (fs_stream_read path EINK_FRAME_HEADER_SIZE (fs_stream_seek path 0 (.calm files, 0)).2).1 =
      .ok (file.take EINK_FRAME_HEADER_SIZE) := by
  rw [stream_seek_calm, stream_read_calm h, List.drop_zero]

theorem stream_splits (h : files path = some file) (len : Nat) (s : StreamState) (hs : s.1 = .calm files)
    (hlen : 0 < len) :
    (fs_stream_read path len s).2.1 = .calm files ∧ ∃ chunk, (fs_stream_read path len s).1 = .ok chunk ∧
      chunk.length ≤ len ∧ file.drop s.2 = chunk ++ file.drop (fs_stream_read path len s).2.2 ∧
      (chunk = [] → file.drop s.2 = []) := by
  obtain ⟨d, off⟩ := s
  obtain rfl : d = .calm files := hs
  rw [stream_read_calm h]
  refine ⟨rfl, _, rfl, List.length_take_le _ _, ?_, ?_⟩
  · dsimp only
    rw [← List.drop_drop, List.length_take]
    conv => lhs; rw [← List.take_append_drop len (file.drop off)]
    congr 1
    rcases Nat.le_total len (file.drop off).length with hle | hle
    · rw [Nat.min_eq_left hle]
    · rw [Nat.min_eq_right hle, List.drop_of_length_le hle, List.drop_length]
  · intro hnil
    rcases List.take_eq_nil_iff.1 hnil with h0 | h0
    · omega
    · exact h0

/-- A file of the store as the validator reads it. -/
def fileReading (h : files path = some file) : FrameReader StreamState file :=
  { read_cb := fs_stream_read path, seek_cb := some (fs_stream_seek path), start := (.calm files, 0)
    rest := fun s => file.drop s.2, live := fun s => s.1 = .calm files, rewinds := stream_rewinds path files
    opened := stream_opened path files file, header := stream_header h, splits := stream_splits h }

/-- Validating a file is validating its bytes. -/
theorem validate_path_calm (h : files path = some file) :
    (eink_store_validate_path path (.calm files)).1 = frame_verdict file := by
  have hopen : fs_open path false false (.calm files) = (0, .calm files) := by simp [fs_open, h]
  rw [← (fileReading h).validate_stream_eq]
  unfold eink_store_validate_path
  rw [bind_app, hopen]
  rfl

/-- A name that went through `snprintf` has room for its end. -/
theorem snprintf_room {cap : Nat} (hcap : 300 ≤ cap) (name : Bytes) : ¬ (snprintf 300 name).length + 1 > cap := by
  have := List.length_take_le (300 - 1) name
  rw [snprintf]
  omega

/-- The raw image is the one that is shown. -/
theorem resolve_raw (b : Build) {image_id : Bytes} {cap : Nat} (hcap : 300 ≤ cap)
    (h : files (eink_store_image_path b image_id) = some file) (hne : file ≠ []) :
    eink_store_resolve_show_path b image_id cap (.calm files) =
      (.ok (eink_store_image_path b image_id, false), .calm files) := by
  unfold eink_store_resolve_show_path
  simp only [bind_app, path_is_file_some h hne, if_true]
  have hroom : ¬ (eink_store_image_path b image_id).length + 1 > cap := snprintf_room hcap _
  rw [if_neg hroom]
  rfl

theorem has_image_quick_calm (b : Build) {image_id : Bytes}
    (hpath : files (eink_store_image_path b image_id) = some file) (hne : file ≠ []) :
    (eink_store_has_image_quick b image_id (.calm files)).1 = true ↔
      file.length = EINK_FRAME_FILE_SIZE ∧
        ∃ hdr, eink_frame_header_parse (file.take EINK_FRAME_HEADER_SIZE) = .ok hdr := by
  have hresolve := resolve_raw b (Nat.le_refl 300) hpath hne
  have hstat : fs_stat (eink_store_image_path b image_id) (.calm files) = (.ok file.length, .calm files) := by
    simp [fs_stat, hpath]
  have hhead := read_head_calm hpath EINK_FRAME_HEADER_SIZE
  unfold eink_store_has_image_quick
  simp only [bind_app, hresolve, hstat, Bool.and_false]
  rw [if_neg (by decide)]
  by_cases hsize : file.length = EINK_FRAME_FILE_SIZE
  · rw [if_neg (not_not.2 hsize), bind_app, hhead]
    have hlen : (file.take EINK_FRAME_HEADER_SIZE).length = EINK_FRAME_HEADER_SIZE := by
      rw [List.length_take, hsize]
      rfl
    dsimp only
    rw [if_neg (not_not.2 hlen)]
    cases hparse : eink_frame_header_parse (file.take EINK_FRAME_HEADER_SIZE) with
    | error e => simp
    | ok hdr =>
      have hpl := (header_parse_iff.1 hparse).2.2.2.2.2.2.2
      simp [hsize, hpl]
  · simp [hsize]

end

/-! ## Buffers and files -/

/-- A buffer of more than a file's bytes whose beginning is a file. -/
def LongFrame (es6f : Bytes) : Prop :=
  EINK_FRAME_FILE_SIZE < es6f.length ∧ IsES6F (es6f.take EINK_FRAME_FILE_SIZE)

/-- The validators say the same about the bytes, and what is put into the store under any name passes its checks. -/
def ValidatorsAgree {σ : Type} {es6f : Bytes} (r : FrameReader σ es6f) : Prop :=
  ((∃ view, eink_frame_validate es6f = .ok view) ↔
    ∃ hdr, (eink_frame_validate_stream r.read_cb r.seek_cb r.start).1 = .ok hdr) ∧
  ∀ (b : Build) (image_id : Bytes) (d : Disk Path), (eink_store_put_image b image_id es6f d).1 = 0 →
    (∃ hdr, (eink_store_validate_path (eink_store_image_path b image_id)
      (.calm (eink_store_put_image b image_id es6f d).2.files)).1 = .ok hdr) ∧
    (eink_store_has_image_quick b image_id (.calm (eink_store_put_image b image_id es6f d).2.files)).1 = true

/-- What was put into the store was accepted, and is there as a whole. -/
theorem put_image_zero {b : Build} {image_id es6f : Bytes} {d : Disk Path}
    (h : (eink_store_put_image b image_id es6f d).1 = 0) :
    (∃ view, eink_frame_validate es6f = .ok view) ∧
      (eink_store_put_image b image_id es6f d).2.files (eink_store_image_path b image_id) = some es6f := by
  unfold eink_store_put_image at h ⊢
  cases hvalid : eink_frame_validate es6f with
  | error e =>
    have hneg : e < 0 := by
      have := negErr_frame_validate es6f
      rwa [hvalid] at this
    rw [hvalid] at h
    exact absurd h (Int.ne_of_lt hneg)
  | ok view =>
    rw [hvalid] at h
    exact ⟨⟨view, rfl⟩, save_text_zero h⟩

/-- A frame of the format is not told apart by its length. -/
theorem es6f_iff_of_not_long {es6f : Bytes} (h : ¬ LongFrame es6f) :
    IsES6F (es6f.take EINK_FRAME_FILE_SIZE) ↔ IsES6F es6f := by
  constructor
  · intro hframe
    have hle : es6f.length ≤ EINK_FRAME_FILE_SIZE := not_lt.1 fun hlong => h ⟨hlong, hframe⟩
    rwa [List.take_of_length_le hle] at hframe
  · intro hframe
    have hsize : es6f.length = EINK_FRAME_FILE_SIZE := hframe.size
    rwa [List.take_of_length_le (Nat.le_of_eq hsize)]

theorem stream_iff_es6f {σ : Type} {es6f : Bytes} (r : FrameReader σ es6f) :
    (∃ hdr, (eink_frame_validate_stream r.read_cb r.seek_cb r.start).1 = .ok hdr) ↔ IsES6F es6f := by
  rw [r.validate_stream_eq]
  exact verdict_iff_es6f es6f

/-- The validator for streams counts the bytes behind the frame, the other does not. -/
theorem not_agree_of_long {σ : Type} {es6f : Bytes} (r : FrameReader σ es6f) (h : LongFrame es6f) :
    ¬ ValidatorsAgree r := by
  rintro ⟨hagree, -⟩
  have hfile := (stream_iff_es6f r).1 (hagree.1 ((frame_validate_iff_es6f es6f).2 h.2))
  exact absurd hfile.size (Nat.ne_of_gt h.1)

/-- The validators agree on every buffer that is not a frame with more bytes behind it. -/
theorem validators_agree_iff {σ : Type} {es6f : Bytes} (r : FrameReader σ es6f) :
    ValidatorsAgree r ↔ ¬ LongFrame es6f := by
  constructor
  · intro hagree hlong
    exact not_agree_of_long r hlong hagree
  · intro hshort
    -- What is put is on the disk byte for byte, so that the store's checks see the same bytes.
    have hvalid := (frame_validate_iff_es6f es6f).trans (es6f_iff_of_not_long hshort)
    refine ⟨hvalid.trans (stream_iff_es6f r).symm, fun b image_id d hput => ?_⟩
    obtain ⟨haccepted, hfile⟩ := put_image_zero hput
    have hframe := hvalid.1 haccepted
    obtain ⟨hdr, hverdict⟩ := (verdict_iff_es6f es6f).2 hframe
    obtain ⟨hparse, hsize, -⟩ := verdict_ok_iff.1 hverdict
    refine ⟨⟨hdr, (validate_path_calm hfile).trans hverdict⟩, ?_⟩
    refine (has_image_quick_calm b hfile ?_).2 ⟨hsize, hdr, hparse⟩
    rintro rfl
    exact absurd hsize (by decide)

/-- The white picture with one more byte. -/
def longWhite : Bytes :=
  Header.pack (build_header (List.replicate EINK_PAYLOAD_LEN 0x11) 0) ++ List.replicate EINK_PAYLOAD_LEN 0x11 ++ [0]

theorem validators_agree_long : ¬ ValidatorsAgree (FrameReader.cut longWhite []) := by
  have hfile : (Header.pack (build_header (List.replicate EINK_PAYLOAD_LEN 0x11) 0) ++
      List.replicate EINK_PAYLOAD_LEN 0x11).length = EINK_FRAME_FILE_SIZE := by
    rw [List.length_append, length_pack rfl, List.length_replicate]
    rfl
  apply not_agree_of_long
  constructor
  · rw [longWhite, List.length_append, hfile]
    exact Nat.lt_succ_self _
  · rw [longWhite, List.take_left' hfile, ← verdict_iff_es6f]
    exact ⟨_, verdict_build ⟨List.replicate EINK_PAYLOAD_LEN 0x11, List.length_replicate⟩ 0⟩

end EinkNode.Store
