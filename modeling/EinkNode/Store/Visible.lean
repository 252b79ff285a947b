import EinkNode.Store.Names
import EinkNode.Store.Put
/-!
# An accepted image is a visible image

Acceptance, path resolution, the two checks of the store and the reader of the
expander each look at the format and the size in their own way. What the first
one lets in, the others find, under the name that they prefer.
-/
open NodeLib

namespace EinkNode.Store

/-- The image with these bytes is shown, is valid to both checks, and is read as a whole if it has to be expanded. -/
structure Visible (b : Build) (image_id bytes : Bytes) (d : Disk Path) : Prop where
  shown : ∀ cap, 300 ≤ cap → ∃ path is_lz4, (eink_store_resolve_show_path b image_id cap d).1 = .ok (path, is_lz4) ∧
    d.files path = some bytes ∧ (is_lz4 = true ↔ eink_lz4_is_frame bytes = true) ∧
    (is_lz4 = true → 0 < bytes.length ∧ bytes.length ≤ EINK_LZ4_COMPRESSED_MAX ∧
      ∀ lib : Lz4Lib, lib.malloc bytes.length = true → (read_all lib path d).1 = .ok bytes)
  valid : ∀ quick, (eink_store_has_valid_image { b with STORE_QUICK_CACHE_CHECK := quick } image_id d).1 = true

/-! ## The two kinds of objects -/

theorem take_frame_head (buf : Bytes) : eink_lz4_is_frame (buf.take 8) = eink_lz4_is_frame buf := by
  unfold eink_lz4_is_frame
  rw [List.take_take]
  rfl

section
variable {b : Build} {image_id : Bytes} {files : Path → Option Bytes} {file : Bytes}

/-- With no raw image the compressed one is shown. -/
theorem resolve_lz4 (hlz4 : b.LZ4 = true) {cap : Nat} (hcap : 300 ≤ cap)
    (hraw : files (eink_store_image_path b image_id) = none)
    (h : files (eink_store_image_lz4_path b image_id) = some file) (hne : file ≠ []) :
    eink_store_resolve_show_path b image_id cap (.calm files) =
      (.ok (eink_store_image_lz4_path b image_id, true), .calm files) := by
  have hnone : path_is_file (eink_store_image_path b image_id) (.calm files) = (false, .calm files) := by
    simp [path_is_file, fs_stat, hraw]
  have hroom : ¬ (eink_store_image_lz4_path b image_id).length + 1 > cap := snprintf_room hcap _
  unfold eink_store_resolve_show_path
  simp only [bind_app, hnone, Bool.false_eq_true, if_false, hlz4, if_true, path_is_file_some h hne]
  rw [if_neg hroom]
  rfl

/-- A frame of the format does not look compressed. -/
theorem not_lz4_of_es6f (h : IsES6F file) : eink_lz4_is_frame file = false := by
  unfold eink_lz4_is_frame
  rw [h.magic]
  decide

theorem es6f_ne_nil (h : IsES6F file) : file ≠ [] := by
  rintro rfl
  exact absurd h.size (by decide)

/-- A frame under the raw name is valid, whichever check the build has. -/
theorem valid_raw (h : files (eink_store_image_path b image_id) = some file) (hframe : IsES6F file) :
    (eink_store_has_valid_image b image_id (.calm files)).1 = true := by
  have hne := es6f_ne_nil hframe
  have hresolve := resolve_raw b (Nat.le_refl 300) h hne
  obtain ⟨hdr, hverdict⟩ := (verdict_iff_es6f file).2 hframe
  obtain ⟨hparse, hsize, -⟩ := verdict_ok_iff.1 hverdict
  unfold eink_store_has_valid_image
  rw [bind_app, hresolve]
  dsimp only
  split
  · exact (has_image_quick_calm b h hne).2 ⟨hsize, hdr, hparse⟩
  · have hvalid := (validate_path_calm h).trans hverdict
    rw [bind_app, hresolve]
    dsimp only
    rw [if_neg Bool.false_ne_true, bind_app, hvalid]
    rfl

theorem visible_raw (h : files (eink_store_image_path b image_id) = some file) (hframe : IsES6F file) :
    Visible b image_id file (.calm files) := by
  refine ⟨fun cap hcap => ?_, fun quick => valid_raw (b := { b with STORE_QUICK_CACHE_CHECK := quick }) h hframe⟩
  refine ⟨eink_store_image_path b image_id, false, ?_, h, ?_, fun hz => (nomatch hz)⟩
  · rw [resolve_raw b hcap h (es6f_ne_nil hframe)]
  · rw [not_lz4_of_es6f hframe]

section
variable (hlz4 : b.LZ4 = true) (hraw : files (eink_store_image_path b image_id) = none)
  (h : files (eink_store_image_lz4_path b image_id) = some file) (hframe : eink_lz4_is_frame file = true)
  (hmin : 16 ≤ file.length) (hmax : file.length ≤ EINK_LZ4_COMPRESSED_MAX)
include hlz4 hraw h hframe hmin hmax

/-- A compressed image alone is valid, whichever check the build has. -/
theorem valid_lz4 : (eink_store_has_valid_image b image_id (.calm files)).1 = true := by
  have hne : file ≠ [] := List.length_pos_iff.1 (by omega)
  have hresolve := resolve_lz4 hlz4 (Nat.le_refl 300) hraw h hne
  have hhead := read_head_calm h 8
  have hlooks : (decide ((file.take 8).length ≥ 4) && eink_lz4_is_frame (file.take 8)) = true := by
    have hlong : 4 ≤ (file.take 8).length := by rw [List.length_take]; omega
    rw [decide_eq_true hlong, take_frame_head, hframe, Bool.and_true]
  unfold eink_store_has_valid_image
  rw [bind_app, hresolve]
  dsimp only
  split
  · have hstat : fs_stat (eink_store_image_lz4_path b image_id) (.calm files) = (.ok file.length, .calm files) := by
      simp [fs_stat, h]
    unfold eink_store_has_image_quick
    rw [bind_app, hresolve]
    dsimp only
    rw [bind_app, hstat]
    dsimp only
    rw [hlz4, Bool.true_and, if_pos rfl, if_neg (by omega), bind_app, hhead]
    exact hlooks
  · rw [bind_app, hresolve]
    dsimp only
    rw [if_pos rfl, bind_app, hhead]
    exact hlooks

theorem visible_lz4 : Visible b image_id file (.calm files) := by
  have hne : file ≠ [] := List.length_pos_iff.1 (by omega)
  refine ⟨fun cap hcap => ?_, fun quick =>
    valid_lz4 (b := { b with STORE_QUICK_CACHE_CHECK := quick }) hlz4 hraw h hframe hmin hmax⟩
  refine ⟨eink_store_image_lz4_path b image_id, true, ?_, h, ?_, fun _ => ?_⟩
  · rw [resolve_lz4 hlz4 hcap hraw h hne]
  · rw [hframe]
  · exact ⟨by omega, hmax, fun lib hmalloc =>
      congrArg Prod.fst (read_all_calm lib h hne hmax hmalloc)⟩

end

end

/-! ## What acceptance lets in -/

section
variable {b : Build} {image_id temp_path : Bytes} {files : Path → Option Bytes}

/-- What a file of this format is. -/
def HasFormat (b : Build) (bytes : Bytes) : Format → Prop
  | .ES6F => IsES6F bytes
  | .LZ4 => b.LZ4 = true ∧ eink_lz4_is_frame bytes = true ∧ 16 ≤ bytes.length ∧
    bytes.length ≤ EINK_LZ4_COMPRESSED_MAX

theorem check_temp_image_calm {format : Format} (h : (check_temp_image b temp_path (.calm files)).1 = .ok format) :
    ∃ bytes, files temp_path = some bytes ∧ HasFormat b bytes format := by
  cases hfile : files temp_path with
  | none =>
    have hopen : read_head temp_path 8 (.calm files) = (.error (-ENOENT), .calm files) := by
      simp [read_head, fs_open, hfile, ENOENT]
    rw [check_temp_image, bind_app, hopen] at h
    cases h
  | some bytes =>
    refine ⟨bytes, rfl, ?_⟩
    rw [check_temp_image, bind_app, read_head_calm hfile] at h
    dsimp only at h
    split at h
    · cases h
    · rw [take_frame_head] at h
      split at h
      · next hlooks =>
        obtain ⟨hlz4, hframe⟩ := Bool.and_eq_true_iff.1 hlooks
        have hstat : fs_stat temp_path (.calm files) = (.ok bytes.length, .calm files) := by simp [fs_stat, hfile]
        split at h
        · rw [bind_app, hstat] at h
          dsimp only [pure_app] at h
          split at h
          · cases h
          · next hsize =>
            cases h
            rw [not_or, not_lt, not_lt] at hsize
            exact ⟨hlz4, hframe, hsize⟩
        · cases h
      · rw [bind_app, validate_path_calm hfile] at h
        cases hverdict : frame_verdict bytes with
        | error e =>
          rw [hverdict] at h
          cases h
        | ok hdr =>
          rw [hverdict] at h
          cases h
          exact (verdict_iff_es6f bytes).1 ⟨hdr, hverdict⟩

/-- What is not 0 is a refusal, so what is 0 has passed the checks. -/
theorem check_of_accept (h : (eink_store_accept_temp_image b image_id temp_path (.calm files)).1 = 0) :
    ∃ format, (check_temp_image b temp_path (.calm files)).1 = .ok format := by
  cases hcheck : (check_temp_image b temp_path (.calm files)).1 with
  | error e => exact absurd h (Int.ne_of_lt (accept_refused image_id hcheck).1)
  | ok format => exact ⟨format, rfl⟩

/-- A temporary file under a name of the image would go with the image that it replaces. -/
theorem temp_notMem_of_accept (h : (eink_store_accept_temp_image b image_id temp_path (.calm files)).1 = 0) :
    temp_path ∉ image_names b image_id := by
  intro hmem
  obtain ⟨format, hformat⟩ := check_of_accept h
  obtain ⟨-, hspec⟩ := check_temp_image_spec b temp_path (.calm files)
  obtain ⟨-, hfaults⟩ := hspec format hformat
  rcases hc : check_temp_image b temp_path (.calm files) with ⟨r, d⟩
  rw [hc] at hformat hfaults
  dsimp only at hformat hfaults
  subst hformat
  have hqueue (c : Call) (hr : ¬ Reading c) (p : Path) : d.faults c p = [] := by
    rw [hfaults c hr]
    cases format <;> simp [afterCheck, Disk.calm]
  have hgone : Gone (image_names b image_id) d temp_path := by
    right
    rw [hqueue .fs_stat (by simp [Reading]), hqueue .fs_unlink (by simp [Reading])]
    exact unlinked_nil (List.count_pos_iff.2 hmem)
  rw [accept_eq image_id hc] at h
  have hnone : ((image_names b image_id).forM unlink_if_exists d).2.files temp_path = none := by
    rw [files_unlink_all (nil_notMem_image_names b image_id), if_pos hgone]
  exact absurd h (Int.ne_of_lt ((fs_rename_fst _ _ _).2 (.inr hnone)))

/-- What acceptance leaves on the disk. -/
theorem accept_calm (h : (eink_store_accept_temp_image b image_id temp_path (.calm files)).1 = 0) :
    ∃ format bytes, files temp_path = some bytes ∧ HasFormat b bytes format ∧
      (eink_store_accept_temp_image b image_id temp_path (.calm files)).2 = .calm fun p =>
        if p = accepted_path b image_id format then some bytes
        else if p ∈ temp_path :: image_names b image_id then none else files p := by
  obtain ⟨format, hformat⟩ := check_of_accept h
  obtain ⟨bytes, hbytes, hhas⟩ := check_temp_image_calm hformat
  obtain ⟨-, hfiles⟩ := accept_passed hformat (fun _ _ _ => rfl) (temp_notMem_of_accept h)
  rw [Disk.files_calm, hbytes] at hfiles
  have htouch : Touches (fun _ => True) (.calm files)
      (eink_store_accept_temp_image b image_id temp_path (.calm files)).2 :=
    touches_accept trivial (fun _ _ => trivial) (.calm files)
  refine ⟨format, bytes, hbytes, hhas, ?_⟩
  rw [htouch.eq_calm]
  congr 1
  funext p
  exact hfiles p

/-- After a return of 0 the store shows the bytes of the temporary file. -/
theorem accepted_visible (hfits : Fits b image_id)
    (h : (eink_store_accept_temp_image b image_id temp_path (.calm files)).1 = 0) :
    ∃ bytes, files temp_path = some bytes ∧
      Visible b image_id bytes (eink_store_accept_temp_image b image_id temp_path (.calm files)).2 := by
  obtain ⟨format, bytes, hbytes, hhas, hdisk⟩ := accept_calm h
  refine ⟨bytes, hbytes, ?_⟩
  rw [hdisk]
  cases format with
  | ES6F => exact visible_raw (if_pos rfl) hhas
  | LZ4 =>
    obtain ⟨hlz4, hframe, hmin, hmax⟩ := hhas
    -- A raw image would be preferred, and it is gone.
    have hne : eink_store_image_path b image_id ≠ eink_store_image_lz4_path b image_id := by
      rw [image_path_eq hfits, image_lz4_path_eq hfits]
      exact image_file_ne (by decide) (by decide) (.inr (by decide))
    refine visible_lz4 hlz4 ?_ (if_pos rfl) hframe hmin hmax
    rw [accepted_path, if_neg hne, if_pos (by simp [image_names])]

end

/-- The smallest file that is accepted as compressed. -/
theorem accepted_visible_lz4 :
    ∃ bytes, (if ascii "t" = ascii "t" then some lz4Head else none) = some bytes ∧ Visible lz4Build (ascii "a") bytes
      (eink_store_accept_temp_image lz4Build (ascii "a") (ascii "t")
        (.calm fun p => if p = ascii "t" then some lz4Head else none)).2 := by
  have haccept : (eink_store_accept_temp_image lz4Build (ascii "a") (ascii "t")
      (.calm fun p => if p = ascii "t" then some lz4Head else none)).1 = 0 := by decide
  exact accepted_visible (by decide) haccept

end EinkNode.Store
