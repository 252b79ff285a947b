import EinkNode.Store.Saves
import EinkNode.Store.Visible
/-!
# What the names of an image hold

A file gets the name of an image by a rename, once it has passed the checks. So
whatever fails, and wherever the power goes, the names hold nothing or what has
passed; a call after which nothing more succeeds is one that was cut off there.
-/
open NodeLib

namespace EinkNode.Store

/-! ## Passing the checks -/

/-- The first bytes tell for the whole file. -/
theorem lz4_of_head {head file : Bytes} (h : head <+: file) (hlooks : eink_lz4_is_frame head = true) :
    eink_lz4_is_frame file = true := by
  unfold eink_lz4_is_frame at hlooks ⊢
  rw [decide_eq_true_eq] at hlooks ⊢
  have hlen : 4 ≤ head.length := by
    have hfour := congrArg List.length hlooks
    simp only [List.length_take, List.length_cons, List.length_nil] at hfour
    omega
  rw [← hlooks, List.prefix_iff_eq_take.1 h, List.take_take, Nat.min_eq_left hlen]

/-- A compressed file that the store takes. -/
structure IsLz4 (file : Bytes) : Prop where
  magic : eink_lz4_is_frame file = true
  min : 16 ≤ file.length
  max : file.length ≤ EINK_LZ4_COMPRESSED_MAX

/-- What the checks have seen of a file. -/
def Passed (file : Bytes) : Format → Prop
  | .ES6F => ∃ hdr, IsFrame file hdr
  | .LZ4 => IsLz4 file

section
variable {b : Build} {image_id temp_path : Bytes} {d : Disk Path}

theorem check_passed {format : Format} (h : (check_temp_image b temp_path d).1 = .ok format) :
    ∃ file, d.files temp_path = some file ∧ Passed file format := by
  unfold check_temp_image at h
  rw [bind_app] at h
  have hfiles := (reading_read_head temp_path 8 d).1
  generalize hread : read_head temp_path 8 d = r at h hfiles
  obtain ⟨r, d1⟩ := r
  cases r with
  | error e => cases h
  | ok head =>
    obtain ⟨file, hfile, hprefix⟩ := read_head_ok (congrArg Prod.fst hread)
    refine ⟨file, hfile, ?_⟩
    dsimp only at h hfiles
    split at h
    · cases h
    split at h
    · next hlooks =>
      split at h
      · -- A compressed file is not read any further, but its size is looked at.
        rw [bind_app] at h
        cases hstat : (fs_stat temp_path d1).1 with
        | error e =>
          rw [hstat] at h
          cases h
        | ok size =>
          rw [hstat] at h
          dsimp only [pure_app] at h
          split at h
          · cases h
          · next hsize =>
            cases h
            have hlen : size = file.length := by
              unfold fs_stat at hstat
              dsimp only at hstat
              rw [hfiles, hfile] at hstat
              cases herr : d1.err .fs_stat temp_path with
              | none =>
                rw [herr] at hstat
                exact (Except.ok.inj hstat).symm
              | some e =>
                rw [herr] at hstat
                cases hstat
            rw [not_or, not_lt, not_lt, hlen] at hsize
            exact ⟨lz4_of_head hprefix (Bool.and_eq_true_iff.1 hlooks).2, hsize.1, hsize.2⟩
      · cases h
    · rw [bind_app] at h
      cases hvalid : (eink_store_validate_path temp_path d1).1 with
      | error e =>
        rw [hvalid] at h
        cases h
      | ok hdr =>
        rw [hvalid] at h
        cases h
        obtain ⟨file', hfile', hframe⟩ := validate_path_ok hvalid
        rw [hfiles, hfile] at hfile'
        cases hfile'
        exact ⟨hdr, hframe⟩

/-- The unlinks before the rename take away names of the image only, and the temporary file stays. -/
theorem unlinks_leave {format : Format} {d1 : Disk Path} (htemp : temp_path ∉ image_names b image_id)
    (hc : check_temp_image b temp_path d = (.ok format, d1)) :
    ((image_names b image_id).forM unlink_if_exists d1).2.files temp_path = d.files temp_path ∧
      ∀ p, ((image_names b image_id).forM unlink_if_exists d1).2.files p = d.files p ∨
        ((image_names b image_id).forM unlink_if_exists d1).2.files p = none := by
  have hfiles := (check_temp_image_spec b temp_path d).1
  rw [hc] at hfiles
  dsimp only at hfiles
  have hunlinked := files_unlink_all (nil_notMem_image_names b image_id) d1
  obtain ⟨file, hfile, -⟩ := check_passed (congrArg Prod.fst hc)
  constructor
  · have hkept : ¬ Gone (image_names b image_id) d1 temp_path := by
      rw [Gone, hfiles, hfile, List.count_eq_zero_of_not_mem htemp, unlinked]
      simp
    rw [hunlinked, if_neg hkept, hfiles]
  · intro p
    rw [hunlinked, hfiles]
    split
    · exact .inr rfl
    · exact .inl rfl

theorem accepted_path_mem (b : Build) (image_id : Bytes) (format : Format) :
    accepted_path b image_id format ∈ image_names b image_id := by
  cases format <;> simp [image_names, accepted_path]

/-- What was accepted is under the name for its format. -/
theorem accept_zero (htemp : temp_path ∉ image_names b image_id)
    (h : (eink_store_accept_temp_image b image_id temp_path d).1 = 0) :
    ∃ format file, d.files temp_path = some file ∧ Passed file format ∧
      (eink_store_accept_temp_image b image_id temp_path d).2.files (accepted_path b image_id format) = some file := by
  rcases hc : check_temp_image b temp_path d with ⟨e | format, d1⟩
  · exact absurd h (Int.ne_of_lt (accept_refused image_id (congrArg Prod.fst hc)).1)
  obtain ⟨file, hfile, hpassed⟩ := check_passed (congrArg Prod.fst hc)
  refine ⟨format, file, hfile, hpassed, ?_⟩
  have hne : accepted_path b image_id format ≠ temp_path := fun he => htemp (he ▸ accepted_path_mem b image_id format)
  rw [accept_eq image_id hc] at h ⊢
  rw [fs_rename_files (by rw [h]; decide) hne, (unlinks_leave htemp hc).1, hfile]

/-- What becomes of a name of the image: it keeps its file, loses it, or gets the temporary one once that has
passed, and then it is the name for its format. -/
theorem accept_name (htemp : temp_path ∉ image_names b image_id) {p : Path} (hp : p ∈ image_names b image_id) :
    (eink_store_accept_temp_image b image_id temp_path d).2.files p = d.files p ∨
      (eink_store_accept_temp_image b image_id temp_path d).2.files p = none ∨
      ∃ format file, p = accepted_path b image_id format ∧ Passed file format ∧
        (eink_store_accept_temp_image b image_id temp_path d).2.files p = some file := by
  rcases hc : check_temp_image b temp_path d with ⟨e | format, d1⟩
  · left
    rw [(accept_refused image_id (congrArg Prod.fst hc)).2]
  obtain ⟨file, hfile, hpassed⟩ := check_passed (congrArg Prod.fst hc)
  obtain ⟨hsource, hleave⟩ := unlinks_leave htemp hc
  have hold := hleave p
  rw [accept_eq image_id hc]
  generalize ((image_names b image_id).forM unlink_if_exists d1).2 = d2 at hsource hold ⊢
  have hpt : p ≠ temp_path := fun h => htemp (h ▸ hp)
  by_cases hneg : (fs_rename temp_path (accepted_path b image_id format) d2).1 < 0
  · rw [fs_rename_files_of_neg hneg]
    exact hold.imp_right .inl
  by_cases hpa : p = accepted_path b image_id format
  · refine .inr (.inr ⟨format, file, hpa, hpassed, ?_⟩)
    rw [hpa] at hpt ⊢
    rw [fs_rename_files hneg hpt, hsource, hfile]
  · rw [(sameAt_fs_rename hpt hpa d2).1]
    exact hold.imp_right .inl

end

/-! ## An intact image -/

/-- The names of the image hold nothing that has not passed the checks for them. -/
structure Intact (b : Build) (image_id : Bytes) (files : Path → Option Bytes) : Prop where
  raw : ∀ file, files (eink_store_image_path b image_id) = some file → Passed file .ES6F
  lz4 : ∀ file, files (eink_store_image_lz4_path b image_id) = some file → Passed file .LZ4

section
variable {b : Build} {image_id temp_path : Bytes} {d : Disk Path}

theorem intact_none (b : Build) (image_id : Bytes) : Intact b image_id fun _ => none := ⟨nofun, nofun⟩

theorem Intact.congr {files files' : Path → Option Bytes} (h : Intact b image_id files)
    (hfiles : ∀ p ∈ image_names b image_id, files' p = files p) : Intact b image_id files' := by
  simp only [image_names, List.forall_mem_cons, List.not_mem_nil, false_implies, implies_true, and_true] at hfiles
  constructor
  · rw [hfiles.1]
    exact h.raw
  · rw [hfiles.2]
    exact h.lz4

theorem raw_ne_lz4 (hfits : Fits b image_id) :
    eink_store_image_path b image_id ≠ eink_store_image_lz4_path b image_id := by
  rw [image_path_eq hfits, image_lz4_path_eq hfits]
  exact image_file_ne (by decide) (by decide) (.inr (by decide))

theorem Intact.accept (hfits : Fits b image_id) (htemp : temp_path ∉ image_names b image_id)
    (h : Intact b image_id d.files) :
    Intact b image_id (eink_store_accept_temp_image b image_id temp_path d).2.files := by
  have hne := raw_ne_lz4 hfits
  constructor
  · intro file hfile
    rcases accept_name (d := d) htemp (p := eink_store_image_path b image_id) (by simp [image_names]) with
      hkept | hgone | ⟨format, stored, hname, hpassed, hstored⟩
    · exact h.raw file (hkept.symm.trans hfile)
    · cases hgone.symm.trans hfile
    · obtain rfl := Option.some.inj (hstored.symm.trans hfile)
      cases format with
      | ES6F => exact hpassed
      | LZ4 => exact absurd hname hne
  · intro file hfile
    rcases accept_name (d := d) htemp (p := eink_store_image_lz4_path b image_id) (by simp [image_names]) with
      hkept | hgone | ⟨format, stored, hname, hpassed, hstored⟩
    · exact h.lz4 file (hkept.symm.trans hfile)
    · cases hgone.symm.trans hfile
    · obtain rfl := Option.some.inj (hstored.symm.trans hfile)
      cases format with
      | ES6F => exact absurd hname hne.symm
      | LZ4 => exact hpassed

/-- A text is saved as a whole or not at all. -/
theorem save_text_cases (path json : Bytes) (d : Disk Path) :
    (save_text path json d).2.files path = d.files path ∨ (save_text path json d).2.files path = some json := by
  by_cases hneg : (save_text path json d).1 < 0
  · exact .inl (save_text_neg hneg)
  · right
    apply save_text_zero
    have hfinish (tmp : Path) (ret : Int) (d : Disk Path) : (finish_file tmp path ret d).1 ≤ 0 := by
      unfold finish_file
      split
      · next h => exact Int.le_of_lt h
      · rw [bind_app]
        split
        · next h => exact Int.le_of_lt h
        · exact Int.le_refl 0
    have hle : (save_text path json d).1 ≤ 0 := by
      unfold save_text
      rw [bind_app]
      split
      · next h => exact Int.le_of_lt h
      · exact hfinish _ _ _
    omega

/-- What the validator for buffers lets in begins with a frame. -/
theorem passed_of_validate {es6f : Bytes} {view : FrameView} (h : eink_frame_validate es6f = .ok view) :
    Passed es6f .ES6F := by
  obtain ⟨hverdict, -⟩ := frame_validate_ok_iff.1 h
  obtain ⟨hparse, hsize, hcrc⟩ := verdict_ok_iff.1 hverdict
  have hpayload : (es6f.take EINK_FRAME_FILE_SIZE).drop EINK_FRAME_HEADER_SIZE = frame_payload es6f := by
    rw [List.drop_take]
    rfl
  rw [List.take_take] at hparse
  rw [hpayload] at hcrc
  refine ⟨view.hdr, hparse, ?_, hcrc⟩
  rw [← hpayload, List.length_drop, hsize]
  rfl

theorem Intact.put_image (hfits : Fits b image_id) (es6f : Bytes) (h : Intact b image_id d.files) :
    Intact b image_id (eink_store_put_image b image_id es6f d).2.files := by
  unfold eink_store_put_image
  cases hvalid : eink_frame_validate es6f with
  | error e => exact h
  | ok view =>
    have hlz4 : ∀ p, p ≠ eink_store_image_path b image_id → p ≠ eink_store_image_path b image_id ++ ascii ".tmp" →
        (save_text (eink_store_image_path b image_id) es6f d).2.files p = d.files p := by
      intro p hp hpt
      refine (touches_save_text (W := fun p => p = eink_store_image_path b image_id ∨
        p = eink_store_image_path b image_id ++ ascii ".tmp") (.inr rfl) (.inl rfl) es6f d).1 p ?_
      rintro (rfl | rfl)
      · exact hp rfl
      · exact hpt rfl
    constructor
    · intro file hfile
      rcases save_text_cases (eink_store_image_path b image_id) es6f d with hkept | hsaved
      · exact h.raw file (hkept.symm.trans hfile)
      · obtain rfl := Option.some.inj (hsaved.symm.trans hfile)
        exact passed_of_validate hvalid
    · intro file hfile
      refine h.lz4 file ((hlz4 _ (raw_ne_lz4 hfits).symm ?_).symm.trans hfile)
      have htmp : image_file b image_id (ascii ".es6f") ++ ascii ".tmp" =
          image_file b image_id (ascii ".es6f.tmp") := by
        rw [image_file, image_file, List.append_assoc]
        rfl
      rw [image_path_eq hfits, image_lz4_path_eq hfits, htmp]
      exact image_file_ne (by decide) (by decide) (.inr (by decide))

end

/-! ## The two checks -/

/-- A file that has passed is valid if it has the right size. -/
theorem verdict_of_passed {file : Bytes} (h : Passed file .ES6F) :
    (∃ hdr, frame_verdict file = .ok hdr) ↔ file.length = EINK_FRAME_FILE_SIZE := by
  obtain ⟨hdr, hframe⟩ := h
  constructor
  · rintro ⟨hdr', hverdict⟩
    exact (verdict_ok_iff.1 hverdict).2.1
  · intro hsize
    have hpayload : frame_payload file = file.drop EINK_FRAME_HEADER_SIZE := by
      apply List.take_of_length_le
      rw [List.length_drop, hsize]
      exact Nat.le_refl EINK_PAYLOAD_LEN
    exact ⟨hdr, verdict_ok_iff.2 ⟨hframe.header, hsize, hpayload ▸ hframe.crc⟩⟩

section
variable {b : Build} {image_id : Bytes} {files : Path → Option Bytes}

theorem passed_ne_nil {file : Bytes} (h : Passed file .ES6F) : file ≠ [] := by
  obtain ⟨hdr, hframe⟩ := h
  rintro rfl
  have hlen := (header_parse_iff.1 hframe.header).1
  exact absurd hlen (by decide)

/-- The full check of a raw image. -/
theorem full_raw {file : Bytes} (hfull : b.STORE_QUICK_CACHE_CHECK = false)
    (hfile : files (eink_store_image_path b image_id) = some file) (hne : file ≠ []) :
    (eink_store_has_valid_image b image_id (.calm files)).1 = true ↔ ∃ hdr, frame_verdict file = .ok hdr := by
  have hresolve := resolve_raw b (Nat.le_refl 300) hfile hne
  have hvalid := validate_path_calm hfile
  unfold eink_store_has_valid_image
  rw [bind_app, hresolve]
  dsimp only
  rw [hfull, if_neg Bool.false_ne_true, bind_app, hresolve]
  dsimp only
  rw [if_neg Bool.false_ne_true, bind_app, hvalid]
  cases frame_verdict file with
  | error e => simp
  | ok hdr => simp

/-- Without a file to show there is no valid image. -/
theorem invalid_of_error {e : Int} (h : (eink_store_resolve_show_path b image_id 300 (.calm files)).1 = .error e) :
    (eink_store_has_valid_image b image_id (.calm files)).1 = false := by
  unfold eink_store_has_valid_image
  rw [bind_app, h]
  rfl

/-- With no raw image there is an error, or the build has compressed ones and there is one with something in it. -/
theorem resolve_without_raw (hraw : files (eink_store_image_path b image_id) = none) :
    (∃ e, (eink_store_resolve_show_path b image_id 300 (.calm files)).1 = .error e) ∨
      b.LZ4 = true ∧ IsFile files (eink_store_image_lz4_path b image_id) := by
  obtain ⟨r, hr, hfile⟩ := path_is_file_calm files (eink_store_image_path b image_id)
  obtain ⟨r', hr', hfile'⟩ := path_is_file_calm files (eink_store_image_lz4_path b image_id)
  have hnot : r ≠ true := by
    intro h
    obtain ⟨bs, hbs, -⟩ := hfile.1 h
    cases hraw.symm.trans hbs
  unfold eink_store_resolve_show_path
  rw [bind_app, hr]
  dsimp only
  rw [if_neg hnot]
  by_cases hlz4 : b.LZ4 = true
  · rw [if_pos hlz4, bind_app, hr']
    dsimp only
    by_cases h : r' = true
    · exact .inr ⟨hlz4, hfile'.1 h⟩
    · rw [if_neg h]
      exact .inl ⟨_, rfl⟩
  · rw [if_neg hlz4]
    exact .inl ⟨_, rfl⟩

/-- The check of the size and the header answers about an intact image as the check of all its bytes does. -/
theorem quick_eq_full (h : Intact b image_id files) :
    (eink_store_has_valid_image { b with STORE_QUICK_CACHE_CHECK := true } image_id (.calm files)).1 =
      (eink_store_has_valid_image { b with STORE_QUICK_CACHE_CHECK := false } image_id (.calm files)).1 := by
  cases hraw : files (eink_store_image_path b image_id) with
  | some file =>
    have hpassed := h.raw file hraw
    have hne := passed_ne_nil hpassed
    have hquick :
        (eink_store_has_valid_image { b with STORE_QUICK_CACHE_CHECK := true } image_id (.calm files)).1 = true ↔
          file.length = EINK_FRAME_FILE_SIZE := by
      have hresolve := resolve_raw b (Nat.le_refl 300) hraw hne
      obtain ⟨hdr, hframe⟩ := hpassed
      unfold eink_store_has_valid_image
      rw [bind_app,
        show eink_store_resolve_show_path { b with STORE_QUICK_CACHE_CHECK := true } image_id 300 (.calm files) = _
          from hresolve]
      dsimp only
      rw [if_pos rfl, show _ ↔ _ from has_image_quick_calm { b with STORE_QUICK_CACHE_CHECK := true } hraw hne]
      exact ⟨And.left, fun hsize => ⟨hsize, hdr, hframe.header⟩⟩
    rw [Bool.eq_iff_iff, hquick, full_raw (b := { b with STORE_QUICK_CACHE_CHECK := false }) rfl hraw hne]
    exact (verdict_of_passed hpassed).symm
  | none =>
    rcases resolve_without_raw hraw with ⟨e, herror⟩ | ⟨hlz4, file, hfile, -⟩
    · rw [invalid_of_error (b := { b with STORE_QUICK_CACHE_CHECK := true }) herror,
        invalid_of_error (b := { b with STORE_QUICK_CACHE_CHECK := false }) herror]
    · have hpassed := h.lz4 file hfile
      rw [valid_lz4 (b := { b with STORE_QUICK_CACHE_CHECK := true }) hlz4 hraw hfile hpassed.magic hpassed.min
          hpassed.max,
        valid_lz4 (b := { b with STORE_QUICK_CACHE_CHECK := false }) hlz4 hraw hfile hpassed.magic hpassed.min
          hpassed.max]

end

end EinkNode.Store
