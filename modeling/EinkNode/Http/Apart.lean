import EinkNode.Http.Download
import EinkNode.Store.Names
import EinkNode.Store.Saves
/-!
# Images keep apart

The files of an image are named after its id, in path buffers that cut off what
does not fit. Two images keep apart unless an id has a slash, an id is the one
whose image is the scratch file, or a name is cut off to a name of the other
image.
-/
open NodeLib EinkNode.Store EinkNode.Scheduler

namespace EinkNode.Http

variable (b : Build)

/-! ## The files of an image -/

/-- The files that the operations on an image create, rename to or unlink. -/
def image_files (image_id : Bytes) : List Path :=
  [eink_store_image_path b image_id, eink_store_image_path b image_id ++ ascii ".tmp", download_path b image_id,
    download_path b image_id ++ ascii ".tmp", download_path b image_id ++ ascii ".unc",
    eink_store_image_lz4_path b image_id, eink_store_content_hash_path b image_id, content_hash_tmp b image_id]

/-- The files of the store that belong to no image. -/
def metadata_files : List Path :=
  [path_state b, path_sched b, path_sync_meta b, path_http_creds b, path_location b].flatMap fun path =>
    [path, path ++ ascii ".tmp"]

/-- An operation that stores an image or downloads it. -/
inductive ImageOp where
  | put_image (es6f : Bytes)
  | save_content_hash (sha256_hex : Bytes) (byte_size : UInt32)
  | download_image (lib : Lz4Lib) (url : Bytes) (replies : List Reply) (content_sha256 : Option Bytes)
      (byte_size : UInt32)

def ImageOp.run (image_id : Bytes) : ImageOp → FS Int
  | put_image es6f => eink_store_put_image b image_id es6f
  | save_content_hash sha256_hex byte_size => eink_store_save_content_hash b image_id sha256_hex byte_size
  | download_image lib url replies content_sha256 byte_size =>
    eink_http_download_image_hashed b (eink_lz4_expand_if_framed lib) image_id url replies content_sha256 byte_size

/-- The files of the image are all that an operation on it writes to. -/
theorem touches_image_op (image_id : Bytes) (op : ImageOp) :
    Keeps (Touches (· ∈ image_files b image_id)) (op.run b image_id) := by
  have hfiles : FilesIn b image_id (· ∈ image_files b image_id) := by
    refine ⟨by simp [image_files], by simp [image_files], by simp [image_files], ?_, by simp [image_files],
      by simp [image_files]⟩
    intro p hp
    simp only [image_names, List.mem_cons, List.not_mem_nil, or_false] at hp
    rcases hp with rfl | rfl
    · simp [image_files]
    · simp [image_files]
  cases op with
  | put_image es6f =>
    have hsave : Keeps (Touches (· ∈ image_files b image_id)) (save_text (eink_store_image_path b image_id) es6f) :=
      touches_save_text (by simp [image_files]) (by simp [image_files]) es6f
    rw [ImageOp.run, eink_store_put_image]
    cases eink_frame_validate es6f with
    | error e =>
      change Keeps (Touches (· ∈ image_files b image_id)) (pure e)
      exact keeps_pure e
    | ok view => exact hsave
  | save_content_hash sha256_hex byte_size =>
    refine keeps_ite (keeps_pure _) ?_
    exact touches_write_and_rename hfiles.hash_tmp hfiles.hash _
  | download_image lib url replies content_sha256 byte_size => exact touches_download hfiles lib url replies _ _

/-! ## Names behind the image directory -/

/-- The room that the path buffers leave behind `<root>/images/`. -/
def room : Nat := 291 - b.root.val.length

def images_dir : Path := b.root.val ++ ascii "/images/"

/-- What can be put after the image's own path. -/
def path_exts : List Bytes :=
  [[], ascii ".tmp", ascii ".download", ascii ".download.tmp", ascii ".download.unc"]

section
variable (n : Nat) (i : Bytes)

def raw_name : Bytes := (i ++ ascii ".es6f").take n

def lz4_name : Bytes := (i ++ ascii ".es6f.lz4").take n

def sha_name : Bytes := (i ++ ascii ".es6f.lz4.sha").take n

/-- `x` is the name of a file of the image `i`, with room for `n` bytes. -/
inductive IsName (x : Bytes) : Prop where
  | raw (ext : Bytes) (h : ext ∈ path_exts) (hx : x = raw_name n i ++ ext)
  | lz4 (hx : x = lz4_name n i)
  | sha (hx : x = sha_name n i)
  | sha_tmp (hx : x = sha_name n i ++ ascii ".tmp")

end

theorem room_le : 36 ≤ room b := by
  have := b.root.fits
  unfold room
  omega

theorem snprintf_images (name : Bytes) :
    snprintf 300 (b.root.val ++ ascii "/images/" ++ name) = images_dir b ++ name.take (room b) := by
  have hroot := b.root.fits
  have h8 : (ascii "/images/").length = 8 := rfl
  rw [snprintf, images_dir, List.take_append, List.take_of_length_le (by rw [List.length_append, h8]; omega)]
  rw [List.length_append, h8, room]
  apply congrArg (fun k => _ ++ name.take k)
  omega

theorem mem_image_files {image_id : Bytes} {p : Path} :
    p ∈ image_files b image_id ↔ ∃ x, IsName (room b) image_id x ∧ p = images_dir b ++ x := by
  have hraw : eink_store_image_path b image_id = images_dir b ++ raw_name (room b) image_id := by
    rw [eink_store_image_path, List.append_assoc, snprintf_images, raw_name]
  have hlz4 : eink_store_image_lz4_path b image_id = images_dir b ++ lz4_name (room b) image_id := by
    rw [eink_store_image_lz4_path, List.append_assoc, snprintf_images, lz4_name]
  have hsha : eink_store_content_hash_path b image_id = images_dir b ++ sha_name (room b) image_id := by
    rw [eink_store_content_hash_path, List.append_assoc, snprintf_images, sha_name]
  simp only [image_files, content_hash_tmp, download_path, hraw, hlz4, hsha, List.append_assoc, List.mem_cons,
    List.not_mem_nil, or_false]
  constructor
  · rintro (rfl | rfl | rfl | rfl | rfl | rfl | rfl | rfl)
    · exact ⟨_, .raw [] (by simp [path_exts]) rfl, by rw [List.append_nil]⟩
    · exact ⟨_, .raw (ascii ".tmp") (by simp [path_exts]) rfl, rfl⟩
    · exact ⟨_, .raw (ascii ".download") (by simp [path_exts]) rfl, rfl⟩
    · exact ⟨_, .raw (ascii ".download.tmp") (by simp [path_exts]) rfl, rfl⟩
    · exact ⟨_, .raw (ascii ".download.unc") (by simp [path_exts]) rfl, rfl⟩
    · exact ⟨_, .lz4 rfl, rfl⟩
    · exact ⟨_, .sha rfl, rfl⟩
    · exact ⟨_, .sha_tmp rfl, rfl⟩
  · rintro ⟨x, ⟨ext, hext, rfl⟩ | rfl | rfl | rfl, rfl⟩
    · simp only [path_exts, List.mem_cons, List.not_mem_nil, or_false] at hext
      rcases hext with rfl | rfl | rfl | rfl | rfl
      · simp
      · simp
      · simp
      · simp [ascii]
      · simp [ascii]
    · simp
    · simp
    · simp

/-! ## Names that are not cut off -/

/-- What stands before the last `c` of a list. -/
theorem eq_of_last {c : UInt8} {u v u' v' : Bytes} (hv : c ∉ v) (hv' : c ∉ v') (h : u ++ c :: v = u' ++ c :: v') :
    u = u' := by
  rcases List.append_eq_append_iff.1 h with ⟨m, rfl, hm⟩ | ⟨m, rfl, hm⟩
  · cases m with
    | nil => rw [List.append_nil]
    | cons x m =>
      rw [List.cons_append, List.cons.injEq] at hm
      exact absurd (by simp [hm.2]) hv
  · cases m with
    | nil => rw [List.append_nil]
    | cons x m =>
      rw [List.cons_append, List.cons.injEq] at hm
      exact absurd (by simp [hm.2]) hv'

/-- The last 6 of a name tells the id, since nothing that may stand behind `.es6f` has one. -/
theorem id_of_name {i j s t : Bytes} (hs : 54 ∉ s) (ht : 54 ∉ t)
    (h : i ++ ascii ".es6f" ++ s = j ++ ascii ".es6f" ++ t) : i = j := by
  have hsplit (i s : Bytes) : i ++ ascii ".es6f" ++ s = (i ++ ascii ".es") ++ 54 :: (102 :: s) := by
    rw [show ascii ".es6f" = ascii ".es" ++ [54, 102] from rfl]
    simp
  rw [hsplit, hsplit] at h
  exact List.append_cancel_right (eq_of_last (by simp [hs]) (by simp [ht]) h)

section
variable {n : Nat} {i j x : Bytes}

theorem raw_name_of_fits (h : i.length + 5 ≤ n) : raw_name n i = i ++ ascii ".es6f" := by
  apply List.take_of_length_le
  rw [List.length_append]
  exact h

/-- A longer name, cut off behind `.es6f`. -/
theorem take_long_name (h : i.length + 5 ≤ n) (s : Bytes) :
    (i ++ (ascii ".es6f" ++ s)).take n = i ++ ascii ".es6f" ++ s.take (n - (i.length + 5)) := by
  rw [← List.append_assoc, List.take_append, List.length_append]
  have h5 : (ascii ".es6f").length = 5 := rfl
  rw [h5, List.take_of_length_le (by rw [List.length_append, h5]; exact h)]

theorem isName_of_fits (h : i.length + 5 ≤ n) (hx : IsName n i x) : ∃ s, 54 ∉ s ∧ x = i ++ ascii ".es6f" ++ s := by
  have hcut {s : Bytes} (hs : 54 ∉ s) (k : Nat) : 54 ∉ s.take k := fun h => hs (List.mem_of_mem_take h)
  rcases hx with ⟨ext, hext, rfl⟩ | rfl | rfl | rfl
  · have hno : ∀ ext ∈ path_exts, 54 ∉ ext := by decide
    exact ⟨ext, hno ext hext, by rw [raw_name_of_fits h]⟩
  · exact ⟨_, hcut (s := ascii ".lz4") (by decide) _, take_long_name h _⟩
  · exact ⟨_, hcut (s := ascii ".lz4.sha") (by decide) _, take_long_name h _⟩
  · refine ⟨(ascii ".lz4.sha").take (n - (i.length + 5)) ++ ascii ".tmp", ?_, ?_⟩
    · rw [List.mem_append, not_or]
      exact ⟨hcut (by decide) _, by decide⟩
    · rw [← List.append_assoc]
      exact congrArg (· ++ ascii ".tmp") (take_long_name h _)

/-! ## Names that are cut off -/

/-- The image's name is cut off; so are the longer ones, at the same place. -/
theorem names_of_cut (h : n < i.length + 5) :
    (raw_name n i).length = n ∧ lz4_name n i = raw_name n i ∧ sha_name n i = raw_name n i := by
  have h5 : (ascii ".es6f").length = 5 := rfl
  have hlen : n ≤ (i ++ ascii ".es6f").length := by
    rw [List.length_append, h5]
    omega
  have hmore (s : Bytes) : (i ++ (ascii ".es6f" ++ s)).take n = raw_name n i := by
    rw [← List.append_assoc, List.take_append_of_le_length hlen, raw_name]
  refine ⟨?_, hmore (ascii ".lz4"), hmore (ascii ".lz4.sha")⟩
  rw [raw_name, List.length_take]
  omega

theorem isName_of_cut (h : n < i.length + 5) (hx : IsName n i x) : ∃ ext ∈ path_exts, x = raw_name n i ++ ext := by
  obtain ⟨-, hlz4, hsha⟩ := names_of_cut h
  rcases hx with ⟨ext, hext, rfl⟩ | rfl | rfl | rfl
  · exact ⟨ext, hext, rfl⟩
  · exact ⟨[], by decide, by rw [hlz4, List.append_nil]⟩
  · exact ⟨[], by decide, by rw [hsha, List.append_nil]⟩
  · exact ⟨ascii ".tmp", by decide, by rw [hsha]⟩

theorem length_raw_name_le : (raw_name n i).length ≤ n := by
  rw [raw_name, List.length_take]
  omega

/-- What is left of an extension when a shorter one is taken off its end. -/
theorem ext_of_suffix : ∀ f ∈ path_exts, ∀ e ∈ path_exts, e.length ≤ f.length → f.drop (f.length - e.length) = e →
    f.take (f.length - e.length) ∈ path_exts := by decide

/-- Where an extension behind `y` ends with another, `y` is at least as long. -/
theorem append_ext {y z e f : Bytes} (hle : z.length ≤ y.length) (h : y ++ e = z ++ f) :
    y = z ++ f.take (f.length - e.length) ∧ e.length ≤ f.length ∧ f.drop (f.length - e.length) = e := by
  obtain ⟨g, rfl⟩ : z <+: y := List.prefix_of_prefix_length_le (h ▸ List.prefix_append z f) (List.prefix_append y e) hle
  rw [List.append_assoc, List.append_cancel_left_eq] at h
  subst h
  simp

theorem append_nil_of_length {y e : Bytes} (hy : y.length = n) (h : (y ++ e).length ≤ n) : y ++ e = y := by
  rw [List.length_append] at h
  rw [List.eq_nil_of_length_eq_zero (show e.length = 0 by omega), List.append_nil]

/-- A name of full length, from a name that goes on behind it. -/
theorem isName_of_append {y e : Bytes} (hy : y.length = n) (he : e ∈ path_exts) (h : IsName n j (y ++ e)) :
    IsName n j y := by
  -- `e` is the end of what stands behind the cut in the longer name; what is left of that goes to `y`.
  rcases h with ⟨f, hf, h⟩ | h | h | h
  · obtain ⟨hyz, hlen, hdrop⟩ := append_ext (by rw [hy]; exact length_raw_name_le) h
    exact .raw _ (ext_of_suffix f hf e he hlen hdrop) hyz
  · refine .lz4 ?_
    rw [← h, append_nil_of_length hy (h ▸ (List.length_take_le _ _))]
  · refine .sha ?_
    rw [← h, append_nil_of_length hy (h ▸ (List.length_take_le _ _))]
  · obtain ⟨hyz, hlen, hdrop⟩ := append_ext (by rw [hy]; exact List.length_take_le _ _) h
    have hext : ∀ e ∈ path_exts, e.length ≤ (ascii ".tmp").length → e = [] ∨ e = ascii ".tmp" := by decide
    rcases hext e he hlen with rfl | rfl
    · exact .sha_tmp hyz
    · rw [Nat.sub_self, List.take_zero, List.append_nil] at hyz
      exact .sha hyz

/-! ## When two images share a file -/

/-- The names that the buffers cut off. -/
def cut_suffixes : List Bytes := [ascii ".es6f", ascii ".es6f.lz4", ascii ".es6f.lz4.sha"]

/-- The image name of `i` does not fit the room, and what is left of it is a name of `j`. -/
def CutTo (n : Nat) (i j : Bytes) : Prop :=
  n < i.length + 5 ∧ ∃ s ∈ image_suffixes, (i ++ ascii ".es6f").take n = (j ++ s).take n ∧
    (n = j.length + s.length ∨ n < j.length + s.length ∧ s ∈ cut_suffixes)

/-- A name that fits with something behind it was not cut off. -/
theorem whole_name {s ext : Bytes} (hext : ext ≠ []) (h : ((j ++ s).take n ++ ext).length = n) :
    (j ++ s).take n ++ ext = (j ++ (s ++ ext)).take n ∧ n = j.length + (s ++ ext).length := by
  have hpos := List.length_pos_iff.2 hext
  rw [List.length_append, List.length_take, List.length_append] at h
  have hlen : n = j.length + (s ++ ext).length := by
    rw [List.length_append]
    omega
  refine ⟨?_, hlen⟩
  rw [List.take_of_length_le (l := j ++ s) (by rw [List.length_append]; omega),
    List.take_of_length_le (by rw [List.length_append]; omega), List.append_assoc]

/-- A name that fills the room is one of the eight, whole or cut off. -/
theorem suffix_of_isName {y : Bytes} (hy : y.length = n) (h : IsName n j y) :
    ∃ s ∈ image_suffixes, y = (j ++ s).take n ∧
      (n = j.length + s.length ∨ n < j.length + s.length ∧ s ∈ cut_suffixes) := by
  have hcut {s : Bytes} (hs : s ∈ cut_suffixes) (h : y = (j ++ s).take n) :
      n = j.length + s.length ∨ n < j.length + s.length ∧ s ∈ cut_suffixes := by
    have hlen := congrArg List.length h
    rw [List.length_take, List.length_append] at hlen
    rcases Nat.lt_or_ge n (j.length + s.length) with hlt | hge
    · exact .inr ⟨hlt, hs⟩
    · left
      omega
  rcases h with ⟨ext, hext, rfl⟩ | h | h | rfl
  · by_cases hnil : ext = []
    · subst hnil
      rw [List.append_nil] at hy ⊢
      exact ⟨_, by decide, rfl, hcut (by decide) (List.append_nil _)⟩
    · obtain ⟨hname, hlen⟩ := whole_name hnil hy
      have hsuffix : ∀ ext ∈ path_exts, ascii ".es6f" ++ ext ∈ image_suffixes := by decide
      exact ⟨_, hsuffix ext hext, hname, .inl hlen⟩
  · exact ⟨_, by decide, h, hcut (by decide) h⟩
  · exact ⟨_, by decide, h, hcut (by decide) h⟩
  · obtain ⟨hname, hlen⟩ := whole_name (by decide) hy
    exact ⟨ascii ".es6f.lz4.sha" ++ ascii ".tmp", by decide, hname, .inl hlen⟩

theorem isName_of_suffix {s : Bytes} (hs : s ∈ image_suffixes)
    (hlen : n = j.length + s.length ∨ n < j.length + s.length ∧ s ∈ cut_suffixes) : IsName n j ((j ++ s).take n) := by
  have hraw (ext : Bytes) (hext : ext ∈ path_exts) (hn : n = j.length + (ascii ".es6f" ++ ext).length) :
      IsName n j ((j ++ (ascii ".es6f" ++ ext)).take n) := by
    refine .raw ext hext ?_
    rw [List.length_append] at hn
    have h5 : (ascii ".es6f").length = 5 := rfl
    rw [raw_name_of_fits (by omega), List.take_of_length_le (by simp only [List.length_append]; omega),
      List.append_assoc]
  have hwhole (hs : s ∉ cut_suffixes) : n = j.length + s.length := by
    rcases hlen with h | ⟨-, h⟩
    · exact h
    · exact absurd h hs
  simp only [image_suffixes, List.mem_cons, List.not_mem_nil, or_false] at hs
  rcases hs with rfl | rfl | rfl | rfl | rfl | rfl | rfl | rfl
  · exact .raw [] (by decide) (List.append_nil _).symm
  · exact hraw (ascii ".tmp") (by decide) (hwhole (by decide))
  · exact hraw (ascii ".download") (by decide) (hwhole (by decide))
  · exact hraw (ascii ".download.tmp") (by decide) (hwhole (by decide))
  · exact hraw (ascii ".download.unc") (by decide) (hwhole (by decide))
  · exact .lz4 rfl
  · exact .sha rfl
  · refine .sha_tmp ?_
    have hn := hwhole (by decide)
    have h17 : (ascii ".es6f.lz4.sha.tmp").length = 17 := rfl
    have h13 : (ascii ".es6f.lz4.sha").length = 13 := rfl
    rw [sha_name, List.take_of_length_le (l := j ++ ascii ".es6f.lz4.sha") (by rw [List.length_append]; omega),
      List.take_of_length_le (by rw [List.length_append]; omega), List.append_assoc]
    rfl

theorem cutTo_iff (h : n < i.length + 5) : CutTo n i j ↔ IsName n j (raw_name n i) := by
  obtain ⟨hlen, -, -⟩ := names_of_cut h
  constructor
  · rintro ⟨-, s, hs, heq, hroom⟩
    rw [raw_name, heq]
    exact isName_of_suffix hs hroom
  · intro hname
    obtain ⟨s, hs, heq, hroom⟩ := suffix_of_isName hlen hname
    exact ⟨h, s, hs, heq, hroom⟩

/-- A file that two images share is there because a name was cut off. -/
theorem cutTo_of_shared (hne : i ≠ j) (hi : IsName n i x) (hj : IsName n j x) : CutTo n i j ∨ CutTo n j i := by
  have hcut {i j : Bytes} (h : n < i.length + 5) (hi : IsName n i x) (hj : IsName n j x) : CutTo n i j := by
    obtain ⟨ext, hext, rfl⟩ := isName_of_cut h hi
    exact (cutTo_iff h).2 (isName_of_append (names_of_cut h).1 hext hj)
  -- A name that is cut off has full length, so the other id has it as well; else the names tell the ids.
  rcases Nat.lt_or_ge n (i.length + 5) with hlt | hge
  · exact .inl (hcut hlt hi hj)
  · rcases Nat.lt_or_ge n (j.length + 5) with hlt' | hge'
    · exact .inr (hcut hlt' hj hi)
    · obtain ⟨s, hs, rfl⟩ := isName_of_fits hge hi
      obtain ⟨t, ht, heq⟩ := isName_of_fits hge' hj
      exact absurd (id_of_name hs ht heq) hne

/-- What is left of the name is a file of both. -/
theorem shared_of_cutTo (h : CutTo n i j) : IsName n i (raw_name n i) ∧ IsName n j (raw_name n i) :=
  ⟨.raw [] (by decide) (List.append_nil _).symm, (cutTo_iff h.1).1 h⟩

/-- The scratch file is the image of one id. -/
theorem isName_paint (hn : 11 < n) : IsName n i (ascii ".paint.es6f") ↔ i = ascii ".paint" := by
  constructor
  · intro h
    rcases Nat.lt_or_ge n (i.length + 5) with hlt | hge
    · obtain ⟨ext, -, heq⟩ := isName_of_cut hlt h
      have hlen := congrArg List.length heq
      rw [List.length_append, (names_of_cut hlt).1] at hlen
      have h11 : (ascii ".paint.es6f").length = 11 := rfl
      omega
    · obtain ⟨s, hs, heq⟩ := isName_of_fits hge h
      exact (id_of_name (i := ascii ".paint") (s := []) (by simp) hs heq).symm
  · rintro rfl
    refine .raw [] (by decide) ?_
    rw [raw_name_of_fits (Nat.le_of_lt hn), List.append_nil]
    rfl

/-- A slash in a name comes from the id. -/
theorem slash_mem_name (hx : IsName n i x) : 47 ∈ x ↔ 47 ∈ i.take n := by
  have htake {s : Bytes} (hs : 47 ∉ s) : 47 ∈ (i ++ s).take n ↔ 47 ∈ i.take n := by
    rw [List.take_append, List.mem_append, or_iff_left fun h => hs (List.mem_of_mem_take h)]
  rcases hx with ⟨ext, hext, rfl⟩ | rfl | rfl | rfl
  · have hno : ∀ ext ∈ path_exts, 47 ∉ ext := by decide
    rw [List.mem_append, or_iff_left (hno ext hext)]
    exact htake (by decide)
  · exact htake (by decide)
  · exact htake (by decide)
  · rw [List.mem_append, or_iff_left (by decide)]
    exact htake (by decide)

end

/-! ## Keeping apart -/

/-- The path is that of a file in the image directory itself. -/
def InImages (p : Path) : Prop := ∃ name, p = images_dir b ++ name ∧ 47 ∉ name

/-- Two images share no file, neither with each other nor with the rest of the store. -/
structure KeepApart (i j : Bytes) : Prop where
  disjoint : ∀ p ∈ image_files b i, p ∉ image_files b j
  off_metadata : ∀ p ∈ image_files b i ++ image_files b j, p ∉ metadata_files b
  off_scratch : ∀ p ∈ image_files b i ++ image_files b j, p ≠ paint_path b
  inside : ∀ p ∈ image_files b i ++ image_files b j, InImages b p

/-- Ids without a slash in the part that is used, neither of them that of the scratch file, and no name of one cut
off to a name of the other. -/
structure PlainIds (i j : Bytes) : Prop where
  no_slash : 47 ∉ i.take (room b) ∧ 47 ∉ j.take (room b)
  no_scratch : i ≠ ascii ".paint" ∧ j ≠ ascii ".paint"
  no_cut : ¬ CutTo (room b) i j ∧ ¬ CutTo (room b) j i

section
variable {b} {i j : Bytes}

/-- The names of the files that belong to no image, behind the root. -/
def metadata_names : List Bytes :=
  [ascii "/state.json", ascii "/schedule.json", ascii "/sync_meta.json", ascii "/creds.json", ascii "/location.json"]

theorem mem_metadata_files {p : Path} (hp : p ∈ metadata_files b) : ∃ name ∈ metadata_names,
    p = snprintf 300 (b.root.val ++ name) ∨ p = snprintf 300 (b.root.val ++ name) ++ ascii ".tmp" := by
  have hfiles : metadata_files b = metadata_names.flatMap fun name =>
      [snprintf 300 (b.root.val ++ name), snprintf 300 (b.root.val ++ name) ++ ascii ".tmp"] := rfl
  rw [hfiles, List.mem_flatMap] at hp
  simpa using hp

/-- The second letter tells the files of the store from those in the image directory. -/
theorem metadata_off_images {image_id : Bytes} {p : Path} (hp : p ∈ image_files b image_id) : p ∉ metadata_files b := by
  intro hmeta
  have hunder : UnderImages b p := by
    obtain ⟨x, -, rfl⟩ := (mem_image_files b).1 hp
    exact List.prefix_append _ _
  have hnames : ∀ name ∈ metadata_names, name.length ≤ 44 ∧ 2 ≤ name.length ∧ name.take 2 ≠ ascii "/i" := by decide
  obtain ⟨name, hname, hpath⟩ := mem_metadata_files hmeta
  obtain ⟨hlen, h2, hi⟩ := hnames name hname
  obtain ⟨hnot, hnot'⟩ := small_file_not_under b name hlen h2 hi
  rcases hpath with rfl | rfl
  · exact hnot hunder
  · exact hnot' hunder

/-- The scratch file is a file of the image `.paint` and of no other. -/
theorem paint_mem_image_files {image_id : Bytes} :
    paint_path b ∈ image_files b image_id ↔ image_id = ascii ".paint" := by
  have hroom := room_le b
  have hpaint : paint_path b = images_dir b ++ ascii ".paint.es6f" := by
    rw [paint_path_eq, image_file, List.append_assoc]
    rfl
  rw [mem_image_files, hpaint, ← isName_paint (n := room b) (by omega)]
  constructor
  · rintro ⟨x, hx, heq⟩
    rw [List.append_cancel_left heq]
    exact hx
  · intro hx
    exact ⟨_, hx, rfl⟩

/-- The files of an image are in the image directory itself unless its id has a slash. -/
theorem inImages_iff {image_id : Bytes} {p : Path} (hp : p ∈ image_files b image_id) :
    InImages b p ↔ 47 ∉ image_id.take (room b) := by
  obtain ⟨x, hx, rfl⟩ := (mem_image_files b).1 hp
  rw [← slash_mem_name hx]
  constructor
  · rintro ⟨name, heq, hname⟩
    rw [List.append_cancel_left heq]
    exact hname
  · intro hslash
    exact ⟨x, rfl, hslash⟩

theorem shared_file_of_cutTo (h : CutTo (room b) i j) :
    ∃ p, p ∈ image_files b i ∧ p ∈ image_files b j := by
  obtain ⟨hi, hj⟩ := shared_of_cutTo h
  exact ⟨_, (mem_image_files b).2 ⟨_, hi, rfl⟩, (mem_image_files b).2 ⟨_, hj, rfl⟩⟩

theorem plainIds_of_keepApart (h : KeepApart b i j) : PlainIds b i j := by
  have himage (k : Bytes) : eink_store_image_path b k ∈ image_files b k := by simp [image_files]
  have hi := List.mem_append_left (image_files b j) (himage i)
  have hj := List.mem_append_right (image_files b i) (himage j)
  refine ⟨⟨(inImages_iff (himage i)).1 (h.inside _ hi), (inImages_iff (himage j)).1 (h.inside _ hj)⟩, ⟨?_, ?_⟩, ?_, ?_⟩
  · intro hpaint
    exact h.off_scratch _ (List.mem_append_left _ (paint_mem_image_files.2 hpaint)) rfl
  · intro hpaint
    exact h.off_scratch _ (List.mem_append_right _ (paint_mem_image_files.2 hpaint)) rfl
  · intro hcut
    obtain ⟨p, hpi, hpj⟩ := shared_file_of_cutTo hcut
    exact h.disjoint p hpi hpj
  · intro hcut
    obtain ⟨p, hpj, hpi⟩ := shared_file_of_cutTo hcut
    exact h.disjoint p hpi hpj

theorem keepApart_of_plainIds (hne : i ≠ j) (h : PlainIds b i j) : KeepApart b i j := by
  constructor
  · intro p hi hj
    obtain ⟨x, hx, rfl⟩ := (mem_image_files b).1 hi
    obtain ⟨y, hy, heq⟩ := (mem_image_files b).1 hj
    rw [← List.append_cancel_left heq] at hy
    rcases cutTo_of_shared hne hx hy with hcut | hcut
    · exact h.no_cut.1 hcut
    · exact h.no_cut.2 hcut
  · intro p hp
    rcases List.mem_append.1 hp with hp | hp
    · exact metadata_off_images hp
    · exact metadata_off_images hp
  · rintro p hp rfl
    rcases List.mem_append.1 hp with hp | hp
    · exact h.no_scratch.1 (paint_mem_image_files.1 hp)
    · exact h.no_scratch.2 (paint_mem_image_files.1 hp)
  · intro p hp
    rcases List.mem_append.1 hp with hp | hp
    · exact (inImages_iff hp).2 h.no_slash.1
    · exact (inImages_iff hp).2 h.no_slash.2

end

/-- Operations on an image write to its files only, and these keep apart from those of another image exactly when
the ids are plain. -/
theorem images_keep_apart_iff (i j : Id) (hne : i.val ≠ j.val) :
    (∀ (image_id : Id) (op : ImageOp) d p, p ∉ image_files b image_id.val →
      (op.run b image_id.val d).2.files p = d.files p) ∧
    (KeepApart b i.val j.val ↔ PlainIds b i.val j.val) :=
  ⟨fun image_id op d p hp => (touches_image_op b image_id.val op d).1 p hp,
    plainIds_of_keepApart, keepApart_of_plainIds hne⟩

theorem images_keep_apart_short : KeepApart lz4Build (ascii "map") (ascii "menu") := by
  have hcut : ∀ i j : Bytes, i.length ≤ 63 → ¬ CutTo (room lz4Build) i j := by
    intro i j hi h
    have hroom : room lz4Build = 286 := rfl
    have := h.1
    omega
  exact (images_keep_apart_iff lz4Build (.copy _ (ascii "map")) (.copy _ (ascii "menu")) (by decide)).2.2
    ⟨⟨by decide, by decide⟩, ⟨by decide, by decide⟩, hcut _ _ (by decide), hcut _ _ (by decide)⟩

/-- A build whose root takes up the whole of its buffer. -/
def longRootBuild : Build := { lz4Build with root := .copy _ (List.replicate 255 97) }

/-- The scratch file, a slash and two names that are cut off at the same place. -/
theorem images_meet : ¬ KeepApart lz4Build (ascii ".paint") (ascii "map") ∧
    ¬ KeepApart lz4Build (ascii "a/b") (ascii "map") ∧
    ¬ KeepApart longRootBuild (ascii "the-same-thirty-six-bytes-in-the-front-1")
      (ascii "the-same-thirty-six-bytes-in-the-front-2") := by
  refine ⟨?_, ?_, ?_⟩
  · intro h
    exact (plainIds_of_keepApart h).no_scratch.1 rfl
  · intro h
    exact (plainIds_of_keepApart h).no_slash.1 (by decide)
  · intro h
    have hroom : room longRootBuild = 36 := by decide +kernel
    have hcut := (plainIds_of_keepApart h).no_cut.1
    rw [hroom] at hcut
    exact hcut ⟨by decide, ascii ".es6f", by decide, by decide, .inr ⟨by decide, by decide⟩⟩

end EinkNode.Http
