import EinkNode.Store.ContentHash
import EinkNode.Store.Expand
/-!
# Names in the image directory

Every file that belongs to an image is the image's id with one of a few
suffixes. As long as no name is cut off, the name tells the id and the suffix,
so no two files of one image and no two images share a file.
-/
open NodeLib

namespace EinkNode.Store

/-- What is put after an id. -/
def image_suffixes : List Bytes :=
  [ascii ".es6f", ascii ".es6f.tmp", ascii ".es6f.download", ascii ".es6f.download.tmp", ascii ".es6f.download.unc",
    ascii ".es6f.lz4", ascii ".es6f.lz4.sha", ascii ".es6f.lz4.sha.tmp"]

def image_file (b : Build) (image_id suffix : Bytes) : Path := b.root.val ++ ascii "/images/" ++ image_id ++ suffix

/-- The last five bytes tell the suffixes apart. -/
theorem suffix_eq_of_ends : ∀ s ∈ image_suffixes, ∀ t ∈ image_suffixes,
    s.reverse.take 5 = t.reverse.take 5 → s = t := by decide

theorem five_le_length_suffix : ∀ s ∈ image_suffixes, 5 ≤ s.length := by decide

/-- The name of a file tells the id and the suffix. -/
theorem image_file_inj {b : Build} {i j s t : Bytes} (hs : s ∈ image_suffixes) (ht : t ∈ image_suffixes)
    (h : image_file b i s = image_file b j t) : i = j ∧ s = t := by
  simp only [image_file, List.append_assoc, List.append_cancel_left_eq] at h
  have hends (x y : Bytes) (hy : y ∈ image_suffixes) : (x ++ y).reverse.take 5 = y.reverse.take 5 := by
    rw [List.reverse_append, List.take_append_of_le_length]
    simpa using five_le_length_suffix y hy
  have hst : s = t := suffix_eq_of_ends s hs t ht (by rw [← hends i s hs, ← hends j t ht, h])
  subst hst
  exact ⟨List.append_cancel_right h, rfl⟩

theorem image_file_ne {b : Build} {i j s t : Bytes} (hs : s ∈ image_suffixes) (ht : t ∈ image_suffixes)
    (hne : i ≠ j ∨ s ≠ t) : image_file b i s ≠ image_file b j t := by
  intro h
  obtain ⟨hi, hs'⟩ := image_file_inj hs ht h
  rcases hne with hne | hne
  · exact hne hi
  · exact hne hs'

/-- The scratch file has the name of an image. -/
theorem paint_path_eq (b : Build) : paint_path b = image_file b (ascii ".paint") (ascii ".es6f") := by
  have hroot := b.root.fits
  have h19 : (ascii "/images/.paint.es6f").length = 19 := rfl
  rw [paint_path, snprintf, List.take_of_length_le (by rw [List.length_append, h19]; omega), image_file,
    List.append_assoc, List.append_assoc]
  rfl

/-- The path is in the image directory. -/
def UnderImages (b : Build) (path : Path) : Prop := b.root.val ++ ascii "/images/" <+: path

theorem underImages_append {b : Build} {path : Path} (h : UnderImages b path) (ext : Bytes) :
    UnderImages b (path ++ ext) := h.trans (List.prefix_append _ _)

/-- Cutting off a name does not lose the directory. -/
theorem underImages_snprintf (b : Build) {cap : Nat} (hcap : 264 ≤ cap) (name : Bytes) :
    UnderImages b (snprintf cap (b.root.val ++ ascii "/images/" ++ name)) := by
  have hroot := b.root.fits
  have h8 : (ascii "/images/").length = 8 := rfl
  refine List.prefix_take_iff.2 ⟨List.prefix_append _ _, ?_⟩
  rw [List.length_append, h8]
  omega

theorem underImages_image_file (b : Build) (image_id suffix : Bytes) :
    UnderImages b (image_file b image_id suffix) := by
  rw [image_file, List.append_assoc]
  exact List.prefix_append _ _

theorem ne_of_underImages {b : Build} {p q : Path} (hp : UnderImages b p) (hq : ¬ UnderImages b q) : q ≠ p := by
  rintro rfl
  exact hq hp

theorem snprintf_small (b : Build) {name : Bytes} (hlen : name.length ≤ 44) :
    snprintf 300 (b.root.val ++ name) = b.root.val ++ name := by
  have hroot := b.root.fits
  refine List.take_of_length_le ?_
  rw [List.length_append]
  omega

/-- The files next to the image directory are told apart by their names. -/
theorem small_file_ne (b : Build) (m n : Bytes) (hm : m.length ≤ 44) (hn : n.length ≤ 44) (h : m ≠ n)
    (htmp : m ++ ascii ".tmp" ≠ n) :
    snprintf 300 (b.root.val ++ m) ≠ snprintf 300 (b.root.val ++ n) ∧
      snprintf 300 (b.root.val ++ m) ++ ascii ".tmp" ≠ snprintf 300 (b.root.val ++ n) := by
  rw [snprintf_small b hm, snprintf_small b hn, List.append_assoc]
  exact ⟨by simpa using h, by simpa using htmp⟩

/-- A file next to the image directory is not in it, nor is its temporary file. -/
theorem small_file_not_under (b : Build) (name : Bytes) (hlen : name.length ≤ 44) (h2 : 2 ≤ name.length)
    (hname : name.take 2 ≠ ascii "/i") :
    ¬ UnderImages b (snprintf 300 (b.root.val ++ name)) ∧
      ¬ UnderImages b (snprintf 300 (b.root.val ++ name) ++ ascii ".tmp") := by
  have hnot (rest : Bytes) : ¬ UnderImages b (b.root.val ++ name ++ rest) := by
    rintro ⟨tail, h⟩
    simp only [List.append_assoc, List.append_cancel_left_eq] at h
    have htake := congrArg (List.take 2) h
    rw [List.take_append_of_le_length h2] at htake
    exact hname htake.symm
  rw [snprintf_small b hlen]
  exact ⟨by simpa using hnot [], hnot _⟩

/-- No name of the image is cut off by the path buffers. -/
def Fits (b : Build) (image_id : Bytes) : Prop := b.root.val.length + image_id.length + 21 < 300

instance (b : Build) (image_id : Bytes) : Decidable (Fits b image_id) := inferInstanceAs (Decidable (_ < _))

variable {b : Build} {image_id : Bytes} (h : Fits b image_id)
include h

theorem snprintf_image_file {suffix : Bytes} (hs : suffix.length ≤ 13) :
    snprintf 300 (image_file b image_id suffix) = image_file b image_id suffix := by
  unfold Fits at h
  refine List.take_of_length_le ?_
  have h8 : (ascii "/images/").length = 8 := rfl
  simp only [image_file, List.length_append, h8]
  omega

theorem image_path_eq : eink_store_image_path b image_id = image_file b image_id (ascii ".es6f") :=
  snprintf_image_file h (by decide)

theorem image_lz4_path_eq : eink_store_image_lz4_path b image_id = image_file b image_id (ascii ".es6f.lz4") :=
  snprintf_image_file h (by decide)

theorem content_hash_path_eq :
    eink_store_content_hash_path b image_id = image_file b image_id (ascii ".es6f.lz4.sha") :=
  snprintf_image_file h (by decide)

theorem content_hash_tmp_eq : content_hash_tmp b image_id = image_file b image_id (ascii ".es6f.lz4.sha.tmp") := by
  rw [content_hash_tmp, content_hash_path_eq h, image_file, image_file, List.append_assoc]
  rfl

end EinkNode.Store
