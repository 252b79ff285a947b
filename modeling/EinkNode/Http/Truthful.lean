import EinkNode.Http.Download
import EinkNode.Lib.Runs
import EinkNode.Store.Names
/-!
# What the content hash says about the image

The hash beside a compressed image is meant to be the SHA-256 of its bytes. It
is saved from what the server declared, after the bytes were accepted, and only
by downloads that declare one. We say for each download what keeps the hash
true, and that over any run of such downloads it stays true.
-/
open NodeLib EinkNode.Store

namespace EinkNode.Http

/-! ## The declared hash -/

theorem lower_sha_of_length {sha : Bytes} (h : (cstring sha).length = 64) :
    (lower_sha sha).length = 64 ∧ (0 : UInt8) ∉ lower_sha sha := by
  have hp : cstring sha <+: sha := List.takeWhile_prefix _
  have htake : sha.take 64 = cstring sha := by
    rw [← h]; exact (List.prefix_iff_eq_take.1 hp).symm
  refine ⟨by simp [lower_sha, htake, h], fun h0 => ?_⟩
  obtain ⟨c, hc, hc0⟩ := List.mem_map.1 h0
  rw [htake] at hc
  exact lowerHex_ne_zero (fun e => zero_notMem_cstring sha (e ▸ hc)) hc0

theorem map_lowerHex_lower_sha (sha : Bytes) : (lower_sha sha).map lowerHex = lower_sha sha := by
  have h : lowerHex ∘ lowerHex = lowerHex := funext lowerHex_lowerHex
  rw [lower_sha, List.map_map, h]

/-! ## Truth -/

variable (sha256 : Bytes → Bytes) (b : Build) (expand : Expand) (image_id : Bytes)

/-- If a hash and a size were loaded, they are those of the object. -/
def Describes (r : Except Int (Bytes × UInt32)) (obj : Bytes) : Prop :=
  ∀ hash size, r = .ok (hash, size) → size.toNat = obj.length ∧ hash = sha256 obj

/-- The hash beside the compressed image, if there are both, is the image's. -/
def Truthful (files : Path → Option Bytes) : Prop :=
  ∀ obj, files (eink_store_image_lz4_path b image_id) = some obj →
    Describes sha256 (eink_store_load_content_hash b image_id (.calm files)).1 obj

/-! ## One download -/

/-- A call of `eink_http_download_image_hashed`, or of `eink_http_download_image` with no
hash and size 0. `faults` are the outcomes in store for saving the hash. -/
structure Download where
  url : Bytes
  replies : List Reply
  content_sha256 : Option Bytes
  byte_size : UInt32
  faults : Call → Path → List Fault

def step (files : Path → Option Bytes) (ev : Download) : Path → Option Bytes :=
  (eink_http_download_image_hashed b expand image_id ev.url ev.replies ev.content_sha256 ev.byte_size
    ⟨files, ev.faults⟩).2.files

/-- Only the calls that save the hash may fail. -/
def SaveFaultsOnly (ev : Download) : Prop :=
  ∀ c p, p ≠ eink_store_content_hash_path b image_id → p ≠ content_hash_tmp b image_id → ev.faults c p = []

/-- What becomes of the old hash once `d` is the disk with the new bytes. -/
def hashFate (d : Disk Path) (ev : Download) : Fate :=
  match ev.content_sha256 with
  | none => .kept
  | some sha =>
    if (cstring sha).length = 64 then
      saveFate (content_hash_tmp b image_id) (eink_store_content_hash_path b image_id) d
        (content_hash_text (lower_sha sha) ev.byte_size).length
    else .kept

/-- The hash that is left beside `body`, when it is stored compressed, describes it:
a saved one was declared rightly, and one that stays already did. -/
def LeavesTruth (files : Path → Option Bytes) (ev : Download) (d : Disk Path) (body : Bytes) : Prop :=
  match hashFate b image_id d ev with
  | .saved => ∀ sha ∈ ev.content_sha256, (lower_sha sha).all isHex = true →
      ev.byte_size.toNat = body.length ∧ lower_sha sha = sha256 body
  | .kept => Describes sha256 (eink_store_load_content_hash b image_id (.calm files)).1 body
  | .removed => True

/-- The condition on one download, over the bytes that arrive in its temporary file. -/
structure DownloadOk (files : Path → Option Bytes) (ev : Download) : Prop where
  fits : Fits b image_id
  truth : ∀ tmp d body, fetch_image b expand ev.url ev.replies (download_path b image_id) ⟨files, ev.faults⟩ =
    (.ok tmp, d) → d.files tmp = some body → (check_temp_image b tmp d).1 = .ok .LZ4 →
      LeavesTruth sha256 b image_id files ev d body

variable {sha256 b expand image_id}

/-! ## The step -/

theorem truthful_congr {files files' : Path → Option Bytes}
    (hl : files' (eink_store_image_lz4_path b image_id) = files (eink_store_image_lz4_path b image_id))
    (hs : files' (eink_store_content_hash_path b image_id) = files (eink_store_content_hash_path b image_id))
    (h : Truthful sha256 b image_id files) : Truthful sha256 b image_id files' := by
  intro obj hobj
  rw [load_content_hash_calm, hs, ← load_content_hash_calm]
  exact h obj (hl ▸ hobj)

theorem step_eq (files : Path → Option Bytes) (ev : Download) :
    step b expand image_id files ev =
      match fetch_image b expand ev.url ev.replies (download_path b image_id) ⟨files, ev.faults⟩ with
      | (.error _, d) => d.files
      | (.ok tmp, d) => (accept_and_record b image_id tmp ev.content_sha256 ev.byte_size d).2.files := by
  unfold step eink_http_download_image_hashed
  simp only [bind_app]
  rcases fetch_image b expand ev.url ev.replies (download_path b image_id) ⟨files, ev.faults⟩ with ⟨e | tmp, d⟩
  · rfl
  · rfl

/-- The files of one image have six names. -/
structure Distinct (b : Build) (image_id : Bytes) : Prop where
  temp : download_path b image_id ∉ image_names b image_id
  lz4_es6f : eink_store_image_lz4_path b image_id ≠ eink_store_image_path b image_id
  lz4 : eink_store_image_lz4_path b image_id ≠ download_path b image_id ∧
    eink_store_image_lz4_path b image_id ≠ download_path b image_id ++ ascii ".tmp" ∧
    eink_store_image_lz4_path b image_id ≠ content_hash_tmp b image_id ∧
    eink_store_image_lz4_path b image_id ≠ eink_store_content_hash_path b image_id
  hash : eink_store_content_hash_path b image_id ∉ download_path b image_id :: image_names b image_id ∧
    eink_store_content_hash_path b image_id ≠ download_path b image_id ++ ascii ".tmp"
  hash_tmp : content_hash_tmp b image_id ∉ download_path b image_id :: image_names b image_id

theorem download_path_eq (h : Fits b image_id) :
    download_path b image_id = image_file b image_id (ascii ".es6f.download") := by
  rw [download_path, image_path_eq h, image_file, image_file, List.append_assoc]; rfl

theorem distinct_of_fits (h : Fits b image_id) : Distinct b image_id := by
  have hT := download_path_eq h
  have hT' : image_file b image_id (ascii ".es6f.download") ++ ascii ".tmp" =
      image_file b image_id (ascii ".es6f.download.tmp") := by
    rw [image_file, image_file, List.append_assoc]; rfl
  have hne {s t : Bytes} (hs : s ∈ image_suffixes) (ht : t ∈ image_suffixes) (h : s ≠ t) :
      image_file b image_id s ≠ image_file b image_id t := image_file_ne hs ht (.inr h)
  constructor <;>
    simp only [image_names, List.mem_cons, List.not_mem_nil, or_false, not_or, image_path_eq h, image_lz4_path_eq h,
      content_hash_path_eq h, content_hash_tmp_eq h, hT, hT']
  all_goals repeat' apply And.intro
  all_goals exact hne (by decide) (by decide) (by decide)

/-- Accepting a compressed image and saving its hash, or not, leaves a hash that describes it. -/
theorem truthful_record (hd : Distinct b image_id) {d : Disk Path} {ev : Download} {body : Bytes}
    {files : Path → Option Bytes}
    (hbody : d.files (eink_store_image_lz4_path b image_id) = some body)
    (hfiles : d.files (eink_store_content_hash_path b image_id) = files (eink_store_content_hash_path b image_id))
    (h : LeavesTruth sha256 b image_id files ev d body) :
    Truthful sha256 b image_id (save_declared b image_id ev.content_sha256 ev.byte_size d).2.files := by
  have hkeep (hk : Describes sha256 (eink_store_load_content_hash b image_id (.calm files)).1 body) :
      Truthful sha256 b image_id d.files := by
    intro obj hobj
    obtain rfl : obj = body := by simpa [hbody] using hobj.symm
    rwa [load_content_hash_calm, hfiles, ← load_content_hash_calm]
  unfold LeavesTruth hashFate at h
  unfold save_declared
  cases hc : ev.content_sha256 with
  | none =>
    rw [hc] at h
    exact hkeep h
  | some sha =>
    simp only [hc] at h ⊢
    by_cases hlen : (cstring sha).length = 64
    · obtain ⟨hlen', h0⟩ := lower_sha_of_length hlen
      rw [if_pos hlen] at h ⊢
      rw [save_content_hash_eq b hlen' h0, bind_app, pure_app]
      have hsave := write_and_rename_files d (content_hash_path_ne_tmp b image_id)
        (content_hash_text (lower_sha sha) ev.byte_size)
      have hlz4 := (touches_write_and_rename (W := fun p => p = content_hash_tmp b image_id ∨
        p = eink_store_content_hash_path b image_id) (.inl rfl) (.inr rfl)
        (content_hash_text (lower_sha sha) ev.byte_size) d).1 (eink_store_image_lz4_path b image_id) (by simp [hd.lz4])
      rw [hbody] at hlz4
      generalize (write_and_rename (content_hash_tmp b image_id) (eink_store_content_hash_path b image_id)
        (content_hash_text (lower_sha sha) ev.byte_size) d).2.files = files' at hsave hlz4 ⊢
      intro obj hobj
      obtain rfl : obj = body := by simpa [hlz4] using hobj.symm
      cases hfate : saveFate (content_hash_tmp b image_id) (eink_store_content_hash_path b image_id) d
          (content_hash_text (lower_sha sha) ev.byte_size).length with
      | saved =>
        simp only [hfate] at h hsave
        obtain ⟨tail, htail⟩ := hsave
        rw [load_content_hash_saved b hlen' h0 ev.byte_size htail, map_lowerHex_lower_sha]
        split
        · next hhex =>
          rintro hash size ⟨⟩
          exact h sha rfl hhex
        · nofun
      | kept =>
        simp only [hfate] at h hsave
        rw [load_content_hash_calm, hsave, hfiles, ← load_content_hash_calm]
        exact h
      | removed =>
        simp only [hfate] at hsave
        rw [load_content_hash_calm, hsave]
        nofun
    · rw [if_neg hlen] at h ⊢
      exact hkeep h

theorem hashFate_congr {d d' : Disk Path} (hs : SameAt (eink_store_content_hash_path b image_id) d d')
    (ht : SameAt (content_hash_tmp b image_id) d d') (ev : Download) :
    hashFate b image_id d' ev = hashFate b image_id d ev := by
  have hw (len : Nat) : Written (content_hash_tmp b image_id) d' len ↔ Written (content_hash_tmp b image_id) d len := by
    simp only [Written, ht.err, Disk.outcome, ht.2]
  simp only [hashFate, saveFate, hw, ht.err, hs.err]

theorem truthful_accept_and_record (hd : Distinct b image_id) {d : Disk Path} {ev : Download}
    (hcalm : ∀ c, ∀ p ∈ download_path b image_id :: image_names b image_id, d.faults c p = [])
    (h : Truthful sha256 b image_id d.files)
    (htruth : ∀ body, d.files (download_path b image_id) = some body →
      (check_temp_image b (download_path b image_id) d).1 = .ok .LZ4 →
        LeavesTruth sha256 b image_id d.files ev d body) :
    Truthful sha256 b image_id
      (accept_and_record b image_id (download_path b image_id) ev.content_sha256 ev.byte_size d).2.files := by
  have hhash := hd.hash.1
  simp only [List.mem_cons, not_or] at hhash
  have hlz4mem : eink_store_image_lz4_path b image_id ∈ image_names b image_id := by simp [image_names]
  rw [accept_and_record, bind_app]
  cases hc : (check_temp_image b (download_path b image_id) d).1 with
  | error e =>
    -- Refused: only the temporary file goes.
    obtain ⟨hneg, hfiles⟩ := accept_refused image_id hc
    rw [if_pos (by omega), bind_app]
    refine truthful_congr ?_ ?_ (hfiles ▸ h)
    · exact (sameAt_fs_unlink hd.lz4.1 _).1
    · exact (sameAt_fs_unlink hhash.1 _).1
  | ok format =>
    obtain ⟨hret, hfiles⟩ := accept_passed hc hcalm hd.temp
    have hsame := sameAt_accept hd.hash.1 d
    have hsame' := sameAt_accept hd.hash_tmp d
    rw [if_neg (by simp [hret]), bind_app]
    generalize (eink_store_accept_temp_image b image_id (download_path b image_id) d).2 = d2 at hfiles hsame hsame' ⊢
    have hlz4 := hfiles (eink_store_image_lz4_path b image_id)
    cases format with
    | ES6F =>
      -- No compressed image is left that a hash could describe.
      simp only [accepted_path, hd.lz4_es6f, if_false, List.mem_cons, hlz4mem, or_true, if_true] at hlz4
      have hrec := (touches_save_declared (W := fun p => p = content_hash_tmp b image_id ∨
        p = eink_store_content_hash_path b image_id) (.inl rfl) (.inr rfl) ev.content_sha256 ev.byte_size d2).1
        (eink_store_image_lz4_path b image_id) (by simp [hd.lz4])
      intro obj hobj
      rw [pure_app, hrec, hlz4] at hobj
      cases hobj
    | LZ4 =>
      obtain ⟨body, hbody⟩ := Option.ne_none_iff_exists'.1 ((check_temp_image_spec b _ d).2 .LZ4 hc).1
      simp only [accepted_path, if_true, hbody] at hlz4
      have hleaves := htruth body hbody hc
      rw [LeavesTruth, ← hashFate_congr hsame hsame'] at hleaves
      exact truthful_record hd hlz4 hsame.1 hleaves

/-- A download that meets its condition keeps the hash true. -/
theorem truthful_step (hb : b.LZ4_EXPAND_ON_DISPLAY = true) {files : Path → Option Bytes} {ev : Download}
    (hfaults : SaveFaultsOnly b image_id ev) (hok : DownloadOk sha256 b expand image_id files ev)
    (h : Truthful sha256 b image_id files) : Truthful sha256 b image_id (step b expand image_id files ev) := by
  have hd := distinct_of_fits hok.fits
  have hfetch := touches_fetch_image expand (W := fun p => p = download_path b image_id ∨
    p = download_path b image_id ++ ascii ".tmp") ev.url ev.replies (.inl rfl) (.inr rfl) (.inl hb) ⟨files, ev.faults⟩
  have hpath := fetch_image_path b expand ev.url ev.replies (download_path b image_id) ⟨files, ev.faults⟩
  have htruth := hok.truth
  rw [step_eq]
  rcases hf : fetch_image b expand ev.url ev.replies (download_path b image_id) ⟨files, ev.faults⟩ with ⟨r, d⟩
  rw [hf] at hfetch hpath
  have hhash : d.files (eink_store_content_hash_path b image_id) = files (eink_store_content_hash_path b image_id) :=
    hfetch.1 _ (by have h := hd.hash; simp only [List.mem_cons, not_or] at h; simp [h])
  have hlz4 : d.files (eink_store_image_lz4_path b image_id) = files (eink_store_image_lz4_path b image_id) :=
    hfetch.1 _ (by simp [hd.lz4])
  have hsame : Truthful sha256 b image_id d.files := truthful_congr hlz4 hhash h
  cases r with
  | error e => exact hsame
  | ok tmp =>
    obtain rfl : tmp = download_path b image_id := by simpa [hb] using hpath tmp rfl
    have hnot : ∀ p ∈ download_path b image_id :: image_names b image_id,
        p ≠ eink_store_content_hash_path b image_id ∧ p ≠ content_hash_tmp b image_id := by
      intro p hp
      exact ⟨fun h => hd.hash.1 (h ▸ hp), fun h => hd.hash_tmp (h ▸ hp)⟩
    refine truthful_accept_and_record hd (fun c p hp => hfetch.calm (hfaults c p (hnot p hp).1 (hnot p hp).2)) hsame ?_
    intro body hbody hc
    have h := htruth _ d body hf hbody hc
    unfold LeavesTruth at h ⊢
    split at h
    · exact h
    · rwa [load_content_hash_calm, hhash, ← load_content_hash_calm]
    · trivial

/-! ## Every run -/

/-- In every state of a run whose downloads meet their condition, the hash is true. -/
theorem content_hash_truthful (hb : b.LZ4_EXPAND_ON_DISPLAY = true) (files : Path → Option Bytes) (evs : List Download)
    (hfaults : ∀ ev ∈ evs, SaveFaultsOnly b image_id ev) (h0 : Truthful sha256 b image_id files)
    (hm : Meets (step b expand image_id) (DownloadOk sha256 b expand image_id) files evs) :
    ∀ before after, evs = before ++ after → Truthful sha256 b image_id (run (step b expand image_id) files before) := by
  rintro before after rfl
  exact run_inv_of_meets _ h0 hm.of_append fun files ev he hok h => truthful_step hb (hfaults ev (by simp [he])) hok h

/-! ## A download without a hash -/

/-- Compressed bytes with `n` more than the head. -/
def lz4Body (n : Nat) : Bytes := lz4Head ++ List.replicate n 0

/-- One reply with the body, and no failing call. -/
def served (body : Bytes) (sha : Option Bytes) (size : UInt32) : Download :=
  { url := ascii "http://s/a", replies := [⟨[body], 0, 200, false⟩], content_sha256 := sha, byte_size := size
    faults := fun _ _ => [] }

def someSha : Bytes := List.replicate 64 97

/-- Image "a" is downloaded with its hash, and another version of it without. -/
def twoVersions : List Download := [served (lz4Body 0) (some someSha) 16, served (lz4Body 1) none 0]

def noExpand : Expand := fun _ _ => pure 0

def noFiles : Path → Option Bytes := fun _ => none

theorem saveFaultsOnly_twoVersions : ∀ ev ∈ twoVersions, SaveFaultsOnly lz4Build (ascii "a") ev := by
  rintro ev hev c p - -
  simp only [twoVersions, List.mem_cons, List.not_mem_nil, or_false] at hev
  rcases hev with rfl | rfl <;> rfl

/-- Stands for SHA-256 on the two versions. -/
def shaOf (body : Bytes) : Bytes := List.replicate 64 (if body = lz4Body 0 then 97 else 98)

/-- The bytes of the reply arrive, and their hash is declared rightly. -/
theorem downloadOk_served {files : Path → Option Bytes} {body : Bytes} {size : UInt32}
    (hbody : (fetch_image lz4Build noExpand (ascii "http://s/a") [⟨[body], 0, 200, false⟩]
      (download_path lz4Build (ascii "a")) ⟨files, fun _ _ => []⟩).2.files (download_path lz4Build (ascii "a")) =
        some body)
    (hdeclared : size.toNat = body.length ∧ lower_sha (shaOf body) = shaOf body)
    (hsaved : hashFate lz4Build (ascii "a") (fetch_image lz4Build noExpand (ascii "http://s/a")
      [⟨[body], 0, 200, false⟩] (download_path lz4Build (ascii "a")) ⟨files, fun _ _ => []⟩).2
        (served body (some (shaOf body)) size) = .saved) :
    DownloadOk shaOf lz4Build noExpand (ascii "a") files (served body (some (shaOf body)) size) := by
  refine ⟨by decide, fun tmp d arrived hf harrived _ => ?_⟩
  obtain rfl : tmp = download_path lz4Build (ascii "a") :=
    (fetch_image_path lz4Build noExpand _ _ _ _ tmp (by rw [hf])).resolve_right fun h => absurd h.1 (by decide)
  obtain rfl : (fetch_image lz4Build noExpand (ascii "http://s/a") [⟨[body], 0, 200, false⟩]
    (download_path lz4Build (ascii "a")) ⟨files, fun _ _ => []⟩).2 = d := congrArg Prod.snd hf
  obtain rfl := Option.some.inj (hbody.symm.trans harrived)
  unfold LeavesTruth
  rw [hsaved]
  rintro sha ⟨⟩ -
  exact hdeclared

/-- Both versions, with their hashes. -/
def bothHashed : List Download := [served (lz4Body 0) (some (shaOf (lz4Body 0))) 16,
  served (lz4Body 1) (some (shaOf (lz4Body 1))) 17]

/-- Hashes that are declared rightly are true after each download, and the second replaces the first. -/
theorem content_hash_truthful_both :
    (∀ before after, bothHashed = before ++ after → Truthful shaOf lz4Build (ascii "a")
      (run (step lz4Build noExpand (ascii "a")) noFiles before)) ∧
    (eink_store_load_content_hash lz4Build (ascii "a")
      (.calm (run (step lz4Build noExpand (ascii "a")) noFiles bothHashed))).1 = .ok (shaOf (lz4Body 1), 17) := by
  refine ⟨content_hash_truthful rfl noFiles bothHashed (fun ev hev c p _ _ => ?_) nofun
    ⟨downloadOk_served ?_ ?_ ?_, downloadOk_served ?_ ?_ ?_, trivial⟩, by decide +kernel⟩
  · simp only [bothHashed, List.mem_cons, List.not_mem_nil, or_false] at hev
    rcases hev with rfl | rfl
    · rfl
    · rfl
  · decide +kernel
  · decide +kernel
  · decide +kernel
  · decide +kernel
  · decide +kernel
  · decide +kernel

/-- The second download leaves the hash of the first. -/
theorem stale_hash :
    ¬ ∀ (sha256 : Bytes → Bytes) (b : Build) (expand : Expand) (image_id : Bytes) (files : Path → Option Bytes)
      (evs : List Download), b.LZ4_EXPAND_ON_DISPLAY = true → (∀ ev ∈ evs, SaveFaultsOnly b image_id ev) →
      Truthful sha256 b image_id files → Truthful sha256 b image_id (run (step b expand image_id) files evs) := by
  intro h
  have ht := h (fun _ => someSha) lz4Build noExpand (ascii "a") noFiles twoVersions rfl saveFaultsOnly_twoVersions nofun
  have hl := ht (lz4Body 1) (by decide +kernel) someSha 16 (by decide +kernel)
  exact absurd hl.1 (by decide)

end EinkNode.Http
