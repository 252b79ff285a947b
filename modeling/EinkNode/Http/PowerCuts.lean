import EinkNode.Http.Apart
import EinkNode.Http.Truthful
import EinkNode.Lib.Runs
import EinkNode.Store.Intact
/-!
# The store after any failures

Every operation that writes to the store, in any order, each with any pattern of
failures. A power cut is such a pattern: no call after it succeeds, and a write
may have moved some bytes. The quick check of a cached image reads its header
only, and still says what the check of all its bytes would say.
-/
open NodeLib EinkNode.Store EinkNode.Scheduler

namespace EinkNode.Http

variable (b : Build)

/-! ## Operations -/

inductive StoreOp where
  | image (image_id : Id) (op : ImageOp)
  | save_last_sync (unix_sec : Int)
  | save_http_creds (api_base : CStr 192) (device_id : CStr 64) (auth_token : CStr 256)
  | save_state (last_job_id : Id)
  | save_schedule (sched : Schedule)
  | save_location (json : Bytes)
  | materialize_es6f (lib : Lz4Lib) (path : Path) (out_cap : Nat)

namespace StoreOp

def run : StoreOp → FS Unit
  | image image_id op => discard (op.run b image_id.val)
  | save_last_sync unix_sec => discard (eink_store_save_last_sync b unix_sec)
  | save_http_creds api_base device_id auth_token =>
    discard (eink_store_save_http_creds b api_base device_id auth_token)
  | save_state last_job_id => discard (eink_store_save_state b last_job_id)
  | save_schedule sched => discard (eink_store_save_schedule b sched)
  | save_location json => discard (write_file_atomic (path_location b) json)
  | materialize_es6f lib path out_cap => discard (eink_store_materialize_es6f lib b path out_cap)

/-- The files that the operation may write to. -/
def writes : StoreOp → List Path
  | image image_id _ => image_files b image_id.val
  | materialize_es6f _ _ _ => [paint_path b]
  | _ => metadata_files b

end StoreOp

/-- An operation with the outcomes in store for its calls. -/
structure StoreEvent where
  op : StoreOp
  faults : Call → Path → List Fault

def store_step (files : Path → Option Bytes) (ev : StoreEvent) : Path → Option Bytes :=
  (ev.op.run b ⟨files, ev.faults⟩).2.files

/-! ## What an operation writes to -/

theorem touches_store_op (op : StoreOp) : Keeps (Touches (· ∈ op.writes b)) (op.run b) := by
  have hdiscard {α : Type} {W : Path → Prop} {m : FS α} (h : Keeps (Touches W) m) : Keeps (Touches W) (discard m) :=
    fun d => h d
  have hmem {path : Path}
      (h : path ∈ [path_state b, path_sched b, path_sync_meta b, path_http_creds b, path_location b]) :
      path ∈ metadata_files b ∧ path ++ ascii ".tmp" ∈ metadata_files b := by
    unfold metadata_files
    exact ⟨List.mem_flatMap.2 ⟨path, h, by simp⟩, List.mem_flatMap.2 ⟨path, h, by simp⟩⟩
  have htext {path : Path}
      (h : path ∈ [path_state b, path_sched b, path_sync_meta b, path_http_creds b, path_location b])
      (json : Bytes) : Keeps (Touches (· ∈ metadata_files b)) (save_text path json) :=
    touches_save_text (hmem h).2 (hmem h).1 json
  cases op with
  | image image_id op => exact hdiscard (touches_image_op b image_id.val op)
  | save_last_sync unix_sec => exact hdiscard (htext (by simp) _)
  | save_http_creds api_base device_id auth_token =>
    refine hdiscard ?_
    unfold eink_store_save_http_creds
    split
    · exact keeps_pure _
    · exact htext (by simp) _
  | save_state last_job_id => exact hdiscard (htext (by simp) _)
  | save_schedule sched =>
    have hsched : path_sched b ∈ metadata_files b ∧ path_sched b ++ ascii ".tmp" ∈ metadata_files b := hmem (by simp)
    exact hdiscard (touches_save_schedule hsched.2 hsched.1 sched)
  | save_location json => exact hdiscard (htext (by simp) json)
  | materialize_es6f lib path out_cap =>
    exact hdiscard (touches_materialize lib b (List.mem_singleton.2 rfl) path out_cap)

section
variable {b} {image_id : Bytes}

theorem image_names_subset {p : Path} (hp : p ∈ image_names b image_id) : p ∈ image_files b image_id := by
  simp only [image_names, List.mem_cons, List.not_mem_nil, or_false] at hp
  rcases hp with rfl | rfl
  · simp [image_files]
  · simp [image_files]

/-- Images whose names fit have no file in common. -/
theorem image_files_disjoint {i j : Bytes} (hi : Fits b i) (hj : Fits b j) (hne : i ≠ j) {p : Path}
    (hp : p ∈ image_files b i) : p ∉ image_files b j := by
  have hname {k : Bytes} (hk : Fits b k) (hp : p ∈ image_files b k) : ∃ s ∈ image_suffixes, p = image_file b k s := by
    have happend (s ext : Bytes) : image_file b k s ++ ext = image_file b k (s ++ ext) := by
      rw [image_file, image_file, List.append_assoc]
    simp only [image_files, download_path, image_path_eq hk, image_lz4_path_eq hk, content_hash_path_eq hk,
      content_hash_tmp_eq hk, happend, List.mem_cons, List.not_mem_nil, or_false] at hp
    rcases hp with rfl | rfl | rfl | rfl | rfl | rfl | rfl | rfl
    all_goals exact ⟨_, by decide, rfl⟩
  intro hp'
  obtain ⟨s, hs, rfl⟩ := hname hi hp
  obtain ⟨t, ht, heq⟩ := hname hj hp'
  exact image_file_ne hs ht (.inl hne) heq

/-- The other files of the image. -/
def beside_files (b : Build) (image_id : Bytes) : List Path :=
  [download_path b image_id, download_path b image_id ++ ascii ".tmp", download_path b image_id ++ ascii ".unc",
    eink_store_content_hash_path b image_id, content_hash_tmp b image_id]

theorem beside_notMem_names (hfits : Fits b image_id) {p : Path} (hp : p ∈ beside_files b image_id) :
    p ∉ image_names b image_id := by
  have happend (s ext : Bytes) : image_file b image_id s ++ ext = image_file b image_id (s ++ ext) := by
    rw [image_file, image_file, List.append_assoc]
  simp only [beside_files, image_names, download_path, image_path_eq hfits, image_lz4_path_eq hfits,
    content_hash_path_eq hfits, content_hash_tmp_eq hfits, happend, List.mem_cons, List.not_mem_nil, or_false,
    not_or] at hp ⊢
  rcases hp with rfl | rfl | rfl | rfl | rfl
  all_goals exact ⟨image_file_ne (by decide) (by decide) (.inr (by decide)),
    image_file_ne (by decide) (by decide) (.inr (by decide))⟩

/-- What writes beside the names leaves the image intact. -/
theorem intact_beside {α : Type} {m : FS α} (hfits : Fits b image_id)
    (hm : Keeps (Touches (· ∈ beside_files b image_id)) m) {d : Disk Path}
    (h : Intact b image_id d.files) : Intact b image_id (m d).2.files :=
  h.congr fun p hp => (hm d).1 p fun hbeside => beside_notMem_names hfits hbeside hp

theorem intact_download (hfits : Fits b image_id) {d : Disk Path} (lib : Lz4Lib) (url : Bytes) (replies : List Reply)
    (sha : Option Bytes) (size : UInt32) (h : Intact b image_id d.files) :
    Intact b image_id
      (eink_http_download_image_hashed b (eink_lz4_expand_if_framed lib) image_id url replies sha size d).2.files := by
  have hfetch : Keeps (Touches (· ∈ beside_files b image_id))
      (fetch_image b (eink_lz4_expand_if_framed lib) url replies (download_path b image_id)) :=
    touches_fetch_image _ url replies (by simp [beside_files]) (by simp [beside_files])
      (.inr ⟨by simp [beside_files], fun src dst hd => touches_expand_if_framed lib hd src⟩)
  have hpath := fetch_image_path b (eink_lz4_expand_if_framed lib) url replies (download_path b image_id) d
  have hfetched := intact_beside hfits hfetch h
  unfold eink_http_download_image_hashed
  rw [bind_app]
  cases hr : (fetch_image b (eink_lz4_expand_if_framed lib) url replies (download_path b image_id) d).1 with
  | error e => exact hfetched
  | ok tmp =>
    have htmp : tmp ∈ beside_files b image_id := by
      rcases hpath tmp hr with rfl | ⟨-, rfl⟩
      · simp [beside_files]
      · simp [beside_files]
    -- The file is accepted as a whole, and what follows is beside the names again.
    have haccepted := hfetched.accept hfits (beside_notMem_names hfits htmp)
    dsimp only
    rw [accept_and_record, bind_app]
    split
    · exact intact_beside hfits (keeps_bind (touches_fs_unlink htmp) fun _ => keeps_pure _) haccepted
    · refine intact_beside hfits (keeps_bind ?_ fun _ => keeps_pure _) haccepted
      exact touches_save_declared (by simp [beside_files]) (by simp [beside_files]) sha size

/-- One operation, whatever fails in it. -/
theorem intact_step (hroot : b.root.val.length ≤ 215) {image_id : Id} (hpaint : image_id.val ≠ ascii ".paint")
    {files : Path → Option Bytes} (ev : StoreEvent) (h : Intact b image_id.val files) :
    Intact b image_id.val (store_step b files ev) := by
  have hfits (j : Id) : Fits b j.val := by
    have hid := j.fits
    have hmax : EINK_ID_MAX = 64 := rfl
    rw [Fits]
    omega
  have helse (hoff : ∀ p ∈ image_names b image_id.val, p ∉ ev.op.writes b) :
      Intact b image_id.val (store_step b files ev) :=
    h.congr fun p hp => (touches_store_op b ev.op ⟨files, ev.faults⟩).1 p (hoff p hp)
  obtain ⟨op, faults⟩ := ev
  cases op with
  | image j op =>
    by_cases hj : image_id.val = j.val
    · have hsame : store_step b files ⟨.image j op, faults⟩ = (op.run b image_id.val ⟨files, faults⟩).2.files := by
        rw [hj]
        rfl
      rw [hsame]
      cases op with
      | put_image es6f => exact Intact.put_image (d := ⟨files, faults⟩) (hfits image_id) es6f h
      | save_content_hash sha256_hex byte_size =>
        refine intact_beside (d := ⟨files, faults⟩) (hfits image_id) (keeps_ite (keeps_pure _) ?_) h
        exact touches_write_and_rename (by simp [beside_files]) (by simp [beside_files]) _
      | download_image lib url replies sha size =>
        exact intact_download (d := ⟨files, faults⟩) (hfits image_id) lib url replies sha size h
    · exact helse fun p hp => image_files_disjoint (hfits image_id) (hfits j) hj (image_names_subset hp)
  | materialize_es6f lib path out_cap =>
    refine helse fun p hp hpaint' => hpaint ?_
    rw [List.mem_singleton.1 hpaint'] at hp
    exact paint_mem_image_files.1 (image_names_subset hp)
  | save_last_sync unix_sec => exact helse fun p hp => metadata_off_images (image_names_subset hp)
  | save_http_creds api_base device_id auth_token => exact helse fun p hp => metadata_off_images (image_names_subset hp)
  | save_state last_job_id => exact helse fun p hp => metadata_off_images (image_names_subset hp)
  | save_schedule sched => exact helse fun p hp => metadata_off_images (image_names_subset hp)
  | save_location json => exact helse fun p hp => metadata_off_images (image_names_subset hp)

end

end EinkNode.Http
