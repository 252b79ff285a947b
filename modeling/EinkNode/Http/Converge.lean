import Mathlib.Data.List.Nodup
import EinkNode.Http.SyncV2
import EinkNode.Http.Truthful
/-!
# What a v2 sync leaves beside the images

After a sync the hash beside each image of the plan should be the one that the
server listed. The gallery loop passes over an image that is valid and has any
hash at all, so this holds unless the node has an older image with its hash.
-/
open NodeLib EinkNode.Store EinkNode.Scheduler

namespace EinkNode.Http

/-! ## One download -/

section
variable {b : Build} {image_id : Bytes} {W : Path → Prop}

theorem filesIn_of_fits (hfit : Fits b image_id) (hW : ∀ s ∈ image_suffixes, W (image_file b image_id s)) :
    FilesIn b image_id W := by
  have hdl := download_path_eq hfit
  have hext (s t : Bytes) : image_file b image_id s ++ t = image_file b image_id (s ++ t) := by
    simp [image_file]
  constructor
  · exact hdl ▸ hW _ (by decide)
  · rw [hdl, hext]
    exact hW _ (by decide)
  · rw [hdl, hext]
    exact hW _ (by decide)
  · simp only [image_names, image_path_eq hfit, image_lz4_path_eq hfit, List.mem_cons, List.not_mem_nil, or_false]
    rintro p (rfl | rfl)
    · exact hW _ (by decide)
    · exact hW _ (by decide)
  · exact content_hash_path_eq hfit ▸ hW _ (by decide)
  · exact content_hash_tmp_eq hfit ▸ hW _ (by decide)

/-- An error is not 0. -/
theorem fetch_image_error (expand : Expand) (url : Bytes) (replies : List Reply) (tmp : Path) :
    Always (fun r => ∀ e, r = .error e → e ≠ 0) (fetch_image b expand url replies tmp) := by
  have herr {e : Int} (he : e ≠ 0) : ∀ e', (.error e : Except Int Path) = .error e' → e' ≠ 0 := by
    rintro _ ⟨⟩
    exact he
  have hok (p : Path) : ∀ e', (.ok p : Except Int Path) = .error e' → e' ≠ 0 := nofun
  have hcheck (rename : Bool) :
      Always (fun r => ∀ e, r = .error e → e ≠ 0) (check_download b expand tmp rename) := by
    refine always_bind (negErr_read_head tmp 8) ?_
    rintro (e | head) hneg
    · exact always_then fun _ => always_pure (herr (Int.ne_of_lt hneg))
    · refine always_ite (fun _ => always_then fun _ => always_pure (herr (by decide))) fun _ => ?_
      refine always_ite (fun _ => ?_) fun _ => always_pure (hok _)
      refine always_ite (fun _ => always_then fun _ => always_pure (herr (by decide))) fun _ => ?_
      refine always_then fun expanded => always_ite (fun hneg => ?_) fun _ => ?_
      · exact always_then fun _ => always_pure (herr (Int.ne_of_lt hneg))
      refine always_ite (fun _ => always_then fun _ => always_ite (fun _ => always_then fun ret => ?_) fun _ => ?_)
        fun _ => always_pure (hok _)
      · exact always_ite (fun hneg => always_then fun _ => always_pure (herr (Int.ne_of_lt hneg)))
          fun _ => always_pure (hok _)
      · exact always_pure (hok _)
  refine always_ite (fun _ => always_then fun ret => always_ite (fun h => always_pure (herr h)) fun _ => ?_) fun _ => ?_
  · exact always_ite (fun _ => hcheck true) fun _ => always_pure (hok _)
  · refine always_ite (fun _ => always_then fun ret => ?_) fun _ => always_pure (herr (by decide))
    exact always_ite (fun h => always_pure (herr h)) fun _ => hcheck false

/-- What saving the declared hash returns in a download. -/
def save_result (b : Build) (expand : Expand) (image_id url : Bytes) (replies : List Reply) (sha : Bytes)
    (size : UInt32) : FS Int := do
  match ← fetch_image b expand url replies (download_path b image_id) with
  | .error e => pure e
  | .ok tmp =>
    let _ ← eink_store_accept_temp_image b image_id tmp
    eink_store_save_content_hash b image_id (lower_sha sha) size

/-- After a download that succeeds, its save included, the declared hash is the one beside the image. -/
theorem download_saved {expand : Expand} {url : Bytes} {replies : List Reply} {sha : Bytes} {size : UInt32}
    {d : Disk Path} (hlen : (cstring sha).length = 64) (hhex : sha.all isHex = true)
    (hret : (eink_http_download_image_hashed b expand image_id url replies (some sha) size d).1 = 0)
    (hsave : 0 ≤ (save_result b expand image_id url replies sha size d).1) :
    (eink_store_load_content_hash b image_id
      (.calm (eink_http_download_image_hashed b expand image_id url replies (some sha) size d).2.files)).1 =
        .ok (lower_sha sha, size) := by
  have herr := fetch_image_error (b := b) expand url replies (download_path b image_id) d
  unfold eink_http_download_image_hashed at hret ⊢
  unfold save_result at hsave
  simp only [bind_app] at hret hsave ⊢
  rcases hf : fetch_image b expand url replies (download_path b image_id) d with ⟨e | tmp, d1⟩
  · rw [hf] at hret herr
    exact absurd hret (herr e rfl)
  simp only [hf, accept_and_record, bind_app] at hret hsave ⊢
  generalize eink_store_accept_temp_image b image_id tmp d1 = accepted at hret hsave ⊢
  obtain ⟨ret, d2⟩ := accepted
  dsimp only at hret hsave ⊢
  by_cases hne : ret ≠ 0
  · rw [if_pos hne] at hret
    exact absurd hret hne
  obtain ⟨hlen', h0⟩ := lower_sha_of_length hlen
  rw [if_neg hne]
  simp only [save_declared, hlen, if_true, bind_app, pure_app]
  rw [save_content_hash_eq b hlen' h0] at hsave ⊢
  obtain ⟨tail, htail⟩ := write_and_rename_saved d2 (content_hash_path_ne_tmp b image_id) hsave
  rw [load_content_hash_saved b hlen' h0 size htail, map_lowerHex_lower_sha, if_pos]
  simp only [List.all_eq_true] at hhex ⊢
  intro c hc
  obtain ⟨c', hc', rfl⟩ := List.mem_map.1 hc
  exact isHex_lowerHex (hhex c' (List.mem_of_mem_take hc'))

end

/-! ## A whole sync -/

section
variable (b : SyncBuild) (lib : Lz4Lib) (cfg : HttpConfig) (s : Planned) (a : SyncAnswers)

/-- The hash beside the image is the one that the plan lists. -/
def Recorded (files : Path → Option Bytes) (e : PlanDownload) : Prop :=
  ∃ size, (eink_store_load_content_hash b.toBuild e.asset_id.val (.calm files)).1 =
    .ok (lower_sha e.content_sha256.val, size)

/-- The download succeeds, and so does saving its hash. -/
def Succeeds (e : PlanDownload) (replies : List Reply) (d : Disk Path) : Prop :=
  (fetch_download b lib e replies d).1 = 0 ∧
    0 ≤ (save_result b.toBuild (eink_lz4_expand_if_framed lib) e.asset_id.val e.url.val replies e.content_sha256.val
      e.byte_size d).1

instance (e : PlanDownload) (replies : List Reply) (d : Disk Path) : Decidable (Succeeds b lib e replies d) :=
  inferInstanceAs (Decidable (_ ∧ _))

def IsDue (e : PlanDownload) : Prop := due_image s.st a ≠ [] ∧ e.asset_id.val = due_image s.st a

instance (e : PlanDownload) : Decidable (IsDue s a e) := inferInstanceAs (Decidable (_ ∧ _))

/-- The disk that the gallery loop finds after the entries `pre`, when `d` is the one after the plan. -/
def atTurn (d : Disk Path) (pre : List PlanDownload) : Disk Path :=
  (gallery_loop b lib (due_image s.st a) a.gallery 0 pre (show_phase b lib s a d).2).2

/-- Every download of an entry that the sync attempts succeeds. -/
structure AllSucceed (d : Disk Path) : Prop where
  primary : ∀ e ∈ s.plan.downloads, IsDue s a e →
    Succeeds b lib e a.primary (eink_store_has_valid_image b.toBuild e.asset_id.val d).2
  gallery : ∀ pre e post, s.plan.downloads = pre ++ e :: post → ¬ IsDue s a e →
    (gallery_has b e.asset_id.val (atTurn b lib s a d pre)).1 = false →
      Succeeds b lib e (a.gallery pre.length) (gallery_has b e.asset_id.val (atTurn b lib s a d pre)).2

/-- The entries are about different images, and their hashes are 64 hex digits. -/
structure WellFormed (plan : Plan) : Prop where
  distinct : (plan.downloads.map (·.asset_id)).Nodup
  hex : ∀ e ∈ plan.downloads, e.content_sha256.val.length = 64 ∧ e.content_sha256.val.all isHex = true

/-- An image that the gallery loop takes as it is has the hash of the plan. -/
def NoneStale (d : Disk Path) : Prop :=
  ∀ pre e post, s.plan.downloads = pre ++ e :: post → ¬ IsDue s a e →
    (gallery_has b e.asset_id.val (atTurn b lib s a d pre)).1 = true →
      Recorded b (atTurn b lib s a d pre).files e

variable {b s a}

theorem recorded_congr {files files' : Path → Option Bytes} {e : PlanDownload}
    (h : files' (eink_store_content_hash_path b.toBuild e.asset_id.val) =
      files (eink_store_content_hash_path b.toBuild e.asset_id.val)) : Recorded b files' e ↔ Recorded b files e := by
  unfold Recorded
  rw [load_content_hash_calm, h, ← load_content_hash_calm]

theorem recorded_of_succeeds {e : PlanDownload} {replies : List Reply} {d : Disk Path}
    (hhex : e.content_sha256.val.length = 64 ∧ e.content_sha256.val.all isHex = true)
    (h : Succeeds b lib e replies d) : Recorded b (fetch_download b lib e replies d).2.files e :=
  ⟨_, download_saved (by rw [cstring_of_notMem e.content_sha256.noNul]; exact hhex.1) hhex.2 h.1 h.2⟩

/-! ### The hash of one image, while others are fetched -/

/-- Asking the store writes nothing. -/
theorem touches_gallery_has {W : Path → Prop} (asset_id : Bytes) : Keeps (Touches W) (gallery_has b asset_id) := by
  refine keeps_bind (touches_has_valid_image _ _) fun valid => keeps_ite (keeps_bind ?_ ?_) (keeps_pure _)
  · refine keeps_bind (touches_read_head _ _) ?_
    rintro (e | buf)
    · exact keeps_pure _
    · exact keeps_ite (keeps_pure _) (keeps_pure _)
  · rintro (e | found)
    · exact keeps_pure _
    · exact keeps_pure _

section
variable (hroot : b.root.val.length < 216)
include hroot

theorem fits_id (image_id : Id) : Fits b.toBuild image_id.val := by
  have := image_id.fits
  unfold Fits
  unfold EINK_ID_MAX at this
  omega

variable {image_id : Id}

theorem touches_gallery_turn {e : PlanDownload} (hne : e.asset_id ≠ image_id) (due : Bytes) (replies : List Reply) :
    Keeps (Touches (· ≠ eink_store_content_hash_path b.toBuild image_id.val)) (gallery_turn b lib due e replies) := by
  refine keeps_ite (keeps_pure _) (keeps_bind (touches_gallery_has _) fun has => keeps_ite (keeps_pure _) ?_)
  refine keeps_bind (touches_download (filesIn_of_fits (fits_id hroot _) ?_) lib _ _ _ _) fun _ => keeps_pure _
  intro suffix hs
  rw [content_hash_path_eq (fits_id hroot image_id)]
  exact image_file_ne hs (by decide) (.inl fun h => hne (CStr.ext h))

theorem touches_gallery_loop {es : List PlanDownload} (hne : ∀ e ∈ es, e.asset_id ≠ image_id) (due : Bytes)
    (gallery : Nat → List Reply) (i : Nat) :
    Keeps (Touches (· ≠ eink_store_content_hash_path b.toBuild image_id.val))
      (gallery_loop b lib due gallery i es) := by
  induction es generalizing i with
  | nil => exact keeps_pure _
  | cons e es ih =>
    refine keeps_bind (touches_gallery_turn lib hroot (hne e (by simp)) due _) fun _ => ?_
    exact ih (fun e' he => hne e' (by simp [he])) (i + 1)

variable (image_id)

theorem touches_paint_hash (ff : Bool) (st : State) (tick_now repaint_now : Int) (tick repaint : ShowAnswers) :
    Keeps (Touches (· ≠ eink_store_content_hash_path b.toBuild image_id.val))
      (paint b.toBuild lib ff st tick_now repaint_now tick repaint) := by
  rw [content_hash_path_eq (fits_id hroot image_id)]
  have hunder := underImages_image_file b.toBuild image_id.val (ascii ".es6f.lz4.sha")
  have hstate := small_file_not_under b.toBuild (ascii "/state.json") (by decide) (by decide) (by decide)
  refine touches_paint lib ff ?_ ?_ ?_ _ _ _ _ _
  · rw [paint_path_eq]
    exact image_file_ne (by decide) (by decide) (.inr (by decide))
  · exact ne_of_underImages hunder hstate.1
  · exact ne_of_underImages hunder hstate.2

theorem touches_save_last_sync_hash (now : Int) :
    Keeps (Touches (· ≠ eink_store_content_hash_path b.toBuild image_id.val))
      (eink_store_save_last_sync b.toBuild now) := by
  rw [content_hash_path_eq (fits_id hroot image_id)]
  have hunder := underImages_image_file b.toBuild image_id.val (ascii ".es6f.lz4.sha")
  have hmeta := small_file_not_under b.toBuild (ascii "/sync_meta.json") (by decide) (by decide) (by decide)
  refine touches_save_text ?_ ?_ _
  · exact ne_of_underImages hunder hmeta.2
  · exact ne_of_underImages hunder hmeta.1

end

/-! ### The phases -/

theorem plan_phase_error (b : SyncBuild) (cfg : HttpConfig) (st : State) (a : SyncAnswers) :
    Always (fun r => ∀ e, r = .error e → e ≠ 0) (plan_phase b cfg st a) := by
  have herr {e : Int} (he : e ≠ 0) : ∀ e', (.error e : Except Int Planned) = .error e' → e' ≠ 0 := by
    rintro _ ⟨⟩
    exact he
  refine always_ite (fun _ => always_pure (herr (by decide))) fun _ => ?_
  refine always_ite (fun _ => always_pure (herr (by decide))) fun _ => ?_
  refine always_then fun clock => always_then fun prior => always_then fun report => ?_
  refine always_ite (fun h => always_pure (herr h)) fun _ => ?_
  cases (a.server report).2.bind parse_v2_plan with
  | none => exact always_pure (herr (by decide))
  | some plan => exact always_then fun st => always_pure nofun

theorem gallery_loop_append (due : Bytes) (gallery : Nat → List Reply) (pre es : List PlanDownload) (i : Nat)
    (d : Disk Path) : gallery_loop b lib due gallery i (pre ++ es) d =
      gallery_loop b lib due gallery (i + pre.length) es (gallery_loop b lib due gallery i pre d).2 := by
  induction pre generalizing i d with
  | nil => rfl
  | cons e pre ih =>
    rw [List.cons_append, gallery_loop, bind_app, ih, gallery_loop, bind_app, List.length_cons]
    congr 1
    omega

/-- What is fetched for the panel is the entry of the due image. -/
theorem primary_due (hwf : WellFormed s.plan) {e : PlanDownload} (he : e ∈ s.plan.downloads) (hdue : IsDue s a e) :
    s.plan.primary (due_image s.st a) = some (e.url, some e.content_sha256, e.byte_size) := by
  unfold Plan.primary
  cases hf : s.plan.downloads.find? (·.asset_id.val = due_image s.st a) with
  | none =>
    have := List.find?_eq_none.1 hf e he
    simp [hdue.2] at this
  | some e' =>
    have hid : e'.asset_id.val = due_image s.st a := by simpa using List.find?_some hf
    have heq : e' = e := List.inj_on_of_nodup_map hwf.distinct (List.mem_of_find?_eq_some hf) he
      (CStr.ext (hid.trans hdue.2.symm))
    rw [heq]

theorem fetch_primary_due (hwf : WellFormed s.plan) {e : PlanDownload} (he : e ∈ s.plan.downloads)
    (hdue : IsDue s a e) (replies : List Reply) (d : Disk Path) :
    (fetch_primary b lib (due_image s.st a) s.plan replies d).2 =
      (fetch_download b lib e replies (eink_store_has_valid_image b.toBuild e.asset_id.val d).2).2 := by
  unfold fetch_primary
  rw [if_neg hdue.1, bind_app, primary_due hwf he hdue, hdue.2]
  simp [fetch_download, hdue.2]

/-- What becomes of the hash of one entry: right after the due image is fetched, or after its turn. -/
theorem recorded_at_turn (hwf : WellFormed s.plan) (hroot : b.root.val.length < 216) {d : Disk Path}
    (hall : AllSucceed b lib s a d) {pre post : List PlanDownload} {e : PlanDownload}
    (hsplit : s.plan.downloads = pre ++ e :: post) :
    Recorded b (gallery_turn b lib (due_image s.st a) e (a.gallery pre.length) (atTurn b lib s a d pre)).2.files e ↔
      (¬ IsDue s a e → (gallery_has b e.asset_id.val (atTurn b lib s a d pre)).1 = true →
        Recorded b (atTurn b lib s a d pre).files e) := by
  have he : e ∈ s.plan.downloads := by simp [hsplit]
  have hhex := hwf.hex e he
  unfold gallery_turn
  by_cases hdue : IsDue s a e
  · -- The due image was fetched before, and nothing since has touched its hash.
    have hpre : ∀ e' ∈ pre, e'.asset_id ≠ e.asset_id := by
      have hnodup := hwf.distinct
      rw [hsplit, List.map_append, List.map_cons, List.nodup_append] at hnodup
      exact fun e' he' => hnodup.2.2 _ (List.mem_map_of_mem he') _ (by simp)
    have hloop := (touches_gallery_loop lib hroot hpre (due_image s.st a) a.gallery 0 (show_phase b lib s a d).2).1
    have hpaint := (touches_paint_hash lib hroot e.asset_id b.DISPLAY_FIRE_AND_FORGET s.st a.tick_at
      a.repaint_at a.tick a.repaint (fetch_primary b lib (due_image s.st a) s.plan a.primary d).2).1
    have hrec := recorded_of_succeeds lib hhex (hall.primary e he hdue)
    rw [← fetch_primary_due lib hwf he hdue] at hrec
    have hskip : due_image s.st a ≠ [] ∧ e.asset_id.val = due_image s.st a := hdue
    rw [if_pos hskip]
    simp only [pure_app, hdue, not_true_eq_false, false_implies, iff_true]
    refine (recorded_congr ?_).2 hrec
    exact (hloop _ (by simp)).trans (hpaint _ (by simp))
  · have hturn : ¬ (due_image s.st a ≠ [] ∧ e.asset_id.val = due_image s.st a) := hdue
    rw [if_neg hturn, bind_app]
    cases hhas : (gallery_has b e.asset_id.val (atTurn b lib s a d pre)).1 with
    | true =>
      have hsame := (touches_gallery_has (b := b) (W := fun _ => False) e.asset_id.val (atTurn b lib s a d pre)).1
      have hiff : Recorded b (gallery_has b e.asset_id.val (atTurn b lib s a d pre)).2.files e ↔
        Recorded b (atTurn b lib s a d pre).files e := recorded_congr (hsame _ not_false)
      simpa [hdue] using hiff
    | false =>
      have hrec := recorded_of_succeeds lib hhex (hall.gallery pre e post hsplit hdue hhas)
      simpa [hdue] using hrec

variable {lib cfg}

/-- What the sync leaves beside an image is what its turn left. -/
theorem recorded_at_end (hwf : WellFormed s.plan) (hroot : b.root.val.length < 216)
    (hgallery : (b.BATTERY_DUTY_CYCLE || b.HTTP_SKIP_GALLERY) = false) {st : State} {d d1 : Disk Path}
    (hplan : plan_phase b cfg st a d = (.ok s, d1)) {pre post : List PlanDownload} {e : PlanDownload}
    (hsplit : s.plan.downloads = pre ++ e :: post) :
    Recorded b (sync_v2_once_inner b lib cfg st a d).2.files e ↔
      Recorded b
        (gallery_turn b lib (due_image s.st a) e (a.gallery pre.length) (atTurn b lib s a d1 pre)).2.files e := by
  have hpost : ∀ e' ∈ post, e'.asset_id ≠ e.asset_id := by
    have hnodup := hwf.distinct
    rw [hsplit, List.map_append, List.map_cons, List.nodup_append, List.nodup_cons] at hnodup
    exact fun e' he' h => hnodup.2.1.1 (h ▸ List.mem_map_of_mem he')
  have hloop := gallery_loop_append (b := b) lib (due_image s.st a) a.gallery pre (e :: post) 0
    (show_phase b lib s a d1).2
  rw [← hsplit, Nat.zero_add, gallery_loop, bind_app] at hloop
  have hrest := (touches_gallery_loop lib hroot hpost (due_image s.st a) a.gallery (pre.length + 1)
    (gallery_turn b lib (due_image s.st a) e (a.gallery pre.length) (atTurn b lib s a d1 pre)).2).1 _ (not_not.2 rfl)
  have hsave := (touches_save_last_sync_hash hroot e.asset_id s.now
    (gallery_phase b lib s a (show_phase b lib s a d1).2).2).1 _ (not_not.2 rfl)
  refine recorded_congr ?_
  simp only [sync_v2_once_inner, bind_app, hplan, pure_app]
  refine hsave.trans ?_
  rw [gallery_phase, if_neg (by simp [hgallery]), hloop]
  exact hrest

/-- A sync that returns 0 has a plan. Its downloads succeeding, it leaves the
hash of the plan beside every image if and only if the gallery loop comes to no
image that is valid and has another hash. -/
theorem v2_converges_iff (hroot : b.root.val.length < 216)
    (hgallery : (b.BATTERY_DUTY_CYCLE || b.HTTP_SKIP_GALLERY) = false) {st : State} {d : Disk Path}
    (hret : (sync_v2_once_inner b lib cfg st a d).1.1 = 0) :
    ∃ s d1, plan_phase b cfg st a d = (.ok s, d1) ∧ (WellFormed s.plan → AllSucceed b lib s a d1 →
      ((∀ e ∈ s.plan.downloads, Recorded b (sync_v2_once_inner b lib cfg st a d).2.files e) ↔
        NoneStale b lib s a d1)) := by
  have herr := plan_phase_error b cfg st a d
  rcases hplan : plan_phase b cfg st a d with ⟨e | s, d1⟩
  · rw [hplan] at herr
    simp only [sync_v2_once_inner, bind_app, hplan, pure_app] at hret
    exact absurd hret (herr e rfl)
  refine ⟨s, d1, rfl, fun hwf hall => ⟨fun h pre e post hsplit => ?_, fun h e he => ?_⟩⟩
  · have hrec := h e (by simp [hsplit])
    rw [recorded_at_end hwf hroot hgallery hplan hsplit] at hrec
    exact (recorded_at_turn lib hwf hroot hall hsplit).1 hrec
  · obtain ⟨pre, post, hsplit⟩ := List.append_of_mem he
    rw [recorded_at_end hwf hroot hgallery hplan hsplit, recorded_at_turn lib hwf hroot hall hsplit]
    exact h pre e post hsplit

end

/-! ## An image with an older hash -/

def galleryBuild : SyncBuild :=
  { lz4Build with
    SNTP := true, DISPLAY_FIRE_AND_FORGET := false, BATTERY_DUTY_CYCLE := false, HTTP_SKIP_GALLERY := false }

def noLz4 : Lz4Lib := ⟨fun _ => true, fun _ => none⟩

def serverConfig : HttpConfig := ⟨true, true, ascii "http://s"⟩

/-- A plan with no schedule and one download. -/
def oneDownload : Json :=
  .object [(ascii "protocol", .string (ascii "v2")), (ascii "download", .array [.object
    [(ascii "asset_id", .string (ascii "a")), (ascii "url", .string (ascii "http://s/a")),
      (ascii "content_sha256", .string someSha), (ascii "byte_size", .number 16)]])]

/-- The clock is set, the display has nothing to show, and the image can be fetched. -/
def planAnswers : SyncAnswers :=
  { boot_clock := 1800000000, clock := ⟨0, .ok 1800000000, 0⟩, server := fun _ => (0, some oneDownload)
    due_at := 1800000000, current_at := 1800000000, tick_at := 1800000000, repaint_at := 1800000000
    tick := ⟨0, true, 0, 0, 0⟩, repaint := ⟨0, true, 0, 0, 0⟩, primary := []
    gallery := fun _ => [⟨[lz4Body 0], 0, 200, false⟩] }

def listed : PlanDownload := ⟨.copy _ (ascii "a"), .copy _ (ascii "http://s/a"), .copy _ someSha, 16⟩

def onePlan : Planned := ⟨1800000000, .reset, ⟨.empty, [], [listed]⟩⟩

/-- The image is in the store, with the hash of some other version. -/
def olderImage : Path → Option Bytes := fun p =>
  if p = eink_store_image_lz4_path lz4Build (ascii "a") then some (lz4Body 0)
  else if p = eink_store_content_hash_path lz4Build (ascii "a") then
    some (content_hash_text (List.replicate 64 98) 16)
  else none

theorem wellFormed_onePlan : WellFormed onePlan.plan := ⟨by decide, by decide⟩

theorem split_onePlan {pre post : List PlanDownload} {e : PlanDownload}
    (h : onePlan.plan.downloads = pre ++ e :: post) : pre = [] ∧ e = listed := by
  cases pre with
  | nil =>
    injection h with h
    exact ⟨rfl, h.symm⟩
  | cons e' pre =>
    injection h with _ h
    simp at h

theorem not_due_onePlan (e : PlanDownload) : ¬ IsDue onePlan planAnswers e := fun h =>
  absurd h.1 (by decide +kernel)

/-- From an empty store the sync ends with the hash of the plan. -/
theorem v2_converges_iff_fresh : Recorded galleryBuild
    (sync_v2_once_inner galleryBuild noLz4 serverConfig .reset planAnswers (.calm noFiles)).2.files listed := by
  have hret : (sync_v2_once_inner galleryBuild noLz4 serverConfig .reset planAnswers (.calm noFiles)).1.1 = 0 := by
    decide +kernel
  obtain ⟨s, d1, hplan, h⟩ := v2_converges_iff (by decide) (by rfl) hret
  obtain rfl : s = onePlan := by
    have hs : (plan_phase galleryBuild serverConfig .reset planAnswers (.calm noFiles)).1 = .ok onePlan := by
      decide +kernel
    rw [hplan] at hs
    exact Except.ok.inj hs
  obtain rfl : (plan_phase galleryBuild serverConfig .reset planAnswers (.calm noFiles)).2 = d1 :=
    congrArg Prod.snd hplan
  refine (h wellFormed_onePlan ⟨fun e _ hdue => absurd hdue (not_due_onePlan e), ?_⟩).2 ?_ listed (by decide)
  · intro pre e post hsplit _ _
    obtain ⟨rfl, rfl⟩ := split_onePlan hsplit
    decide +kernel
  · intro pre e post hsplit _ hhas
    obtain ⟨rfl, rfl⟩ := split_onePlan hsplit
    exact absurd hhas (by decide +kernel)

/-- With an older image and its hash in the store, the sync returns 0 and the older hash is still there. -/
theorem v2_keeps_older :
    ∃ s d1, plan_phase galleryBuild serverConfig .reset planAnswers (.calm olderImage) = (.ok s, d1) ∧
      (sync_v2_once_inner galleryBuild noLz4 serverConfig .reset planAnswers (.calm olderImage)).1.1 = 0 ∧
      WellFormed s.plan ∧ AllSucceed galleryBuild noLz4 s planAnswers d1 ∧
      ¬ ∀ e ∈ s.plan.downloads, Recorded galleryBuild
        (sync_v2_once_inner galleryBuild noLz4 serverConfig .reset planAnswers (.calm olderImage)).2.files e := by
  refine ⟨onePlan, (plan_phase galleryBuild serverConfig .reset planAnswers (.calm olderImage)).2, ?_,
    by decide +kernel, wellFormed_onePlan, ⟨fun e _ hdue => absurd hdue (not_due_onePlan e), ?_⟩, fun h => ?_⟩
  · exact Prod.ext (by decide +kernel) rfl
  · intro pre e post hsplit _ hhas
    obtain ⟨rfl, rfl⟩ := split_onePlan hsplit
    exact absurd hhas (by decide +kernel)
  · obtain ⟨size, hsize⟩ := h listed (by decide)
    have hload : (eink_store_load_content_hash lz4Build (ascii "a")
        (.calm (sync_v2_once_inner galleryBuild noLz4 serverConfig .reset planAnswers
          (.calm olderImage)).2.files)).1 = .ok (List.replicate 64 98, 16) := by decide +kernel
    have hsha : List.replicate 64 98 = lower_sha listed.content_sha256.val :=
      congrArg Prod.fst (Except.ok.inj (hload.symm.trans hsize))
    exact absurd hsha (by decide +kernel)

end EinkNode.Http
