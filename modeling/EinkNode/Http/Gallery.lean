import EinkNode.Http.Arrive
import EinkNode.Http.Bearer
import EinkNode.Http.Radio
/-!
# The whole gallery arrives

A full sync fetches the image for the panel first, skips it in the gallery, and
may leave the gallery to a work item that runs after other syncs and paints. On
a disk that does not fail and with a server that serves images, nothing of the
table gets lost on the way from one to the other.
-/
open NodeLib EinkNode.Store EinkNode.Scheduler

namespace EinkNode.Http

/-! ## What the server has to do -/

/-- The redirects that a download follows. -/
def followed : Nat → List Reply → List Reply
  | 0, _ => []
  | left + 1, replies =>
    if is_redirect (replies.headD .dead) then replies.headD .dead :: followed left replies.tail else []

/-- The response arrives whole, and does not begin like a picture. -/
structure Arrives (reply : Reply) : Prop where
  ret : 0 ≤ reply.ret
  head : looks_like_jpeg_or_png (((reply.frags.filter (· ≠ [])).headD []).take 8) = false

/-- The server answers a download with an image, after redirects or not. -/
structure Serves (b : Build) (replies : List Reply) : Prop where
  redirects : ∀ reply ∈ followed EINK_HTTP_MAX_REDIRECTS replies, Arrives reply
  ret : 0 ≤ (final_reply EINK_HTTP_MAX_REDIRECTS replies).ret
  status : 200 ≤ (final_reply EINK_HTTP_MAX_REDIRECTS replies).status ∧
    (final_reply EINK_HTTP_MAX_REDIRECTS replies).status < 300
  image : ∃ format, HasFormat b (final_reply EINK_HTTP_MAX_REDIRECTS replies).body format

abbrev IsHttpUrl (url : Bytes) : Prop :=
  ((ascii "http://").isPrefixOf url || (ascii "https://").isPrefixOf url) = true

/-! ## One download -/

/-- Neither format begins like a picture. -/
theorem not_picture {b : Build} {file head : Bytes} {format : Format} (hformat : HasFormat b file format)
    (h : head <+: file) : looks_like_jpeg_or_png head = false := by
  have hmagic : file.take 4 = ascii "ES6F" ∨ file.take 4 = [0x04, 0x22, 0x4D, 0x18] := by
    cases format with
    | ES6F => exact .inl hformat.magic
    | LZ4 => exact .inr (of_decide_eq_true hformat.2.1)
  by_contra hpicture
  rw [Bool.not_eq_false, looks_like_jpeg_or_png, Bool.or_eq_true, Bool.and_eq_true] at hpicture
  have htake {n : Nat} (hn : n ≤ head.length) : head.take n = file.take n := by
    rw [List.prefix_iff_eq_take.1 h, List.take_take, Nat.min_eq_left hn]
  rcases hpicture with hjpeg | ⟨hlen, hpng⟩
  · have hjpeg := of_decide_eq_true hjpeg
    have hlen : 3 ≤ head.length := by
      have hthree := congrArg List.length hjpeg
      rw [List.length_take] at hthree
      simp only [List.length_cons, List.length_nil] at hthree
      omega
    have hthree : (file.take 4).take 3 = [0xFF, 0xD8, 0xFF] := by
      rw [List.take_take, Nat.min_eq_left (by omega), ← htake hlen]
      exact hjpeg
    rcases hmagic with hmagic | hmagic
    · rw [hmagic] at hthree
      exact absurd hthree (by decide)
    · rw [hmagic] at hthree
      exact absurd hthree (by decide)
  · have hpng := of_decide_eq_true hpng
    rw [htake (by have := of_decide_eq_true hlen; omega)] at hpng
    rcases hmagic with hmagic | hmagic
    · rw [hmagic] at hpng
      exact absurd hpng (by decide)
    · rw [hmagic] at hpng
      exact absurd hpng (by decide)

/-- The first piece is the beginning of the body. -/
theorem first_piece_begins (reply : Reply) : (reply.frags.filter (· ≠ [])).headD [] <+: reply.body := by
  rw [Reply.body, ← List.flatten_filter_ne_nil]
  cases reply.frags.filter (· ≠ []) with
  | nil => exact List.nil_prefix
  | cons frag frags => exact List.prefix_append frag frags.flatten

/-- The response that ends a download arrives if it is an image. -/
theorem Serves.final {b : Build} {replies : List Reply} (h : Serves b replies) :
    Arrives (final_reply EINK_HTTP_MAX_REDIRECTS replies) := by
  obtain ⟨format, hformat⟩ := h.image
  exact ⟨h.ret, not_picture hformat ((List.take_prefix 8 _).trans (first_piece_begins _))⟩

section
variable {tmp path : Path} {files : Path → Option Bytes}

/-- The request for such a response, right after the file was opened, leaves its body in the file. -/
theorem request_arrives {reply : Reply} (h : Arrives reply) (files : Path → Option Bytes) :
    ∃ files', request_to_file tmp reply (fs_open tmp true true (.calm files)).2 = (0, .calm files') ∧
      files' tmp = some reply.body := by
  obtain ⟨a, rfl⟩ : ∃ a : Answer, a.reply = reply := by
    refine ⟨⟨0, reply.frags, reply.ret, reply.status, if reply.location then some [] else none, none⟩, ?_⟩
    cases reply with
    | mk frags ret status location => cases location <;> rfl
  rw [fs_open_calm]
  dsimp only
  generalize hopened : (fun q => if q = tmp then some [] else files q) = opened
  have hempty : opened tmp = some [] := by
    rw [← hopened]
    exact if_pos rfl
  obtain ⟨files', hrequest⟩ := request_to_file_calm tmp (to_file_iff.2 ⟨h.head, h.ret⟩) opened
  have hbody := request_to_file_zero (d := .calm opened) hempty (congrArg Prod.fst hrequest)
  rw [hrequest] at hbody
  exact ⟨files', hrequest, hbody⟩

theorem finish_arrives (hne : path ≠ tmp) {reply : Reply} (hstatus : 200 ≤ reply.status ∧ reply.status < 300)
    (hfile : files tmp = some reply.body) : (finish_download path tmp reply (.calm files)).1 = 0 := by
  have hren := fs_rename_calm hfile hne.symm
  unfold finish_download
  rw [if_neg (by omega), bind_app, hren]
  rfl

/-- On a disk that does not fail, a download that is served returns 0. -/
theorem download_loop_arrives (hne : path ≠ tmp) {left : Nat} {replies : List Reply}
    (hredirects : ∀ reply ∈ followed left replies, Arrives reply) (hfinal : Arrives (final_reply left replies))
    (hstatus : 200 ≤ (final_reply left replies).status ∧ (final_reply left replies).status < 300) :
    (download_loop path tmp left replies (.calm files)).1 = 0 := by
  have hopen (files : Path → Option Bytes) : ¬ (fs_open tmp true true (.calm files)).1 < 0 := by
    rw [fs_open_calm]
    exact Int.lt_irrefl 0
  induction left generalizing replies files with
  | zero =>
    obtain ⟨files', hrequest, hfile⟩ := request_arrives hfinal files
    rw [final_reply] at hrequest hfile hstatus
    rw [download_loop, bind_app, if_neg (hopen files), bind_app, hrequest]
    exact finish_arrives hne hstatus hfile
  | succ left ih =>
    rw [final_reply] at hfinal hstatus
    rw [followed] at hredirects
    rw [download_loop, bind_app, if_neg (hopen files), bind_app]
    by_cases hredirect : is_redirect (replies.headD .dead) = true
    · rw [if_pos hredirect] at hfinal hstatus hredirects
      obtain ⟨files', hrequest, -⟩ := request_arrives (hredirects _ List.mem_cons_self) files
      rw [hrequest]
      dsimp only
      rw [if_neg (not_not.2 rfl), if_pos hredirect, bind_app, fs_unlink_calm]
      exact ih (fun reply hreply => hredirects reply (List.mem_cons_of_mem _ hreply)) hfinal hstatus
    · rw [if_neg hredirect] at hfinal hstatus
      obtain ⟨files', hrequest, hfile⟩ := request_arrives hfinal files
      rw [hrequest]
      dsimp only
      rw [if_neg (not_not.2 rfl), if_neg hredirect]
      exact finish_arrives hne hstatus hfile

end

section
variable {b : Build} {image_id : Bytes} {expand : Expand} {replies : List Reply} {files : Path → Option Bytes}

/-- A file of either format is let into the store. -/
theorem check_of_format (hkeep : b.LZ4 = true → b.LZ4_EXPAND_ON_DISPLAY = true) {tmp : Path} {file : Bytes}
    {format : Format} (hfile : files tmp = some file) (hformat : HasFormat b file format) :
    (check_temp_image b tmp (.calm files)).1 = .ok format := by
  unfold check_temp_image
  rw [bind_app, read_head_calm hfile]
  dsimp only
  rw [take_frame_head]
  cases format with
  | ES6F =>
    obtain ⟨hdr, hverdict⟩ := (verdict_iff_es6f file).2 hformat
    have hlen : ¬ (file.take 8).length < 4 := by
      rw [List.length_take, hformat.size]
      omega
    rw [if_neg hlen, not_lz4_of_es6f hformat, Bool.and_false, if_neg Bool.false_ne_true, bind_app,
      validate_path_calm hfile, hverdict]
    rfl
  | LZ4 =>
    obtain ⟨hlz4, hframe, hmin, hmax⟩ := hformat
    have hlen : ¬ (file.take 8).length < 4 := by
      rw [List.length_take]
      omega
    have hstat : fs_stat tmp (.calm files) = (.ok file.length, .calm files) := by simp [fs_stat, hfile]
    rw [if_neg hlen, hlz4, hframe, Bool.and_self, if_pos rfl, if_pos (hkeep hlz4), bind_app, hstat]
    dsimp only [pure_app]
    rw [if_neg (by omega)]

variable (expand image_id files) in
/-- The body of a served image is in the temporary file, and is let into the store. -/
theorem fetch_served (hkeep : b.LZ4 = true → b.LZ4_EXPAND_ON_DISPLAY = true) {url : Bytes} (hurl : IsHttpUrl url)
    (h : Serves b replies) :
    ∃ files', fetch_image b expand url replies (download_path b image_id) (.calm files) =
        (.ok (download_path b image_id), .calm files') ∧
      files' (download_path b image_id) = some (final_reply EINK_HTTP_MAX_REDIRECTS replies).body := by
  obtain ⟨format, hformat⟩ := h.image
  generalize htmp : download_path b image_id = tmp
  have hto : http_download_to_file tmp replies =
      download_loop tmp (tmp ++ ascii ".tmp") EINK_HTTP_MAX_REDIRECTS replies := by
    refine if_neg ?_
    have hcut := List.length_take_le (300 - 1) (b.root.val ++ ascii "/images/" ++ image_id ++ ascii ".es6f")
    have hext : (ascii ".download").length = 9 := rfl
    rw [← htmp, download_path, List.length_append, eink_store_image_path, snprintf, hext]
    omega
  have hret : (download_loop tmp (tmp ++ ascii ".tmp") EINK_HTTP_MAX_REDIRECTS replies (.calm files)).1 = 0 :=
    download_loop_arrives (ne_append_tmp tmp) h.redirects h.final h.status
  have htouch : Keeps (Touches fun _ => True)
      (download_loop tmp (tmp ++ ascii ".tmp") EINK_HTTP_MAX_REDIRECTS replies) :=
    touches_download_loop trivial trivial EINK_HTTP_MAX_REDIRECTS replies
  have hdisk := (htouch (.calm files)).eq_calm
  have hfile := (download_loop_zero (ne_append_tmp tmp) hret).1
  have hlocal : ¬ (ascii "file://").isPrefixOf url = true := not_file_of_http hurl
  unfold fetch_image
  rw [if_neg hlocal, if_pos hurl, bind_app, hto, if_neg (not_not.2 hret), hdisk]
  generalize (download_loop tmp (tmp ++ ascii ".tmp") EINK_HTTP_MAX_REDIRECTS replies (.calm files)).2.files = files'
    at hfile
  refine ⟨files', ?_, hfile⟩
  unfold check_download
  rw [bind_app, read_head_calm hfile]
  dsimp only
  have hnot : ¬ (b.LZ4 && eink_lz4_is_frame (List.take 8 (final_reply EINK_HTTP_MAX_REDIRECTS replies).body) &&
      !b.LZ4_EXPAND_ON_DISPLAY) = true := by
    intro hx
    simp only [Bool.and_eq_true, Bool.not_eq_true'] at hx
    exact absurd ((hkeep hx.1.1).symm.trans hx.2) (by decide)
  rw [not_picture hformat (List.take_prefix 8 _), if_neg Bool.false_ne_true, if_neg hnot]
  rfl

/-- A download that is served leaves a valid image. -/
theorem download_served (hkeep : b.LZ4 = true → b.LZ4_EXPAND_ON_DISPLAY = true) (hfits : Fits b image_id) {url : Bytes}
    (hurl : IsHttpUrl url) (h : Serves b replies) :
    stored b (eink_http_download_image b expand image_id url replies (.calm files)).2.files image_id = true := by
  obtain ⟨files', hfetch, hfile⟩ := fetch_served image_id expand files hkeep hurl h
  obtain ⟨format, hformat⟩ := h.image
  have hret := (accept_passed (check_of_format hkeep hfile hformat) (fun _ _ _ => rfl) (distinct_of_fits hfits).temp).1
  obtain ⟨bytes, -, hvisible⟩ := accepted_visible hfits hret
  have htouch : Keeps (Touches fun _ => True) (eink_store_accept_temp_image b image_id (download_path b image_id)) :=
    touches_accept trivial fun _ _ => trivial
  have hcalm := (htouch (.calm files')).eq_calm
  unfold eink_http_download_image eink_http_download_image_hashed
  rw [bind_app, hfetch]
  dsimp only
  unfold accept_and_record
  rw [bind_app, if_neg (not_not.2 hret)]
  change stored b (eink_store_accept_temp_image b image_id (download_path b image_id) (.calm files')).2.files image_id =
    true
  have hvalid := hvisible.valid b.STORE_QUICK_CACHE_CHECK
  rw [hcalm] at hvalid
  exact hvalid

end

/-! ## The images of a table -/

section
variable {b : V0Build} (lib : Lz4Lib) (hkeep : b.LZ4 = true → b.LZ4_EXPAND_ON_DISPLAY = true)
  (hroot : b.root.val.length < 216)
include hkeep hroot

/-- An image is in the store after its turn, downloaded or not. -/
theorem fetch_image_stores {image : PlanImage} (hurl : IsHttpUrl image.url.val) {replies : List Reply}
    (h : Serves b.toBuild replies) {d : Disk Path} (hq : Quiet d) :
    stored b.toBuild (fetch_image_v0 b lib image.image_id image.url replies d).2.files image.image_id.val = true := by
  have hreads := hq.eq_of_reads (touches_has_valid_image b.toBuild image.image_id.val d)
  unfold fetch_image_v0
  rw [bind_app, hreads]
  split
  · next hvalid =>
    rw [hq.eq_calm] at hvalid
    exact hvalid
  · rw [bind_app, hq.eq_calm]
    exact download_served hkeep (fits_id hroot image.image_id) hurl h

/-- The loop passes over this image, which was fetched for the panel. -/
abbrev Skipped (skip_id : Bytes) (image : PlanImage) : Prop := skip_id ≠ [] ∧ image.image_id.val = skip_id

theorem cache_gallery_stores {skip_id : Bytes} {gallery : Nat → List Reply} {images : List PlanImage} {i : Nat}
    (hserves : ∀ k < images.length, Serves b.toBuild (gallery (i + k))) {image : PlanImage} (himage : image ∈ images)
    (hskip : ¬ Skipped skip_id image) (hurl : IsHttpUrl image.url.val) {d : Disk Path} (hq : Quiet d) :
    stored b.toBuild (cache_gallery b lib skip_id gallery i images d).2.files image.image_id.val = true := by
  induction images generalizing i d with
  | nil => exact absurd himage List.not_mem_nil
  | cons head images ih =>
    have hturn : Keeps (KeepsStored b.toBuild image.image_id.val) (cache_turn b lib skip_id head (gallery i)) :=
      keeps_ite (keeps_pure _) (keepsStored_fetch_image lib hroot image.image_id _ _ _)
    have hrest := keepsStored_cache_gallery lib hroot image.image_id skip_id gallery (i + 1) images
      (cache_turn b lib skip_id head (gallery i) d).2 (hturn d hq).1
    rw [cache_gallery, bind_app]
    rcases List.mem_cons.1 himage with rfl | himage
    · refine hrest.2 ?_
      rw [cache_turn, if_neg hskip]
      exact fetch_image_stores lib hkeep hroot hurl (hserves 0 (by simp)) hq
    · refine ih (fun k hk => ?_) himage (hturn d hq).1
      have hnext := hserves (k + 1) (by simpa using hk)
      rwa [show i + 1 + k = i + (k + 1) by omega]

theorem fetch_primary_stores {due : Bytes} {images : List PlanImage} (hurls : ∀ image ∈ images, IsHttpUrl image.url.val)
    {replies : List Reply} (h : Serves b.toBuild replies) {image : PlanImage} (himage : image ∈ images)
    (hskip : Skipped due image) {d : Disk Path} (hq : Quiet d) :
    stored b.toBuild (fetch_primary_v0 b lib due images replies d).2.files image.image_id.val = true := by
  unfold fetch_primary_v0
  cases hfind : images.find? (·.image_id.val = due) with
  | none =>
    have hother := List.find?_eq_none.1 hfind image himage
    exact absurd (decide_eq_true hskip.2) hother
  | some first =>
    have hfirst : first.image_id = image.image_id := by
      have hid := List.find?_some hfind
      exact CStr.ext ((of_decide_eq_true hid).trans hskip.2.symm)
    dsimp only
    rw [if_neg hskip.1, ← hfirst]
    exact fetch_image_stores lib hkeep hroot (hurls first (List.mem_of_find?_eq_some hfind)) h hq

omit hkeep hroot in
/-- The images that are queued are those that are missing, and looking for them changes nothing. -/
theorem missing_images_spec (skip_id : Bytes) (images : List PlanImage) {d : Disk Path} (hq : Quiet d) :
    (missing_images b skip_id images d).2 = d ∧
      ∀ image ∈ images, ¬ Skipped skip_id image →
        stored b.toBuild d.files image.image_id.val = true ∨ image ∈ (missing_images b skip_id images d).1 := by
  induction images with
  | nil => exact ⟨rfl, nofun⟩
  | cons head images ih =>
    obtain ⟨hsame, hmissing⟩ := ih
    by_cases hskip : Skipped skip_id head
    · rw [missing_images, if_pos hskip]
      refine ⟨hsame, fun image himage hnot => ?_⟩
      rcases List.mem_cons.1 himage with rfl | himage
      · exact absurd hskip hnot
      · exact hmissing image himage hnot
    have hreads := hq.eq_of_reads (touches_has_valid_image b.toBuild head.image_id.val d)
    have hvalid : (eink_store_has_valid_image b.toBuild head.image_id.val d).1 =
        stored b.toBuild d.files head.image_id.val := by
      rw [hq.eq_calm]
      rfl
    rw [missing_images, if_neg hskip, bind_app, hreads, bind_app, hsame, hvalid]
    refine ⟨rfl, fun image himage hnot => ?_⟩
    change _ ∨ image ∈ if stored b.toBuild d.files head.image_id.val then _ else _
    cases hstored : stored b.toBuild d.files head.image_id.val with
    | true =>
      rw [if_pos rfl]
      rcases List.mem_cons.1 himage with rfl | himage
      · exact .inl hstored
      · exact hmissing image himage hnot
    | false =>
      rw [if_neg Bool.false_ne_true]
      rcases List.mem_cons.1 himage with rfl | himage
      · exact .inr List.mem_cons_self
      · exact (hmissing image himage hnot).imp_right (List.mem_cons_of_mem _)

end

/-! ## From the sync to the work item -/

/-- Every image of the table is in the store, or the work item will fetch it. -/
def Coming (b : V0Build) (images : List PlanImage) (c : Client) (files : Path → Option Bytes) : Prop :=
  ∀ image ∈ images, image.image_id.val ≠ scratch_id → stored b.toBuild files image.image_id.val = true ∨
    ∃ job, c.gallery_job = some job ∧ image ∈ job.images ∧ ¬ Skipped job.skip_id image

/-- The event leaves a waiting gallery where it is. -/
def NodeEvent.KeepsJob : NodeEvent → Prop
  | .sync _ | .telem_work _ | .paint .. => True
  | .gallery_work _ | .reboot .. => False

section
variable {b : V0Build} (lib : Lz4Lib) (cfg : HttpConfig)

theorem full_sync_keeps_job {c : Client} {job : GalleryJob} (hjob : c.gallery_job = some job) (a : V0Answers)
    (clock : Int) : Always (fun synced => synced.client.gallery_job = some job) (full_sync b lib c a clock) := by
  have hgallery (due : Bytes) (images : List PlanImage) :
      Always (· = some job) (gallery_v0 b lib c.gallery_job due images a.gallery) := by
    rw [hjob]
    refine always_ite (fun _ => always_then fun _ => always_pure rfl) fun _ => ?_
    exact always_ite (fun _ => always_pure rfl) fun _ => always_ite (fun _ => always_pure rfl) fun h => absurd rfl h
  unfold full_sync
  cases a.config with
  | error ret => exact always_pure hjob
  | ok config =>
    refine always_then fun st => always_then fun _ => always_then fun shown => always_then fun posted => ?_
    exact always_bind (hgallery _ _) fun gallery_job hkept => always_pure hkept

theorem sync_keeps_job {c : Client} {job : GalleryJob} (hjob : c.gallery_job = some job) (a : V0Answers) :
    Always (fun synced => synced.client.gallery_job = some job) (eink_http_sync_once_inner b lib cfg c a) := by
  refine always_ite (fun _ => always_pure hjob) fun _ => always_then fun _ => always_then fun fast => ?_
  refine always_ite (fun _ => always_then ?_) fun _ => full_sync_keeps_job lib hjob a c.clock
  rintro ⟨posted, st⟩
  refine always_ite (fun _ => always_pure hjob) fun _ => ?_
  have hfull := full_sync_keeps_job (b := b) (c := { c with st := st }) lib hjob a c.clock
  exact always_bind hfull fun synced hkept => always_pure hkept

theorem event_keeps_job {c : Client} {job : GalleryJob} (hjob : c.gallery_job = some job) {e : NodeEvent}
    (he : e.KeepsJob) : Always (fun client => client.gallery_job = some job) (node_event b lib cfg c e) := by
  cases e with
  | sync a => exact always_bind (sync_keeps_job lib cfg hjob a) fun synced hkept => always_pure hkept
  | telem_work post => exact always_then fun _ => always_pure hjob
  | paint tick_now repaint_now tick repaint => exact always_then fun shown => always_pure hjob
  | gallery_work gallery => exact absurd he id
  | reboot now stored_job => exact absurd he id

variable (hkeep : b.LZ4 = true → b.LZ4_EXPAND_ON_DISPLAY = true) (hroot : b.root.val.length < 216)
include hroot

/-- An event between the sync and the work item neither loses an image nor the job. -/
theorem coming_step {images : List PlanImage} {s : Observed} (h : Coming b images s.client s.files) {e : NodeEvent}
    (he : e.KeepsJob) : Coming b images (node_step b lib cfg s e).client (node_step b lib cfg s e).files := by
  intro image himage hscratch
  have hkeeps := keepsStored_event lib hroot image.image_id cfg hscratch s.client e (.calm s.files) fun _ _ => rfl
  rcases h image himage hscratch with hstored | ⟨job, hjob, hmem, hskip⟩
  · exact .inl (hkeeps.2 hstored)
  · exact .inr ⟨job, event_keeps_job lib cfg hjob he _, hmem, hskip⟩

include hkeep

/-- What a full sync that finds no job leaves to the work item is what is missing. -/
theorem gallery_coming {due : Bytes} {images : List PlanImage} {gallery : Nat → List Reply}
    (hwhole : b.HTTP_GALLERY_DEFER = true → (b.BATTERY_DUTY_CYCLE || b.HTTP_SKIP_GALLERY) = false)
    (hurls : ∀ image ∈ images, IsHttpUrl image.url.val)
    (hgallery : b.HTTP_GALLERY_DEFER = false → ∀ k < images.length, Serves b.toBuild (gallery k)) {d : Disk Path}
    (hq : Quiet d) {image : PlanImage} (himage : image ∈ images)
    (hprimary : Skipped due image → stored b.toBuild d.files image.image_id.val = true) :
    stored b.toBuild (gallery_v0 b lib none due images gallery d).2.files image.image_id.val = true ∨
      b.HTTP_GALLERY_DEFER = true ∧ ∃ job, (gallery_v0 b lib none due images gallery d).1 = some job ∧
        image ∈ job.images ∧ ¬ Skipped job.skip_id image := by
  have hkept := keepsStored_gallery lib hroot image.image_id none due images gallery d hq
  by_cases hskip : Skipped due image
  · exact .inl (hkept.2 (hprimary hskip))
  cases hdefer : b.HTTP_GALLERY_DEFER with
  | false =>
    left
    rw [gallery_v0, hdefer, Bool.not_false, if_pos rfl, bind_app]
    refine cache_gallery_stores lib hkeep hroot (fun k hk => ?_) himage hskip (hurls image himage) hq
    rw [Nat.zero_add]
    exact hgallery hdefer k hk
  | true =>
    obtain ⟨hsame, hmissing⟩ := missing_images_spec (b := b) due images hq
    rcases hmissing image himage hskip with hstored | hmem
    · exact .inl (hkept.2 hstored)
    · refine .inr ⟨rfl, ⟨_, due⟩, ?_, hmem, hskip⟩
      have hne : (missing_images b due images d).1 ≠ [] := List.ne_nil_of_mem hmem
      rw [gallery_v0, hdefer, hwhole hdefer]
      rw [if_neg (by simp), if_neg Bool.false_ne_true, if_neg (by simp), bind_app, pure_app, if_neg hne]

variable {images : List PlanImage} (hurls : ∀ image ∈ images, IsHttpUrl image.url.val)
  (hwhole : b.HTTP_GALLERY_DEFER = true → (b.BATTERY_DUTY_CYCLE || b.HTTP_SKIP_GALLERY) = false) {a : V0Answers}
  {sched : Schedule} (hconfig : a.config = .ok (sched, images)) (hprimary : Serves b.toBuild a.primary)
  (hgallery : b.HTTP_GALLERY_DEFER = false → ∀ k < images.length, Serves b.toBuild (a.gallery k))
include hurls hwhole hconfig hprimary hgallery

theorem full_sync_coming {c : Client} (hidle : c.gallery_job = none) (clock : Int) {d : Disk Path} (hq : Quiet d)
    {image : PlanImage} (himage : image ∈ images) (hscratch : image.image_id.val ≠ scratch_id) :
    stored b.toBuild (full_sync b lib c a clock d).2.files image.image_id.val = true ∨
      b.HTTP_GALLERY_DEFER = true ∧ ∃ job, (full_sync b lib c a clock d).1.client.gallery_job = some job ∧
        image ∈ job.images ∧ ¬ Skipped job.skip_id image := by
  unfold full_sync
  rw [hconfig]
  dsimp only
  simp only [bind_app, pure_app, hidle]
  have hset := keepsStored_set_schedule hroot image.image_id c.st sched (a.reading clock 7) d hq
  generalize set_schedule_on_store b.toBuild c.st sched (a.reading clock 7) d = set at hset ⊢
  obtain ⟨st, d1⟩ := set
  generalize image_to_show st (a.reading clock 8) (a.reading clock 9) = due
  have hq2 := (keepsStored_fetch_primary lib hroot image.image_id due images a.primary d1 hset.1).1
  have hdue (hskip : Skipped due image) :=
    fetch_primary_stores lib hkeep hroot hurls hprimary himage hskip (d := d1) hset.1
  generalize (fetch_primary_v0 b lib due images a.primary d1).2 = d2 at hq2 hdue ⊢
  have hpaint := keepsStored_paint lib hroot image.image_id hscratch b.DISPLAY_FIRE_AND_FORGET st (a.reading clock 10)
    (a.reading clock 11) a.tick a.repaint d2 hq2
  generalize paint b.toBuild lib b.DISPLAY_FIRE_AND_FORGET st (a.reading clock 10) (a.reading clock 11) a.tick
    a.repaint d2 = painted at hpaint ⊢
  obtain ⟨shown, d3⟩ := painted
  have hpost := keepsStored_post hroot image.image_id c.telem_job (a.reading clock 7) a.telem d3 hpaint.1
  generalize post_telemetry b c.telem_job (a.reading clock 7) a.telem d3 = posted at hpost ⊢
  obtain ⟨t, d4⟩ := posted
  exact gallery_coming lib hkeep hroot hwhole hurls hgallery hpost.1 himage fun hskip =>
    hpost.2 (hpaint.2 (hdue hskip))

/-- After a sync that has fetched its configuration, the images are in the store or wait for the work item. -/
theorem sync_coming {c : Client} (hidle : c.gallery_job = none) {d : Disk Path} (hq : Quiet d)
    (hfetched : (eink_http_sync_once_inner b lib cfg c a d).1.fetched ≠ none) {image : PlanImage}
    (himage : image ∈ images) (hscratch : image.image_id.val ≠ scratch_id) :
    stored b.toBuild (eink_http_sync_once_inner b lib cfg c a d).2.files image.image_id.val = true ∨
      b.HTTP_GALLERY_DEFER = true ∧ ∃ job,
        (eink_http_sync_once_inner b lib cfg c a d).1.client.gallery_job = some job ∧ image ∈ job.images ∧
          ¬ Skipped job.skip_id image := by
  unfold eink_http_sync_once_inner at hfetched ⊢
  split at hfetched
  · exact absurd rfl hfetched
  next hcfg =>
  rw [if_neg hcfg]
  simp only [bind_app] at hfetched ⊢
  rw [hq.eq_of_reads (touches_ensure_wall_clock (b := b) b.SNTP (a.reading c.clock 0) a.clock d)] at hfetched ⊢
  obtain ⟨hgate, -⟩ := fast_path_gate_spec (b := b) c.st (a.reading c.clock 1) (a.reading c.clock 2)
    (a.reading c.clock 3) hq
  generalize fast_path_gate b c.st (a.reading c.clock 1) (a.reading c.clock 2) (a.reading c.clock 3) d = gate
    at hgate hfetched ⊢
  obtain ⟨fast, d'⟩ := gate
  obtain rfl : d' = d := hgate
  cases fast with
  | false => exact full_sync_coming lib hkeep hroot hurls hwhole hconfig hprimary hgallery hidle _ hq himage hscratch
  | true =>
    have htelem := sync_telem_only_spec (b := b) lib c a hq
    simp only [if_true, bind_app] at hfetched ⊢
    generalize sync_telem_only b lib c a d' = telem at htelem hfetched ⊢
    obtain ⟨⟨posted, st⟩, d3⟩ := telem
    dsimp only at htelem hfetched ⊢
    by_cases hret : posted.ret = 0
    · -- The fast path fetches nothing.
      rw [if_pos hret] at hfetched
      exact absurd rfl hfetched
    · rw [if_neg hret, bind_app, pure_app]
      exact full_sync_coming (c := { c with st := st }) lib hkeep hroot hurls hwhole hconfig hprimary hgallery hidle _
        htelem.quiet himage hscratch

end

/-! ## A gallery that is left to the work item -/

def deferBuild : V0Build := { pollBuild with HTTP_GALLERY_DEFER := true }

def secondImage : PlanImage := ⟨.copy _ (ascii "b"), .copy _ (ascii "https://s/b")⟩

/-- The image for the panel and one more. -/
def twoImages : List PlanImage := [⟨.copy _ (ascii "a"), .copy _ (ascii "http://s/a")⟩, secondImage]

def imageReply : List Reply := [⟨[lz4Body 0], 0, 200, false⟩]

def gallerySync : V0Answers :=
  { waits := fun _ => 0, clock := ⟨0, .ok 1800000000, 0⟩
    fast_tick := ⟨0, true, 0, 0, 0⟩, fast_repaint := ⟨0, true, 0, 0, 0⟩, fast_telem := 0
    config := .ok (⟨[⟨.copy _ (ascii "j"), .copy _ (ascii "a"), .copy _ (ascii "0 8 * * *"), 0⟩],
      by simp [EINK_MAX_JOBS]⟩, twoImages)
    primary := imageReply, tick := ⟨0, true, 0, 0, 0⟩, repaint := ⟨0, true, 0, 0, 0⟩, telem := 0
    gallery := fun _ => [] }

theorem serves_imageReply : Serves deferBuild.toBuild imageReply where
  redirects := nofun
  ret := by decide
  status := by decide
  image := ⟨.LZ4, rfl, by decide, by decide, by decide⟩

def paintAgain : List NodeEvent := [.paint 1800000010 1800000011 ⟨0, true, 0, 0, 0⟩ ⟨0, true, 0, 0, 0⟩]

end EinkNode.Http
