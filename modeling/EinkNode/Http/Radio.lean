import EinkNode.Http.Fresh
import EinkNode.Store.Valid
/-!
# The radio gate of a wake

`eink_http_radio_sync_needed` decides whether a wake switches the radio on, the
gate of the fast path whether a sync downloads. The sync asks for the image of
the current job as well, the radio gate only whether a job is newly due. Whether
the two agree is a matter of what the store has seen: no step of a run loses a
stored image, so an image that has once been stored is there when the radio
stays off.
-/
open NodeLib EinkNode.Store EinkNode.Scheduler

namespace EinkNode.Http

/-- With one reading of the clock. -/
def eink_http_radio_sync_needed (b : V0Build) (cfg : HttpConfig) (st : State) (now : Int) : FS Bool := do
  if !cfg.inited || !cfg.enabled then pure false
  else
    let last_sync ← eink_store_load_last_sync b.toBuild
    match eink_scheduler_due_image st now with
    | some _ => pure true
    | none => pure !(sync_is_fresh b now (last_sync.toOption.getD 0))

/-- `eink_store_has_valid_image` when no call fails. -/
def stored (b : Build) (files : Path → Option Bytes) (image_id : Bytes) : Bool :=
  (eink_store_has_valid_image b image_id (.calm files)).1

/-! ## Runs -/

/-- The client and the files, and the images that the run has found in the store. -/
structure Observed where
  client : Client
  files : Path → Option Bytes
  seen : List Id

/-- A sync, a work item, a paint, or a start with the job and schedule that the store has. -/
inductive NodeEvent where
  | sync (a : V0Answers)
  | telem_work (post : Int)
  | gallery_work (gallery : Nat → List Reply)
  | paint (tick_now repaint_now : Int) (tick repaint : ShowAnswers)
  | reboot (now : Int) (stored_job : Id)

section
variable (b : V0Build) (lib : Lz4Lib) (cfg : HttpConfig)

/-- What an event does to the client and the disk. -/
def node_event (c : Client) : NodeEvent → FS Client
  | .sync a => do
    let synced ← eink_http_sync_once_inner b lib cfg c a
    pure synced.client
  | .telem_work post => do
    let _ ← telem_work_handler b c.telem_job post
    pure { c with telem_job := none }
  | .gallery_work gallery => do
    gallery_work_handler b lib c.gallery_job gallery
    pure { c with gallery_job := none }
  | .paint tick_now repaint_now tick repaint => do
    let shown ← paint b.toBuild lib b.DISPLAY_FIRE_AND_FORGET c.st tick_now repaint_now tick repaint
    pure { c with st := shown.2 }
  | .reboot now stored_job => do
    let sched ← eink_store_load_schedule b.toBuild
    pure ⟨now, eink_scheduler_init now stored_job sched.toOption, none, none⟩

/-- The name under which the display expands an image is that of an image, too. -/
def scratch_id : Bytes := ascii ".paint"

/-- The images of the schedule that are in the store. -/
def scheduled_stored (st : State) (files : Path → Option Bytes) : List Id :=
  (st.sched.jobs.map (·.image_id)).filter fun image_id => stored b.toBuild files image_id.val

/-- After an event, the images of the schedule are looked up. -/
def node_step (s : Observed) (e : NodeEvent) : Observed :=
  let (client, d) := node_event b lib cfg s.client e (.calm s.files)
  ⟨client, d.files, scheduled_stored b client.st d.files ++ s.seen.filter fun image_id => image_id.val ≠ scratch_id⟩

/-- Before the first event. -/
def observe (client : Client) (files : Path → Option Bytes) : Observed :=
  ⟨client, files, scheduled_stored b client.st files⟩

/-- With the radio off, the current image is in the store, and a sync would not download it. -/
def RadioSkipSound (s : Observed) (now : Int) : Prop :=
  (eink_http_radio_sync_needed b cfg s.client.st now (.calm s.files)).1 = false →
    (∀ image_id ∈ eink_scheduler_current_image s.client.st now, stored b.toBuild s.files image_id.val = true) ∧
      (need_download b s.client.st now now (.calm s.files)).1 = false

/-- While the last sync is fresh and no job is due, the current image is one that the run has seen. -/
def CurrentSeen (s : Observed) (now : Int) : Prop :=
  sync_is_fresh b now (stamp b.toBuild s.files) = true → eink_scheduler_due_image s.client.st now = none →
    ∀ image_id ∈ eink_scheduler_current_image s.client.st now, image_id ∈ s.seen

end

/-! ## What keeps an image in the store -/

/-- A disk on which no call fails stays one, and a stored image stays stored. -/
def KeepsStored (b : Build) (image_id : Bytes) (d d' : Disk Path) : Prop :=
  Quiet d → Quiet d' ∧ (stored b d.files image_id = true → stored b d'.files image_id = true)

instance (b : Build) (image_id : Bytes) : IsPreorder (Disk Path) (KeepsStored b image_id) where
  refl _ := fun hq => ⟨hq, id⟩
  trans _ _ _ h h' := fun hq => ⟨(h' (h hq).1).1, fun hs => (h' (h hq).1).2 ((h hq).2 hs)⟩

/-- Everything but the two objects of the image. -/
def OffObjects (b : Build) (image_id : Bytes) (p : Path) : Prop :=
  p ≠ eink_store_image_path b image_id ∧ p ≠ eink_store_image_lz4_path b image_id

theorem stored_congr {b : Build} {image_id : Bytes} {files files' : Path → Option Bytes}
    (hraw : files' (eink_store_image_path b image_id) = files (eink_store_image_path b image_id))
    (hlz4 : files' (eink_store_image_lz4_path b image_id) = files (eink_store_image_lz4_path b image_id)) :
    stored b files' image_id = stored b files image_id := by
  have hagree : AgreeOn (fun p => p = eink_store_image_path b image_id ∨ p = eink_store_image_lz4_path b image_id)
      (.calm files) (.calm files') := by
    rintro p (rfl | rfl)
    · exact ⟨hraw, fun _ => rfl⟩
    · exact ⟨hlz4, fun _ => rfl⟩
  exact (sim_has_valid_image (.inl rfl) (.inr rfl) _ _ hagree).1.symm

theorem keepsStored_of_touches {b : Build} {image_id : Bytes} {α : Type} {m : FS α}
    (h : Keeps (Touches (OffObjects b image_id)) m) : Keeps (KeepsStored b image_id) m := by
  intro d hq
  refine ⟨hq.touches (h d), fun hs => ?_⟩
  rw [stored_congr ((h d).1 _ fun hoff => hoff.1 rfl) ((h d).1 _ fun hoff => hoff.2 rfl)]
  exact hs

section
variable {b : V0Build} (lib : Lz4Lib) (hroot : b.root.val.length < 216)
include hroot

theorem offObjects_file {x image_id : Id} {suffix : Bytes} (hs : suffix ∈ image_suffixes)
    (hne : x.val ≠ image_id.val ∨ suffix ≠ ascii ".es6f" ∧ suffix ≠ ascii ".es6f.lz4") :
    OffObjects b.toBuild image_id.val (image_file b.toBuild x.val suffix) := by
  rw [OffObjects, image_path_eq (fits_id hroot image_id), image_lz4_path_eq (fits_id hroot image_id)]
  rcases hne with hid | ⟨hraw, hlz4⟩
  · exact ⟨image_file_ne hs (by decide) (.inl hid), image_file_ne hs (by decide) (.inl hid)⟩
  · exact ⟨image_file_ne hs (by decide) (.inr hraw), image_file_ne hs (by decide) (.inr hlz4)⟩

variable (image_id : Id)

theorem offObjects_small (name : Bytes) (hlen : name.length ≤ 44) (h2 : 2 ≤ name.length)
    (hname : name.take 2 ≠ ascii "/i") :
    OffObjects b.toBuild image_id.val (snprintf 300 (b.root.val ++ name)) ∧
      OffObjects b.toBuild image_id.val (snprintf 300 (b.root.val ++ name) ++ ascii ".tmp") := by
  have hsmall := small_file_not_under b.toBuild name hlen h2 hname
  have hraw := underImages_image_file b.toBuild image_id.val (ascii ".es6f")
  have hlz4 := underImages_image_file b.toBuild image_id.val (ascii ".es6f.lz4")
  simp only [OffObjects, image_path_eq (fits_id hroot image_id), image_lz4_path_eq (fits_id hroot image_id)]
  exact ⟨⟨ne_of_underImages hraw hsmall.1, ne_of_underImages hlz4 hsmall.1⟩,
    ne_of_underImages hraw hsmall.2, ne_of_underImages hlz4 hsmall.2⟩

theorem keepsStored_paint (himage : image_id.val ≠ scratch_id) (ff : Bool) (st : State) (tick_now repaint_now : Int)
    (tick repaint : ShowAnswers) :
    Keeps (KeepsStored b.toBuild image_id.val) (paint b.toBuild lib ff st tick_now repaint_now tick repaint) := by
  have hstate := offObjects_small hroot image_id (ascii "/state.json") (by decide) (by decide) (by decide)
  refine keepsStored_of_touches (touches_paint lib ff ?_ hstate.1 hstate.2 _ _ _ _ _)
  rw [paint_path_eq]
  exact offObjects_file (x := .copy _ scratch_id) hroot (by decide) (.inl himage.symm)

theorem keepsStored_set_schedule (st : State) (sched : Schedule) (now : Int) :
    Keeps (KeepsStored b.toBuild image_id.val) (set_schedule_on_store b.toBuild st sched now) := by
  have hsched := offObjects_small hroot image_id (ascii "/schedule.json") (by decide) (by decide) (by decide)
  exact keepsStored_of_touches (touches_set_schedule hsched.1 hsched.2 _ _ _)

theorem keepsStored_save_last_sync (now : Int) :
    Keeps (KeepsStored b.toBuild image_id.val) (eink_store_save_last_sync b.toBuild now) := by
  have hmeta := offObjects_small hroot image_id (ascii "/sync_meta.json") (by decide) (by decide) (by decide)
  exact keepsStored_of_touches (touches_save_text hmeta.2 hmeta.1 _)

/-- A download is of an image that is not in the store, and leaves the others alone. -/
theorem keepsStored_fetch_image (x : Id) (url : CStr EINK_HTTP_URL_MAX) (replies : List Reply) :
    Keeps (KeepsStored b.toBuild image_id.val) (fetch_image_v0 b lib x url replies) := by
  by_cases hx : x = image_id
  · subst hx
    intro d hq
    have hreads := hq.eq_of_reads (touches_has_valid_image b.toBuild x.val d)
    have htouch := touches_fetch_image_v0 (b := b) lib x url replies d
    refine ⟨hq.touches htouch, fun hs => ?_⟩
    have hvalid : (eink_store_has_valid_image b.toBuild x.val d).1 = true := by
      rw [hq.eq_calm]
      exact hs
    simp only [fetch_image_v0, bind_app, hvalid, if_true, hreads, pure_app]
    exact hs
  · refine keepsStored_of_touches (keeps_bind (touches_has_valid_image _ _) fun _ => keeps_ite (keeps_pure _) ?_)
    refine keeps_bind (touches_download (filesIn_of_fits (fits_id hroot x) fun s hs => ?_) lib _ _ _ _)
      fun _ => keeps_pure _
    exact offObjects_file hroot hs (.inl fun h => hx (CStr.ext h))

theorem keepsStored_fetch_primary (due : Bytes) (images : List PlanImage) (replies : List Reply) :
    Keeps (KeepsStored b.toBuild image_id.val) (fetch_primary_v0 b lib due images replies) := by
  unfold fetch_primary_v0
  cases images.find? (·.image_id.val = due) with
  | none => exact keeps_pure _
  | some image => exact keeps_ite (keeps_pure _) (keepsStored_fetch_image lib hroot image_id _ _ _)

theorem keepsStored_cache_gallery (skip_id : Bytes) (gallery : Nat → List Reply) (i : Nat) (images : List PlanImage) :
    Keeps (KeepsStored b.toBuild image_id.val) (cache_gallery b lib skip_id gallery i images) := by
  induction images generalizing i with
  | nil => exact keeps_pure _
  | cons image images ih =>
    exact keeps_bind (keeps_ite (keeps_pure _) (keepsStored_fetch_image lib hroot image_id _ _ _)) fun _ => ih _

theorem keepsStored_gallery (job : Option GalleryJob) (due : Bytes) (images : List PlanImage)
    (gallery : Nat → List Reply) :
    Keeps (KeepsStored b.toBuild image_id.val) (gallery_v0 b lib job due images gallery) := by
  have hmissing : Keeps (KeepsStored b.toBuild image_id.val) (missing_images b due images) := by
    induction images with
    | nil => exact keeps_pure _
    | cons image images ih =>
      refine keeps_ite ih (keeps_bind (keepsStored_of_touches (touches_has_valid_image _ _)) fun _ => ?_)
      exact keeps_bind ih fun _ => keeps_pure _
  refine keeps_ite (keeps_bind (keepsStored_cache_gallery lib hroot image_id _ _ _ _) fun _ => keeps_pure _) ?_
  exact keeps_ite (keeps_pure _) (keeps_ite (keeps_pure _) (keeps_bind hmissing fun _ => keeps_pure _))

theorem keepsStored_post (job : Option Int) (now post : Int) :
    Keeps (KeepsStored b.toBuild image_id.val) (post_telemetry b job now post) := by
  refine keeps_ite (keeps_pure _) (keeps_ite ?_ (keeps_pure _))
  exact keeps_bind (keepsStored_save_last_sync hroot image_id now) fun _ => keeps_pure _

theorem keepsStored_full_sync (himage : image_id.val ≠ scratch_id) (c : Client) (a : V0Answers) (clock : Int) :
    Keeps (KeepsStored b.toBuild image_id.val) (full_sync b lib c a clock) := by
  unfold full_sync
  cases a.config with
  | error ret => exact keeps_pure _
  | ok config =>
    refine keeps_bind (keepsStored_set_schedule hroot image_id _ _ _) fun st => ?_
    refine keeps_bind (keepsStored_fetch_primary lib hroot image_id _ _ _) fun _ => ?_
    refine keeps_bind (keepsStored_paint lib hroot image_id himage _ _ _ _ _ _) fun shown => ?_
    refine keeps_bind (keepsStored_post hroot image_id _ _ _) fun posted => ?_
    exact keeps_bind (keepsStored_gallery lib hroot image_id _ _ _ _) fun _ => keeps_pure _

theorem keepsStored_telem_only (himage : image_id.val ≠ scratch_id) (c : Client) (a : V0Answers) :
    Keeps (KeepsStored b.toBuild image_id.val) (sync_telem_only b lib c a) := by
  refine keeps_bind (keepsStored_of_touches touches_load_schedule) ?_
  rintro (ret | sched)
  · exact keeps_pure _
  refine keeps_ite (keeps_pure _) (keeps_bind (keepsStored_paint lib hroot image_id himage _ _ _ _ _ _) fun shown => ?_)
  exact keeps_bind (keepsStored_post hroot image_id _ _ _) fun _ => keeps_pure _

omit hroot in
/-- The gate of the fast path only reads. -/
theorem keepsStored_gate (st : State) (now due_at current_at : Int) :
    Keeps (KeepsStored b.toBuild image_id.val) (fast_path_gate b st now due_at current_at) := by
  have hneed : Keeps (KeepsStored b.toBuild image_id.val) (need_download b st due_at current_at) := by
    unfold need_download
    cases (eink_scheduler_due_image st due_at).orElse fun _ => eink_scheduler_current_image st current_at with
    | none => exact keeps_pure _
    | some x => exact keeps_bind (keepsStored_of_touches (touches_has_valid_image _ _)) fun _ => keeps_pure _
  refine keeps_ite (keeps_pure _) (keeps_bind (keepsStored_of_touches touches_load_last_sync) fun _ => ?_)
  exact keeps_bind hneed fun _ => keeps_pure _

theorem keepsStored_sync (cfg : HttpConfig) (himage : image_id.val ≠ scratch_id) (c : Client) (a : V0Answers) :
    Keeps (KeepsStored b.toBuild image_id.val) (eink_http_sync_once_inner b lib cfg c a) := by
  have hclock : Keeps (KeepsStored b.toBuild image_id.val)
      (ensure_wall_clock b.toBuild b.SNTP (a.reading c.clock 0) a.clock) := by
    refine keepsStored_of_touches (keeps_ite (keeps_pure _) (keeps_bind touches_load_last_sync ?_))
    rintro (e | last_sync)
    · exact keeps_pure _
    · exact keeps_pure _
  refine keeps_ite (keeps_pure _)
    (keeps_bind hclock fun _ => keeps_bind (keepsStored_gate image_id _ _ _ _) fun fast => ?_)
  refine keeps_ite (keeps_bind (keepsStored_telem_only lib hroot image_id himage c a) ?_)
    (keepsStored_full_sync lib hroot image_id himage c a _)
  rintro ⟨posted, st⟩
  refine keeps_ite (keeps_pure _) (keeps_bind (keepsStored_full_sync lib hroot image_id himage _ a _) fun _ => ?_)
  exact keeps_pure _

/-- No event of a run loses a stored image. -/
theorem keepsStored_event (cfg : HttpConfig) (himage : image_id.val ≠ scratch_id) (c : Client) (e : NodeEvent) :
    Keeps (KeepsStored b.toBuild image_id.val) (node_event b lib cfg c e) := by
  cases e with
  | sync a => exact keeps_bind (keepsStored_sync lib hroot image_id cfg himage c a) fun _ => keeps_pure _
  | telem_work post =>
    refine keeps_bind ?_ fun _ => keeps_pure _
    unfold telem_work_handler
    cases c.telem_job with
    | none => exact keeps_pure _
    | some now =>
      exact keeps_ite (keeps_bind (keepsStored_save_last_sync hroot image_id now) fun _ => keeps_pure _) (keeps_pure _)
  | gallery_work gallery =>
    refine keeps_bind ?_ fun _ => keeps_pure _
    unfold gallery_work_handler
    cases c.gallery_job with
    | none => exact keeps_pure _
    | some job => exact keepsStored_cache_gallery lib hroot image_id _ _ _ _
  | paint tick_now repaint_now tick repaint =>
    exact keeps_bind (keepsStored_paint lib hroot image_id himage _ _ _ _ _ _) fun _ => keeps_pure _
  | reboot now stored_job =>
    exact keeps_bind (keepsStored_of_touches touches_load_schedule) fun _ => keeps_pure _

end

/-! ## Every run -/

/-- Every image that was seen is in the store, and every scheduled image in the store was seen. -/
structure SeenStored (b : V0Build) (s : Observed) : Prop where
  stored : ∀ x ∈ s.seen, stored b.toBuild s.files x.val = true
  seen : ∀ x ∈ scheduled_stored b s.client.st s.files, x ∈ s.seen

theorem current_image_mem {st : State} {now : Int} {x : Id} (h : eink_scheduler_current_image st now = some x) :
    ∃ j ∈ st.sched.jobs, j.image_id = x := by
  unfold eink_scheduler_current_image at h
  split at h
  · next job hjob =>
    obtain ⟨best, -, hbest⟩ := Option.bind_eq_some_iff.1 hjob
    exact ⟨job, List.mem_of_getElem? hbest, Option.some.inj h⟩
  · obtain ⟨job, hjob, rfl⟩ := Option.map_eq_some_iff.1 h
    unfold last_job_entry at hjob
    split at hjob
    · cases hjob
    · exact ⟨job, List.mem_of_find?_eq_some hjob, rfl⟩

section
variable {b : V0Build} (lib : Lz4Lib) (cfg : HttpConfig)

theorem seenStored_observe (client : Client) (files : Path → Option Bytes) : SeenStored b (observe b client files) :=
  ⟨fun _ hx => (List.mem_filter.1 hx).2, fun _ hx => hx⟩

theorem seenStored_step (hroot : b.root.val.length < 216) {s : Observed} (h : SeenStored b s) (e : NodeEvent) :
    SeenStored b (node_step b lib cfg s e) := by
  refine ⟨fun x hx => ?_, fun x hx => List.mem_append_left _ hx⟩
  rcases List.mem_append.1 hx with hx | hx
  · exact (List.mem_filter.1 hx).2
  · obtain ⟨hseen, hscratch⟩ := List.mem_filter.1 hx
    have hkeeps := keepsStored_event lib hroot x cfg (of_decide_eq_true hscratch) s.client e (.calm s.files)
    exact (hkeeps fun _ _ => rfl).2 (h.stored x hseen)

theorem radio_off_iff (hcfg : cfg.inited = true ∧ cfg.enabled = true) (st : State) (now : Int)
    (files : Path → Option Bytes) : (eink_http_radio_sync_needed b cfg st now (.calm files)).1 = false ↔
      sync_is_fresh b now (stamp b.toBuild files) = true ∧ eink_scheduler_due_image st now = none := by
  have hload : eink_store_load_last_sync b.toBuild (.calm files) = (.ok (stamp b.toBuild files), .calm files) :=
    load_last_sync_calm b.toBuild files
  simp only [eink_http_radio_sync_needed, hcfg.1, hcfg.2, Bool.not_true, Bool.or_self, Bool.false_eq_true, if_false,
    bind_app, hload, Except.toOption, Option.getD_some]
  cases eink_scheduler_due_image st now with
  | none => simp
  | some x => simp

theorem soundness_of_seen {s : Observed} {now : Int} (h : SeenStored b s)
    (hcfg : cfg.inited = true ∧ cfg.enabled = true) : RadioSkipSound b cfg s now ↔ CurrentSeen b s now := by
  rw [RadioSkipSound, radio_off_iff cfg hcfg]
  constructor
  · intro hsound hfresh hdue x hx
    obtain ⟨j, hj, rfl⟩ := current_image_mem hx
    have hstored := (hsound ⟨hfresh, hdue⟩).1 _ hx
    exact h.seen _ (List.mem_filter.2 ⟨List.mem_map_of_mem hj, hstored⟩)
  · rintro hseen ⟨hfresh, hdue⟩
    have hstored (x : Id) (hx : x ∈ eink_scheduler_current_image s.client.st now) := h.stored x (hseen hfresh hdue x hx)
    refine ⟨hstored, ?_⟩
    rw [need_download, hdue]
    cases hcur : eink_scheduler_current_image s.client.st now with
    | none => rfl
    | some x =>
      have hx : (eink_store_has_valid_image b.toBuild x.val (.calm s.files)).1 = true := hstored x hcur
      simp [hx]

/-- In every state that a run reaches, a wake without radio is sound exactly if, while the last sync is fresh and no
job is due, the image of the current job has been in the store before. -/
theorem radio_skip_sound_iff (hroot : b.root.val.length < 216) (hcfg : cfg.inited = true ∧ cfg.enabled = true)
    (client : Client) (files : Path → Option Bytes) (es : List NodeEvent) (now : Int) :
    RadioSkipSound b cfg (run (node_step b lib cfg) (observe b client files) es) now ↔
      CurrentSeen b (run (node_step b lib cfg) (observe b client files) es) now :=
  soundness_of_seen cfg (run_inv (SeenStored b) (seenStored_observe client files) fun _ e _ h =>
    seenStored_step lib cfg hroot h e) hcfg

end

/-! ## A job whose image was replaced -/

/-- The server gives job `j` with this image, whose download fails; it takes telemetry. -/
def syncWith (image : String) (wait : Nat) : NodeEvent :=
  .sync {
    waits := fun i => if i = 0 then wait else 0, clock := ⟨0, .ok 1800000000, 0⟩
    fast_tick := ⟨0, true, 0, 0, 0⟩, fast_repaint := ⟨0, true, 0, 0, 0⟩, fast_telem := 0
    config := .ok (⟨[⟨.copy _ (ascii "j"), .copy _ (ascii image), .copy _ (ascii "0 8 * * *"), 0⟩],
        by simp [EINK_MAX_JOBS]⟩,
      [⟨.copy _ (ascii image), .copy _ (ascii "http://s/x")⟩])
    primary := [], tick := ⟨0, true, 0, 0, 0⟩, repaint := ⟨0, true, 0, 0, 0⟩, telem := 0, gallery := fun _ => [] }

def startClient : Client := ⟨1800000000, .reset, none, none⟩

/-- After the events, on the store that has image `a`. -/
def afterEvents (es : List NodeEvent) : Observed :=
  run (node_step pollBuild noLz4 serverConfig) (observe pollBuild startClient olderImage) es

instance (b : V0Build) (s : Observed) (now : Int) : Decidable (CurrentSeen b s now) :=
  inferInstanceAs (Decidable (_ → _ → ∀ _ ∈ _, _))

/-- Ten seconds after the second of two syncs the radio stays off, and the image of the job is there. -/
theorem radio_skip_sound_iff_shown :
    (eink_http_radio_sync_needed pollBuild serverConfig (afterEvents [syncWith "a" 0, syncWith "a" 400]).client.st
      1800000410 (.calm (afterEvents [syncWith "a" 0, syncWith "a" 400]).files)).1 = false ∧
    RadioSkipSound pollBuild serverConfig (afterEvents [syncWith "a" 0, syncWith "a" 400]) 1800000410 :=
  ⟨by decide +kernel, (radio_skip_sound_iff noLz4 serverConfig (by decide) (by decide) startClient olderImage
    [syncWith "a" 0, syncWith "a" 400] 1800000410).2 (by decide +kernel)⟩

/-- Job `j` was shown with image `a`, then its image became `b`, which was never stored: the radio stays off. -/
theorem radio_skip_misses_image :
    ¬ ∀ (es : List NodeEvent) (now : Int), 1700000000 ≤ now →
      RadioSkipSound pollBuild serverConfig (afterEvents es) now := by
  intro h
  have hsound := h [syncWith "a" 0, syncWith "b" 400] 1800000410 (by decide) (by decide +kernel)
  have hcurrent : eink_scheduler_current_image (afterEvents [syncWith "a" 0, syncWith "b" 400]).client.st 1800000410 =
      some (.copy _ (ascii "b")) := by decide +kernel
  exact absurd (hsound.1 _ hcurrent) (by decide +kernel)

end EinkNode.Http
