import EinkNode.Http.Converge
import EinkNode.Http.SyncV0
import EinkNode.Lib.Runs
import EinkNode.Store.Names
/-!
# Telemetry without configuration

A sync takes the fast path when the saved time of the last sync is fresh. The
fast path saves its own time too, so a node that is polled often enough could
post telemetry for ever. We follow who saved the time: as long as no fast path
relies on one that a telemetry-only sync saved, the configuration is fetched in
time.
-/
open NodeLib EinkNode.Store EinkNode.Scheduler

namespace EinkNode.Http

/-! ## The saved time -/

/-- The time that is loaded when no call fails. -/
def stamp (b : Build) (files : Path → Option Bytes) : Int :=
  match files (path_sync_meta b) with
  | none => 0
  | some bs => parse_last_sync (bs.take 95)

/-- No call will fail. -/
def Quiet (d : Disk Path) : Prop := ∀ c p, d.faults c p = []

theorem Quiet.eq_calm {d : Disk Path} (h : Quiet d) : d = .calm d.files := by
  obtain ⟨files, faults⟩ := d
  have hnil : faults = fun _ _ => [] := funext fun c => funext fun p => h c p
  rw [hnil]
  rfl

theorem Quiet.touches {W : Path → Prop} {d d' : Disk Path} (h : Quiet d) (ht : Touches W d d') : Quiet d' :=
  fun c p => ht.calm (h c p)

theorem Quiet.eq_of_reads {d d' : Disk Path} (h : Quiet d) (ht : Touches (fun _ => False) d d') : d' = d := by
  have hfiles : d'.files = d.files := funext fun p => ht.1 p id
  rw [(h.touches ht).eq_calm, hfiles, ← h.eq_calm]

theorem stamp_congr {b : Build} {files files' : Path → Option Bytes}
    (h : files' (path_sync_meta b) = files (path_sync_meta b)) : stamp b files' = stamp b files := by
  rw [stamp, h, stamp]

theorem stamp_of_saved {b : Build} {t : Int} (h0 : 0 ≤ t) (h1 : t < 2 ^ 63) {files : Path → Option Bytes}
    (h : files (path_sync_meta b) = some (last_sync_text t)) : stamp b files = t := by
  simp only [stamp, h]
  exact parse_last_sync_text (by omega) h1

theorem save_last_sync_calm (b : Build) (t : Int) {d : Disk Path} (hq : Quiet d) :
    (eink_store_save_last_sync b t d).2.files (path_sync_meta b) = some (last_sync_text t) := by
  obtain ⟨files, hsave, hfile⟩ := save_text_calm (path_sync_meta b) (last_sync_text t) d.files
  rw [hq.eq_calm]
  simp only [eink_store_save_last_sync, hsave]
  exact hfile

/-! ## What leaves the saved time alone -/

section
variable {b : V0Build} (lib : Lz4Lib)

theorem filesIn_ne {b : Build} {q : Path} (hq : ¬ UnderImages b q) (image_id : Bytes) :
    FilesIn b image_id (· ≠ q) := by
  have hcut (name : Bytes) {cap : Nat} (hcap : 264 ≤ cap) :
      UnderImages b (snprintf cap (b.root.val ++ ascii "/images/" ++ name)) := underImages_snprintf b hcap name
  have hne {p : Path} (hp : UnderImages b p) : p ≠ q := Ne.symm (ne_of_underImages hp hq)
  have himage : UnderImages b (eink_store_image_path b image_id) := by
    rw [eink_store_image_path, List.append_assoc]
    exact hcut _ (by decide)
  have hlz4 : UnderImages b (eink_store_image_lz4_path b image_id) := by
    rw [eink_store_image_lz4_path, List.append_assoc]
    exact hcut _ (by decide)
  have hhash : UnderImages b (eink_store_content_hash_path b image_id) := by
    rw [eink_store_content_hash_path, List.append_assoc]
    exact hcut _ (by decide)
  constructor
  · exact hne (underImages_append himage _)
  · exact hne (underImages_append (underImages_append himage _) _)
  · exact hne (underImages_append (underImages_append himage _) _)
  · simp only [image_names, List.mem_cons, List.not_mem_nil, or_false]
    rintro p (rfl | rfl)
    · exact hne himage
    · exact hne hlz4
  · exact hne hhash
  · exact hne (underImages_append hhash _)

/-- The file of the saved time, and everything else. -/
abbrev OffMeta (b : V0Build) : Path → Prop := (· ≠ path_sync_meta b.toBuild)

theorem not_under_meta (b : Build) : ¬ UnderImages b (path_sync_meta b) :=
  (small_file_not_under b (ascii "/sync_meta.json") (by decide) (by decide) (by decide)).1

theorem touches_fetch_image_v0 (image_id : Id) (url : CStr EINK_HTTP_URL_MAX) (replies : List Reply) :
    Keeps (Touches (OffMeta b)) (fetch_image_v0 b lib image_id url replies) := by
  refine keeps_bind (touches_has_valid_image _ _) fun valid => keeps_ite (keeps_pure _) ?_
  exact keeps_bind (touches_download (filesIn_ne (not_under_meta _) _) lib _ _ _ _) fun _ => keeps_pure _

theorem touches_fetch_primary_v0 (due : Bytes) (images : List PlanImage) (replies : List Reply) :
    Keeps (Touches (OffMeta b)) (fetch_primary_v0 b lib due images replies) := by
  unfold fetch_primary_v0
  cases images.find? (·.image_id.val = due) with
  | none => exact keeps_pure _
  | some image => exact keeps_ite (keeps_pure _) (touches_fetch_image_v0 lib _ _ _)

theorem touches_cache_gallery (skip_id : Bytes) (gallery : Nat → List Reply) (i : Nat) (images : List PlanImage) :
    Keeps (Touches (OffMeta b)) (cache_gallery b lib skip_id gallery i images) := by
  induction images generalizing i with
  | nil => exact keeps_pure _
  | cons image images ih =>
    exact keeps_bind (keeps_ite (keeps_pure _) (touches_fetch_image_v0 lib _ _ _)) fun _ => ih _

theorem touches_gallery_v0 (job : Option GalleryJob) (due : Bytes) (images : List PlanImage)
    (gallery : Nat → List Reply) : Keeps (Touches (OffMeta b)) (gallery_v0 b lib job due images gallery) := by
  have hmissing : Keeps (Touches (OffMeta b)) (missing_images b due images) := by
    induction images with
    | nil => exact keeps_pure _
    | cons image images ih =>
      exact keeps_ite ih (keeps_bind (touches_has_valid_image _ _) fun _ => keeps_bind ih fun _ => keeps_pure _)
  refine keeps_ite (keeps_bind (touches_cache_gallery lib due gallery 0 images) fun _ => keeps_pure _) ?_
  refine keeps_ite (keeps_pure _) (keeps_ite (keeps_pure _) ?_)
  exact keeps_bind hmissing fun _ => keeps_pure _

theorem touches_gallery_work (job : Option GalleryJob) (gallery : Nat → List Reply) :
    Keeps (Touches (OffMeta b)) (gallery_work_handler b lib job gallery) := by
  cases job with
  | none => exact keeps_pure _
  | some job => exact touches_cache_gallery lib _ _ _ _

theorem touches_paint_meta (ff : Bool) (st : State) (tick_now repaint_now : Int) (tick repaint : ShowAnswers) :
    Keeps (Touches (OffMeta b)) (paint b.toBuild lib ff st tick_now repaint_now tick repaint) := by
  have hpaint : UnderImages b.toBuild (paint_path b.toBuild) := by
    have hsplit : ascii "/images/.paint.es6f" = ascii "/images/" ++ ascii ".paint.es6f" := by decide
    rw [paint_path, hsplit, ← List.append_assoc]
    exact underImages_snprintf b.toBuild (by decide) _
  have hstate := small_file_ne b.toBuild (ascii "/state.json") (ascii "/sync_meta.json") (by decide) (by decide)
    (by decide) (by decide)
  have hscratch : paint_path b.toBuild ≠ path_sync_meta b.toBuild :=
    Ne.symm (ne_of_underImages hpaint (not_under_meta _))
  exact touches_paint (W := OffMeta b) lib ff hscratch hstate.1 hstate.2 _ _ _ _ _

theorem touches_set_schedule_meta (st : State) (sched : Schedule) (now : Int) :
    Keeps (Touches (OffMeta b)) (set_schedule_on_store b.toBuild st sched now) := by
  have hsched := small_file_ne b.toBuild (ascii "/schedule.json") (ascii "/sync_meta.json") (by decide) (by decide)
    (by decide) (by decide)
  exact touches_set_schedule (W := OffMeta b) hsched.1 hsched.2 _ _ _

end

/-! ## One sync -/

theorem reading_mono (a : V0Answers) (clock : Int) {i j : Nat} (h : i ≤ j) : a.reading clock i ≤ a.reading clock j := by
  induction j with
  | zero =>
    obtain rfl : i = 0 := by omega
    exact Int.le_refl _
  | succ j ih =>
    rcases Nat.lt_or_eq_of_le h with hlt | rfl
    · have := ih (by omega)
      simp only [V0Answers.reading]
      omega
    · exact Int.le_refl _

theorem clock_le_reading (a : V0Answers) (clock : Int) (i : Nat) : clock ≤ a.reading clock i := by
  have h0 : clock ≤ a.reading clock 0 := by
    simp only [V0Answers.reading]
    omega
  exact Int.le_trans h0 (reading_mono a clock (Nat.zero_le i))

section
variable (b : V0Build)

/-- What posting leaves: the time is saved, or the job pending, or nothing has changed. -/
structure Posted (job : Option Int) (now : Int) (d : Disk Path) (t : Telemetry) (d' : Disk Path) : Prop where
  quiet : Quiet d'
  stamped : ∀ x ∈ t.stamped, x = now ∧ d'.files (path_sync_meta b.toBuild) = some (last_sync_text now)
  unstamped : t.stamped = none → d'.files (path_sync_meta b.toBuild) = d.files (path_sync_meta b.toBuild)
  pending : t.job = job ∨ job = none ∧ t.job = some now
  failed : t.ret ≠ 0 → t.stamped = none ∧ t.job = job

/-- Everything before the post leaves the saved time alone. -/
theorem Posted.after {job : Option Int} {now : Int} {d d1 d' : Disk Path} {t : Telemetry}
    (ht : Touches (OffMeta b) d d1) (h : Posted b job now d1 t d') : Posted b job now d t d' where
  quiet := h.quiet
  stamped := h.stamped
  unstamped hn := (h.unstamped hn).trans (ht.1 _ (not_not.2 rfl))
  pending := h.pending
  failed := h.failed

variable {b}

theorem posted_unchanged {job : Option Int} {now ret : Int} {d d' : Disk Path} (hq : Quiet d)
    (ht : Touches (OffMeta b) d d') : Posted b job now d ⟨ret, job, none⟩ d' where
  quiet := hq.touches ht
  stamped := nofun
  unstamped _ := ht.1 _ (not_not.2 rfl)
  pending := .inl rfl
  failed _ := ⟨rfl, rfl⟩

theorem post_telemetry_spec (job : Option Int) (now post : Int) {d : Disk Path} (hq : Quiet d) :
    Posted b job now d (post_telemetry b job now post d).1 (post_telemetry b job now post d).2 := by
  unfold post_telemetry
  by_cases hdefer : b.HTTP_TELEMETRY_DEFER = true
  · rw [if_pos hdefer, pure_app]
    cases job with
    | some x => exact posted_unchanged hq (refl_of _ d)
    | none => exact ⟨hq, nofun, fun _ => rfl, .inr ⟨rfl, rfl⟩, fun h => absurd rfl h⟩
  · rw [if_neg hdefer]
    by_cases hpost : post = 0
    · rw [if_pos hpost, bind_app, pure_app]
      have hsave := save_last_sync_calm b.toBuild now hq
      have htouch : Touches (fun _ => True) d (eink_store_save_last_sync b.toBuild now d).2 :=
        touches_save_text trivial trivial _ d
      refine ⟨hq.touches htouch, ?_, nofun, .inl rfl, fun h => absurd hpost h⟩
      rintro x ⟨⟩
      exact ⟨rfl, hsave⟩
    · rw [if_neg hpost, pure_app]
      exact posted_unchanged hq (refl_of _ d)

theorem sync_telem_only_spec (lib : Lz4Lib) (c : Client) (a : V0Answers) {d : Disk Path} (hq : Quiet d) :
    Posted b c.telem_job (a.reading c.clock 4) d (sync_telem_only b lib c a d).1.1 (sync_telem_only b lib c a d).2 := by
  have hload := touches_load_schedule (b := b.toBuild) (W := OffMeta b) d
  unfold sync_telem_only
  simp only [bind_app]
  generalize eink_store_load_schedule b.toBuild d = loaded at hload ⊢
  obtain ⟨r, d1⟩ := loaded
  cases r with
  | error ret => exact posted_unchanged hq hload
  | ok sched =>
    dsimp only
    by_cases hjobs : sched.jobs = []
    · rw [if_pos hjobs]
      exact posted_unchanged hq hload
    · rw [if_neg hjobs]
      simp only [bind_app, pure_app]
      have hpaint := touches_paint_meta (b := b) lib b.DISPLAY_FIRE_AND_FORGET c.st (a.reading c.clock 5)
        (a.reading c.clock 6) a.fast_tick a.fast_repaint d1
      have htouch := trans_of (Touches (OffMeta b)) hload hpaint
      exact (post_telemetry_spec _ _ _ (hq.touches htouch)).after b htouch

/-- What one sync does to the saved time and the pending job, by its record `o`. -/
structure SyncSpec (b : V0Build) (c : Client) (d : Disk Path) (o : Synced) (d' : Disk Path) : Prop where
  quiet : Quiet d'
  clock : c.clock ≤ o.client.clock
  fetched : ∀ t ∈ o.fetched, c.clock ≤ t ∧ t ≤ o.client.clock
  stamped : ∀ t ∈ o.stamped, (c.clock ≤ t ∧ t ≤ o.client.clock) ∧ (∀ t' ∈ o.fetched, t' = t) ∧
    d'.files (path_sync_meta b.toBuild) = some (last_sync_text t)
  unstamped : o.stamped = none → d'.files (path_sync_meta b.toBuild) = d.files (path_sync_meta b.toBuild)
  pending : o.client.telem_job = c.telem_job ∨ c.telem_job = none ∧ ∃ t, o.client.telem_job = some t ∧
    (c.clock ≤ t ∧ t ≤ o.client.clock) ∧ ∀ t' ∈ o.fetched, t' = t

theorem full_sync_spec (lib : Lz4Lib) (c : Client) (a : V0Answers) {d : Disk Path} (hq : Quiet d) :
    SyncSpec b c d (full_sync b lib c a c.clock d).1 (full_sync b lib c a c.clock d).2 := by
  have hend := clock_le_reading a c.clock 11
  unfold full_sync
  cases a.config with
  | error ret => exact ⟨hq, hend, nofun, nofun, fun _ => rfl, .inl rfl⟩
  | ok config =>
    obtain ⟨sched, images⟩ := config
    have h7 := clock_le_reading a c.clock 7
    have h11 := reading_mono a c.clock (i := 7) (j := 11) (by decide)
    have hrange : c.clock ≤ a.reading c.clock 7 ∧ a.reading c.clock 7 ≤ a.reading c.clock 11 := ⟨h7, h11⟩
    simp only [bind_app, pure_app]
    -- The schedule, the image for the panel and the paint come before the post, the gallery after it.
    have hset := touches_set_schedule_meta (b := b) c.st sched (a.reading c.clock 7) d
    generalize set_schedule_on_store b.toBuild c.st sched (a.reading c.clock 7) d = set at hset ⊢
    obtain ⟨st, d1⟩ := set
    have hprimary := touches_fetch_primary_v0 (b := b) lib
      (image_to_show st (a.reading c.clock 8) (a.reading c.clock 9)) images a.primary d1
    generalize (fetch_primary_v0 b lib (image_to_show st (a.reading c.clock 8) (a.reading c.clock 9)) images
      a.primary d1).2 = d2 at hprimary ⊢
    have hpaint := touches_paint_meta (b := b) lib b.DISPLAY_FIRE_AND_FORGET st (a.reading c.clock 10)
      (a.reading c.clock 11) a.tick a.repaint d2
    generalize paint b.toBuild lib b.DISPLAY_FIRE_AND_FORGET st (a.reading c.clock 10) (a.reading c.clock 11) a.tick
      a.repaint d2 = painted at hpaint ⊢
    obtain ⟨shown, d3⟩ := painted
    have hbefore := trans_of (Touches (OffMeta b)) (trans_of (Touches (OffMeta b)) hset hprimary) hpaint
    have hpost := (post_telemetry_spec (b := b) c.telem_job (a.reading c.clock 7) a.telem (hq.touches hbefore)).after b
      hbefore
    generalize post_telemetry b c.telem_job (a.reading c.clock 7) a.telem d3 = posted at hpost ⊢
    obtain ⟨t, d4⟩ := posted
    have hgallery := touches_gallery_v0 (b := b) lib c.gallery_job
      (image_to_show st (a.reading c.clock 8) (a.reading c.clock 9)) images a.gallery d4
    have hmeta := hgallery.1 (path_sync_meta b.toBuild) (not_not.2 rfl)
    refine ⟨hpost.quiet.touches hgallery, hend, ?_, ?_, fun hn => hmeta.trans (hpost.unstamped hn), ?_⟩
    · rintro x ⟨⟩
      exact hrange
    · intro x hx
      obtain ⟨rfl, hfile⟩ := hpost.stamped x hx
      refine ⟨hrange, ?_, hmeta.trans hfile⟩
      rintro y ⟨⟩
      rfl
    · rcases hpost.pending with h | ⟨hn, h⟩
      · exact .inl h
      · refine .inr ⟨hn, _, h, hrange, ?_⟩
        rintro y ⟨⟩
        rfl

/-- The record of a full sync never says that it took the fast path. -/
theorem full_sync_fast (lib : Lz4Lib) (c : Client) (a : V0Answers) (clock : Int) (d : Disk Path) :
    (full_sync b lib c a clock d).1.fast = false := by
  unfold full_sync
  cases a.config with
  | error ret => rfl
  | ok config => rfl

theorem touches_ensure_wall_clock (sntp : Bool) (now : Int) (a : ClockAnswers) :
    Keeps (Touches fun _ => False) (ensure_wall_clock b.toBuild sntp now a) := by
  refine keeps_ite (keeps_pure _) (keeps_bind touches_load_last_sync ?_)
  rintro (e | last_sync)
  · exact keeps_pure _
  · exact keeps_pure _

/-- The gate looks at the saved time. -/
theorem fast_path_gate_spec (st : State) (now due_at current_at : Int) {d : Disk Path} (hq : Quiet d) :
    (fast_path_gate b st now due_at current_at d).2 = d ∧
      ((fast_path_gate b st now due_at current_at d).1 = true →
        sync_is_fresh b now (stamp b.toBuild d.files) = true) := by
  have hneed : Touches (fun _ => False) d (need_download b st due_at current_at d).2 := by
    unfold need_download
    cases (eink_scheduler_due_image st due_at).orElse fun _ => eink_scheduler_current_image st current_at with
    | none => exact refl_of _ d
    | some image_id => exact touches_has_valid_image b.toBuild image_id.val d
  unfold fast_path_gate
  by_cases hfast : b.HTTP_FAST_PATH = true
  · have hload := load_last_sync_calm b.toBuild d.files
    rw [← hq.eq_calm] at hload
    simp only [hfast, Bool.not_true, Bool.false_eq_true, if_false, bind_app, hload, pure_app]
    refine ⟨hq.eq_of_reads hneed, fun h => ?_⟩
    exact (Bool.and_eq_true_iff.1 h).1
  · simp only [hfast, Bool.not_false, if_true, pure_app]
    exact ⟨trivial, nofun⟩

variable (b) (lib : Lz4Lib) (cfg : HttpConfig)

/-- The sync of client `c` will try the fast path. -/
def tries_fast_path (c : Client) (a : V0Answers) (d : Disk Path) : Bool :=
  cfg.inited && cfg.enabled &&
    (fast_path_gate b c.st (a.reading c.clock 1) (a.reading c.clock 2) (a.reading c.clock 3) d).1

variable {b}

theorem fresh_of_tries_fast_path {c : Client} {a : V0Answers} {d : Disk Path} (hq : Quiet d)
    (h : tries_fast_path b cfg c a d = true) :
    sync_is_fresh b (a.reading c.clock 1) (stamp b.toBuild d.files) = true := by
  obtain ⟨-, hgate⟩ := Bool.and_eq_true_iff.1 h
  exact (fast_path_gate_spec c.st _ _ _ hq).2 hgate

theorem sync_spec (c : Client) (a : V0Answers) {d : Disk Path} (hq : Quiet d) :
    SyncSpec b c d (eink_http_sync_once_inner b lib cfg c a d).1 (eink_http_sync_once_inner b lib cfg c a d).2 ∧
      (eink_http_sync_once_inner b lib cfg c a d).1.fast = tries_fast_path b cfg c a d := by
  unfold eink_http_sync_once_inner tries_fast_path
  by_cases hoff : (!cfg.inited || !cfg.enabled) = true
  · have hcfg : (cfg.inited && cfg.enabled) = false := by rw [← Bool.not_and, Bool.not_eq_true'] at hoff; exact hoff
    rw [if_pos hoff, pure_app, hcfg, Bool.false_and]
    exact ⟨⟨hq, Int.le_refl _, nofun, nofun, fun _ => rfl, .inl rfl⟩, rfl⟩
  have hcfg : (cfg.inited && cfg.enabled) = true := by
    rw [← Bool.not_and, Bool.not_eq_true', Bool.not_eq_false] at hoff
    exact hoff
  rw [if_neg hoff, hcfg, Bool.true_and]
  simp only [bind_app]
  rw [hq.eq_of_reads (touches_ensure_wall_clock (b := b) b.SNTP (a.reading c.clock 0) a.clock d)]
  obtain ⟨hgate, -⟩ := fast_path_gate_spec (b := b) c.st (a.reading c.clock 1) (a.reading c.clock 2)
    (a.reading c.clock 3) hq
  generalize fast_path_gate b c.st (a.reading c.clock 1) (a.reading c.clock 2) (a.reading c.clock 3) d = gate
    at hgate ⊢
  obtain ⟨fast, d'⟩ := gate
  obtain rfl : d' = d := hgate
  cases fast with
  | false => exact ⟨full_sync_spec (b := b) lib c a hq, full_sync_fast (b := b) lib c a c.clock d'⟩
  | true =>
    have htelem := sync_telem_only_spec (b := b) lib c a hq
    simp only [if_true, bind_app]
    generalize sync_telem_only b lib c a d' = telem at htelem ⊢
    obtain ⟨⟨posted, st⟩, d3⟩ := telem
    dsimp only at htelem ⊢
    by_cases hret : posted.ret = 0
    · have hrange : c.clock ≤ a.reading c.clock 4 ∧ a.reading c.clock 4 ≤ a.reading c.clock 11 :=
        ⟨clock_le_reading a c.clock 4, reading_mono a c.clock (by decide)⟩
      rw [if_pos hret, pure_app]
      refine ⟨⟨htelem.quiet, clock_le_reading a c.clock 11, nofun, ?_, htelem.unstamped, ?_⟩, rfl⟩
      · intro x hx
        obtain ⟨rfl, hfile⟩ := htelem.stamped x hx
        exact ⟨hrange, nofun, hfile⟩
      · rcases htelem.pending with h | ⟨hn, h⟩
        · exact .inl h
        · exact .inr ⟨hn, _, h, hrange, nofun⟩
    · -- The fast path failed: nothing was saved, and a full sync follows.
      rw [if_neg hret, bind_app, pure_app]
      have hfull := full_sync_spec (b := b) lib { c with st := st } a htelem.quiet
      obtain ⟨hq', hc', hf', hs', hu', hp'⟩ := hfull
      have hsame := htelem.unstamped (htelem.failed hret).1
      exact ⟨⟨hq', hc', hf', hs', fun hn => (hu' hn).trans hsame, hp'⟩, rfl⟩

end

/-! ## Runs -/

/-- The client and the files, with the history that the claim is about: the
times at which a configuration was fetched, and whether a full sync is the
origin of the saved time and of the time in the pending job. -/
structure Tracked where
  client : Client
  files : Path → Option Bytes
  fetches : List Int
  stamp_by_full : Bool
  job_by_full : Bool

/-- A sync, or one of the two work items. -/
inductive PollEvent where
  | sync (a : V0Answers)
  | telem_work (post : Int)
  | gallery_work (gallery : Nat → List Reply)

section
variable (b : V0Build) (lib : Lz4Lib) (cfg : HttpConfig)

/-- One sync of the run, on a disk where no call fails. -/
def sync_at (s : Tracked) (a : V0Answers) : Synced × Disk Path :=
  eink_http_sync_once_inner b lib cfg s.client a (.calm s.files)

/-- One event of the run. -/
def poll (s : Tracked) : PollEvent → Tracked
  | .sync a =>
    let (o, d) := sync_at b lib cfg s a
    { client := o.client, files := d.files, fetches := o.fetched.toList ++ s.fetches
      stamp_by_full := if o.stamped.isSome then o.fetched.isSome else s.stamp_by_full
      job_by_full := if s.client.telem_job.isSome then s.job_by_full else o.fetched.isSome }
  | .telem_work post =>
    let (saved, d) := telem_work_handler b s.client.telem_job post (.calm s.files)
    { s with
      client := { s.client with telem_job := none }, files := d.files
      stamp_by_full := if saved.isSome then s.job_by_full else s.stamp_by_full }
  | .gallery_work gallery =>
    let (_, d) := gallery_work_handler b lib s.client.gallery_job gallery (.calm s.files)
    { s with client := { s.client with gallery_job := none }, files := d.files }

/-- The clock of a correct node, once set, with the saved time, if any, that
the last full sync of before has left. -/
structure Started (s : Tracked) : Prop where
  clock : 1700000000 ≤ s.client.clock
  past : stamp b.toBuild s.files ≤ s.client.clock
  fetches : s.fetches = if 0 < stamp b.toBuild s.files then [stamp b.toBuild s.files] else []
  idle : s.client.telem_job = none

/-- The clock fits 64 bits. -/
def ClockFits (s : Tracked) (e : PollEvent) : Prop := (poll b lib cfg s e).client.clock < 2 ^ 63

/-- A sync that will try the fast path relies on the time of a full sync. -/
def ReliesOnFull (s : Tracked) : PollEvent → Prop
  | .sync a => tries_fast_path b cfg s.client a (.calm s.files) = true → s.stamp_by_full = true
  | _ => True

/-- A sync that takes the fast path has a configuration younger than the maximum age. -/
def FetchedInTime (s : Tracked) : PollEvent → Prop
  | .sync a => (sync_at b lib cfg s a).1.fast = true → ∃ t ∈ s.fetches,
      t ≤ a.reading s.client.clock 1 ∧ a.reading s.client.clock 1 - t < b.HTTP_SYNC_MAX_AGE_SEC
  | _ => True

/-- Times lie in the past, and those of full syncs are times of a fetch. -/
structure TracksFetches (s : Tracked) : Prop where
  clock : 1700000000 ≤ s.client.clock
  fetches : ∀ t ∈ s.fetches, t ≤ s.client.clock
  stamp_full : s.stamp_by_full = true → 0 < stamp b.toBuild s.files → stamp b.toBuild s.files ∈ s.fetches
  job : ∀ t ∈ s.client.telem_job, 0 ≤ t ∧ t ≤ s.client.clock
  job_full : ∀ t ∈ s.client.telem_job, s.job_by_full = true → t ∈ s.fetches

variable {b lib cfg}

theorem inv_of_started {s : Tracked} (h : Started b s) : TracksFetches b s where
  clock := h.clock
  fetches := by
    rw [h.fetches]
    intro t ht
    split at ht
    · rw [List.mem_singleton.1 ht]
      exact h.past
    · cases ht
  stamp_full _ hpos := by
    rw [h.fetches, if_pos hpos]
    exact List.mem_singleton.2 rfl
  job := by simp [h.idle]
  job_full := by simp [h.idle]

theorem inv_sync {s : Tracked} (a : V0Answers) (hfit : ClockFits b lib cfg s (.sync a)) (h : TracksFetches b s) :
    TracksFetches b (poll b lib cfg s (.sync a)) := by
  obtain ⟨hspec, -⟩ := sync_spec lib cfg s.client a (d := .calm s.files) fun _ _ => rfl
  have hclock := h.clock
  have hspec' : SyncSpec b s.client (.calm s.files) (sync_at b lib cfg s a).1 (sync_at b lib cfg s a).2 := hspec
  unfold ClockFits at hfit
  simp only [poll] at hfit ⊢
  generalize sync_at b lib cfg s a = r at hspec' hfit ⊢
  obtain ⟨o, d⟩ := r
  dsimp only at hspec' hfit ⊢
  have hmem (t : Int) (ht : t ∈ o.fetched) : t ∈ o.fetched.toList ++ s.fetches := by
    rw [Option.mem_def] at ht
    simp [ht]
  refine ⟨Int.le_trans hclock hspec'.clock, ?_, ?_, ?_, ?_⟩
  · intro t ht
    rcases List.mem_append.1 ht with ht | ht
    · exact (hspec'.fetched t (Option.mem_toList.1 ht)).2
    · exact Int.le_trans (h.fetches t ht) hspec'.clock
  · intro hfull hpos
    cases hst : o.stamped with
    | none =>
      simp only [hst, Option.isSome_none, Bool.false_eq_true, if_false] at hfull
      have hsame : stamp b.toBuild d.files = stamp b.toBuild s.files := stamp_congr (hspec'.unstamped hst)
      dsimp only at hpos
      rw [hsame] at hpos ⊢
      exact List.mem_append_right _ (h.stamp_full hfull hpos)
    | some t =>
      obtain ⟨hrange, heq, hfile⟩ := hspec'.stamped t hst
      rw [stamp_of_saved (by omega) (by omega) hfile]
      simp only [hst, Option.isSome_some, if_true] at hfull
      obtain ⟨t', ht'⟩ := Option.isSome_iff_exists.1 hfull
      exact hmem t (heq t' ht' ▸ ht')
  · intro t ht
    rcases hspec'.pending with hp | ⟨hn, x, hx, hrange, -⟩
    · obtain ⟨h0, hle⟩ := h.job t (hp ▸ ht)
      exact ⟨h0, Int.le_trans hle hspec'.clock⟩
    · obtain rfl : x = t := Option.some.inj (hx.symm.trans ht)
      exact ⟨by omega, hrange.2⟩
  · intro t ht hfull
    rcases hspec'.pending with hp | ⟨hn, x, hx, -, heq⟩
    · have hs : t ∈ s.client.telem_job := hp ▸ ht
      rw [Option.mem_def] at hs
      simp only [hs, Option.isSome_some, if_true] at hfull
      exact List.mem_append_right _ (h.job_full t hs hfull)
    · obtain rfl : x = t := Option.some.inj (hx.symm.trans ht)
      simp only [hn, Option.isSome_none, Bool.false_eq_true, if_false] at hfull
      obtain ⟨t', ht'⟩ := Option.isSome_iff_exists.1 hfull
      exact hmem x (heq t' ht' ▸ ht')

theorem inv_telem_work {s : Tracked} (post : Int) (hfit : ClockFits b lib cfg s (.telem_work post))
    (h : TracksFetches b s) :
    TracksFetches b (poll b lib cfg s (.telem_work post)) := by
  refine ⟨h.clock, h.fetches, ?_, nofun, nofun⟩
  have hclock : s.client.clock < 2 ^ 63 := hfit
  simp only [poll]
  unfold telem_work_handler
  cases hj : s.client.telem_job with
  | none => exact h.stamp_full
  | some now =>
    obtain ⟨h0, hle⟩ := h.job now hj
    by_cases hpost : post = 0
    · simp only [hpost, if_true, bind_app, pure_app, Option.isSome_some]
      have hfile := save_last_sync_calm b.toBuild now (d := .calm s.files) fun _ _ => rfl
      rw [stamp_of_saved h0 (by omega) hfile]
      exact fun hfull _ => h.job_full now hj hfull
    · simp only [hpost, if_false, pure_app, Option.isSome_none, Bool.false_eq_true]
      exact h.stamp_full

theorem inv_gallery_work {s : Tracked} (gallery : Nat → List Reply) (h : TracksFetches b s) :
    TracksFetches b (poll b lib cfg s (.gallery_work gallery)) := by
  have htouch := touches_gallery_work (b := b) lib s.client.gallery_job gallery (.calm s.files)
  have hsame : stamp b.toBuild (poll b lib cfg s (.gallery_work gallery)).files = stamp b.toBuild s.files :=
    stamp_congr (htouch.1 _ (not_not.2 rfl))
  refine ⟨h.clock, h.fetches, fun hfull hpos => ?_, h.job, h.job_full⟩
  rw [hsame] at hpos ⊢
  exact h.stamp_full hfull hpos

theorem inv_poll {s : Tracked} {e : PollEvent} (hfit : ClockFits b lib cfg s e) (h : TracksFetches b s) :
    TracksFetches b (poll b lib cfg s e) := by
  cases e with
  | sync a => exact inv_sync a hfit h
  | telem_work post => exact inv_telem_work post hfit h
  | gallery_work gallery => exact inv_gallery_work gallery h

theorem fetchedInTime_of_inv {s : Tracked} {e : PollEvent} (hrel : ReliesOnFull b cfg s e) (h : TracksFetches b s) :
    FetchedInTime b lib cfg s e := by
  cases e with
  | sync a =>
    intro hfast
    obtain ⟨-, htries⟩ := sync_spec (b := b) lib cfg s.client a (d := .calm s.files) fun _ _ => rfl
    have htry := htries.symm.trans hfast
    have hage := fresh_of_tries_fast_path (b := b) cfg (d := .calm s.files) (fun _ _ => rfl) htry
    have hnow := clock_le_reading a s.client.clock 1
    unfold sync_is_fresh at hage
    split at hage
    · cases hage
    · rename_i hset
      rw [not_or] at hset
      have hmem := h.stamp_full (hrel htry) (Int.not_le.1 hset.2)
      exact ⟨_, hmem, Int.le_trans (h.fetches _ hmem) hnow, of_decide_eq_true hage⟩
  | telem_work post => trivial
  | gallery_work gallery => trivial

/-- In every run in which no fast path relies on the time of a telemetry-only
sync, every fast path has a configuration younger than the maximum age. -/
theorem fast_path_fetched_in_time {s : Tracked} {es : List PollEvent} (h0 : Started b s)
    (hfit : Meets (poll b lib cfg) (ClockFits b lib cfg) s es)
    (hrel : Meets (poll b lib cfg) (ReliesOnFull b cfg) s es) :
    Meets (poll b lib cfg) (FetchedInTime b lib cfg) s es :=
  meets_of_inv (TracksFetches b) (inv_of_started h0) (hfit.and hrel) (fun _ _ hc h => inv_poll hc.1 h)
    fun _ _ hc h => fetchedInTime_of_inv hc.2 h

end

instance (b : V0Build) (lib : Lz4Lib) (cfg : HttpConfig) (s : Tracked) (e : PollEvent) :
    Decidable (ClockFits b lib cfg s e) :=
  inferInstanceAs (Decidable ((poll b lib cfg s e).client.clock < 2 ^ 63))

instance (b : V0Build) (cfg : HttpConfig) (s : Tracked) : ∀ e, Decidable (ReliesOnFull b cfg s e)
  | .sync _ => inferInstanceAs (Decidable (_ → _))
  | .telem_work _ => inferInstanceAs (Decidable True)
  | .gallery_work _ => inferInstanceAs (Decidable True)

instance (b : V0Build) (lib : Lz4Lib) (cfg : HttpConfig) (s : Tracked) : ∀ e, Decidable (FetchedInTime b lib cfg s e)
  | .sync _ => inferInstanceAs (Decidable (_ → ∃ t ∈ s.fetches, _))
  | .telem_work _ => inferInstanceAs (Decidable True)
  | .gallery_work _ => inferInstanceAs (Decidable True)

/-! ## A node that is polled often -/

/-- A configuration older than five minutes is fetched again. -/
def pollBuild : V0Build :=
  { galleryBuild with
    HTTP_FAST_PATH := true, HTTP_SYNC_MAX_AGE_SEC := 300, HTTP_TELEMETRY_DEFER := false, HTTP_GALLERY_DEFER := false }

/-- One job, whose image is in the store. -/
def pollConfig : Schedule × List PlanImage :=
  (⟨[⟨.copy _ (ascii "j"), .copy _ (ascii "a"), .copy _ (ascii "0 8 * * *"), 0⟩], by decide⟩, [])

/-- After `wait` seconds: the server gives the configuration and takes telemetry. -/
def pollAfter (wait : Nat) : PollEvent :=
  .sync {
    waits := fun i => if i = 0 then wait else 0, clock := ⟨0, .ok 1800000000, 0⟩
    fast_tick := ⟨0, true, 0, 0, 0⟩, fast_repaint := ⟨0, true, 0, 0, 0⟩, fast_telem := 0, config := .ok pollConfig
    primary := [], tick := ⟨0, true, 0, 0, 0⟩, repaint := ⟨0, true, 0, 0, 0⟩, telem := 0, gallery := fun _ => [] }

def pollStart : Tracked := ⟨⟨1800000000, .reset, none, none⟩, olderImage, [], true, true⟩

theorem started_pollStart : Started pollBuild pollStart :=
  ⟨by decide, by decide +kernel, by decide +kernel, rfl⟩

/-- A full sync comes between the two that take the fast path. -/
theorem fast_path_fetched_in_time_slow :
    Meets (poll pollBuild noLz4 serverConfig) (FetchedInTime pollBuild noLz4 serverConfig) pollStart
      [pollAfter 0, pollAfter 240, pollAfter 400, pollAfter 240] :=
  fast_path_fetched_in_time started_pollStart (by decide +kernel) (by decide +kernel)

/-- Polled every 200 seconds: the third sync takes the fast path 400 seconds after the last configuration. -/
theorem fast_path_starves :
    Started pollBuild pollStart ∧
      Meets (poll pollBuild noLz4 serverConfig) (ClockFits pollBuild noLz4 serverConfig) pollStart
        [pollAfter 0, pollAfter 200, pollAfter 200] ∧
      ¬ Meets (poll pollBuild noLz4 serverConfig) (FetchedInTime pollBuild noLz4 serverConfig) pollStart
        [pollAfter 0, pollAfter 200, pollAfter 200] :=
  ⟨started_pollStart, by decide +kernel, by decide +kernel⟩

end EinkNode.Http
