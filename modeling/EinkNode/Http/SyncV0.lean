import EinkNode.Http.SyncV2
/-!
# The v0 sync

`eink_http_sync_once_inner` of `eink_http.c` without the v2 dispatch: while the
last sync is fresh and no image is missing, a sync only posts telemetry; any
other sync fetches the configuration. Telemetry and the gallery may be left to
work items that run later.
-/
open NodeLib EinkNode.Store EinkNode.Scheduler

namespace EinkNode.Http

structure V0Build extends SyncBuild where
  HTTP_FAST_PATH : Bool
  HTTP_SYNC_MAX_AGE_SEC : Nat
  HTTP_TELEMETRY_DEFER : Bool
  HTTP_GALLERY_DEFER : Bool

/-- The images of `gallery_job` and its `skip_id`. -/
structure GalleryJob where
  images : List PlanImage
  skip_id : Bytes
deriving DecidableEq

/-- What lives between syncs: the last reading of the clock, the scheduler, the
time that a pending `telem_job` will save, and the pending `gallery_job`. -/
structure Client where
  clock : Int
  st : State
  telem_job : Option Int
  gallery_job : Option GalleryJob
deriving DecidableEq

/-- What one sync is answered. `waits i` seconds pass before its reading `i` of the clock. -/
structure V0Answers where
  waits : Nat → Nat
  clock : ClockAnswers
  fast_tick : ShowAnswers
  fast_repaint : ShowAnswers
  fast_telem : Int
  config : Except Int (Schedule × List PlanImage)
  primary : List Reply
  tick : ShowAnswers
  repaint : ShowAnswers
  telem : Int
  gallery : Nat → List Reply

/-- The clock, which never goes back. -/
def V0Answers.reading (a : V0Answers) (clock : Int) : Nat → Int
  | 0 => clock + a.waits 0
  | i + 1 => a.reading clock i + a.waits (i + 1)

/-- What a sync did: its result, and the times at which it had fetched the
configuration and that it saved as its own. -/
structure Synced where
  ret : Int
  client : Client
  fast : Bool
  fetched : Option Int
  stamped : Option Int
deriving DecidableEq

variable (b : V0Build) (lib : Lz4Lib) (cfg : HttpConfig)

/-! ## Telemetry -/

/-- The result of posting or queueing, the pending job, and the time that was saved. -/
structure Telemetry where
  ret : Int
  job : Option Int
  stamped : Option Int

/-- A job that is pending makes the post happen inline. -/
def queue_deferred_telem (job : Option Int) (now post : Int) : Telemetry :=
  match job with
  | some _ => ⟨post, job, none⟩
  | none => ⟨0, some now, none⟩

/-- Post telemetry and save the time, or leave both to the work item. -/
def post_telemetry (job : Option Int) (now post : Int) : FS Telemetry := do
  if b.HTTP_TELEMETRY_DEFER then pure (queue_deferred_telem job now post)
  else if post = 0 then
    let _ ← eink_store_save_last_sync b.toBuild now
    pure ⟨post, job, some now⟩
  else pure ⟨post, job, none⟩

/-- The result is the time that was saved. -/
def telem_work_handler (job : Option Int) (post : Int) : FS (Option Int) := do
  match job with
  | none => pure none
  | some now =>
    if post = 0 then
      let _ ← eink_store_save_last_sync b.toBuild now
      pure (some now)
    else pure none

/-! ## The fast path -/

def sync_is_fresh (now last_sync : Int) : Bool :=
  if now < 1700000000 ∨ last_sync ≤ 0 then false else now - last_sync < b.HTTP_SYNC_MAX_AGE_SEC

/-- The image for the panel is missing. -/
def need_download (st : State) (due_at current_at : Int) : FS Bool := do
  match (eink_scheduler_due_image st due_at).orElse fun _ => eink_scheduler_current_image st current_at with
  | none => pure false
  | some image_id =>
    let valid ← eink_store_has_valid_image b.toBuild image_id.val
    pure !valid

/-- The sync may take the fast path. A time that cannot be loaded counts as none. -/
def fast_path_gate (st : State) (now due_at current_at : Int) : FS Bool := do
  if !b.HTTP_FAST_PATH then pure false
  else
    let last_sync ← eink_store_load_last_sync b.toBuild
    let need ← need_download b st due_at current_at
    pure (sync_is_fresh b now (last_sync.toOption.getD 0) && !need)

def sync_telem_only (c : Client) (a : V0Answers) : FS (Telemetry × State) := do
  match ← eink_store_load_schedule b.toBuild with
  | .error ret => pure (⟨ret, c.telem_job, none⟩, c.st)
  | .ok sched =>
    if sched.jobs = [] then pure (⟨-ENOENT, c.telem_job, none⟩, c.st)
    else
      let shown ← paint b.toBuild lib b.DISPLAY_FIRE_AND_FORGET c.st (a.reading c.clock 5) (a.reading c.clock 6)
        a.fast_tick a.fast_repaint
      let posted ← post_telemetry b c.telem_job (a.reading c.clock 4) a.fast_telem
      pure (posted, shown.2)

/-! ## The full sync -/

def fetch_image_v0 (image_id : Id) (url : CStr EINK_HTTP_URL_MAX) (replies : List Reply) : FS Unit := do
  if ← eink_store_has_valid_image b.toBuild image_id.val then pure ()
  else
    let _ ← eink_http_download_image b.toBuild (eink_lz4_expand_if_framed lib) image_id.val url.val replies

/-- The first image of the table that is due. -/
def fetch_primary_v0 (due : Bytes) (images : List PlanImage) (replies : List Reply) : FS Unit :=
  match images.find? (·.image_id.val = due) with
  | some image => if due = [] then pure () else fetch_image_v0 b lib image.image_id image.url replies
  | none => pure ()

def cache_turn (skip_id : Bytes) (image : PlanImage) (replies : List Reply) : FS Unit :=
  if skip_id ≠ [] ∧ image.image_id.val = skip_id then pure ()
  else fetch_image_v0 b lib image.image_id image.url replies

/-- The loop over the images from `i` on, without `skip_id`. -/
def cache_gallery (skip_id : Bytes) (gallery : Nat → List Reply) : Nat → List PlanImage → FS Unit
  | _, [] => pure ()
  | i, image :: images => do
    cache_turn b lib skip_id image (gallery i)
    cache_gallery skip_id gallery (i + 1) images

/-- The images that are missing. -/
def missing_images (skip_id : Bytes) : List PlanImage → FS (List PlanImage)
  | [] => pure []
  | image :: images => do
    if skip_id ≠ [] ∧ image.image_id.val = skip_id then missing_images skip_id images
    else
      let valid ← eink_store_has_valid_image b.toBuild image.image_id.val
      let rest ← missing_images skip_id images
      pure (if valid then rest else image :: rest)

/-- Cache the gallery now, or leave it to the work item. The result is the pending job. -/
def gallery_v0 (job : Option GalleryJob) (due : Bytes) (images : List PlanImage) (gallery : Nat → List Reply) :
    FS (Option GalleryJob) := do
  if !b.HTTP_GALLERY_DEFER then
    cache_gallery b lib due gallery 0 images
    pure job
  else if b.BATTERY_DUTY_CYCLE || b.HTTP_SKIP_GALLERY then pure job
  else if job.isSome then pure job
  else
    let missing ← missing_images b due images
    pure (if missing = [] then none else some ⟨missing, due⟩)

def gallery_work_handler (job : Option GalleryJob) (gallery : Nat → List Reply) : FS Unit :=
  match job with
  | none => pure ()
  | some job => cache_gallery b lib job.skip_id gallery 0 job.images

def full_sync (c : Client) (a : V0Answers) (clock : Int) : FS Synced := do
  match a.config with
  | .error ret => pure ⟨ret, { c with clock := a.reading clock 11 }, false, none, none⟩
  | .ok (sched, images) =>
    let now := a.reading clock 7
    let st ← set_schedule_on_store b.toBuild c.st sched now
    let due := image_to_show st (a.reading clock 8) (a.reading clock 9)
    fetch_primary_v0 b lib due images a.primary
    let shown ← paint b.toBuild lib b.DISPLAY_FIRE_AND_FORGET st (a.reading clock 10) (a.reading clock 11)
      a.tick a.repaint
    let posted ← post_telemetry b c.telem_job now a.telem
    let gallery_job ← gallery_v0 b lib c.gallery_job due images a.gallery
    pure ⟨posted.ret, ⟨a.reading clock 11, shown.2, posted.job, gallery_job⟩, false, some now, posted.stamped⟩

def eink_http_sync_once_inner (c : Client) (a : V0Answers) : FS Synced := do
  if !cfg.inited || !cfg.enabled then pure ⟨-EINVAL, c, false, none, none⟩
  else
    let _ ← ensure_wall_clock b.toBuild b.SNTP (a.reading c.clock 0) a.clock
    if ← fast_path_gate b c.st (a.reading c.clock 1) (a.reading c.clock 2) (a.reading c.clock 3) then
      let (posted, st) ← sync_telem_only b lib c a
      if posted.ret = 0 then
        pure ⟨0, { c with clock := a.reading c.clock 11, st := st, telem_job := posted.job }, true, none,
          posted.stamped⟩
      else
        -- Nothing was saved or queued: the fast path failed.
        let synced ← full_sync b lib { c with st := st } a c.clock
        pure { synced with fast := true }
    else full_sync b lib c a c.clock

end EinkNode.Http
