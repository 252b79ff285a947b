import EinkNode.Http.Download
import EinkNode.Http.Plan
import EinkNode.Http.WallClock
import EinkNode.Scheduler.Paint
/-!
# The v2 sync

`sync_v2_once_inner` of `eink_http.c`: the device reports the hashes of its
images, the server answers with a plan, and the node fetches the image that is
due, paints, and then goes through the rest of the downloads.
-/
open NodeLib EinkNode.Store EinkNode.Scheduler

namespace EinkNode.Http

/-- The further options that a sync depends on. -/
structure SyncBuild extends Build where
  SNTP : Bool
  DISPLAY_FIRE_AND_FORGET : Bool
  BATTERY_DUTY_CYCLE : Bool
  HTTP_SKIP_GALLERY : Bool

/-- What the sync looks at of `struct eink_http_config`. -/
structure HttpConfig where
  inited : Bool
  enabled : Bool
  api_base : Bytes

/-- The entries of `gallery`: the image, its hash and its size. -/
abbrev GalleryReport := List (Id × Bytes × UInt32)

/-- What the clock, the server, the network and the display answer. The server
answers the report with the result of the POST and the parsed body. -/
structure SyncAnswers where
  boot_clock : Int
  clock : ClockAnswers
  server : GalleryReport → Int × Option Json
  due_at : Int
  current_at : Int
  tick_at : Int
  repaint_at : Int
  tick : ShowAnswers
  repaint : ShowAnswers
  primary : List Reply
  gallery : Nat → List Reply

variable (b : SyncBuild) (lib : Lz4Lib) (cfg : HttpConfig)

/-! ## The report -/

/-- The entry for an image that is valid and has a hash, unless there is one already. -/
def gallery_entry (seen : List Id) (image_id : Id) : FS GalleryReport := do
  if image_id ∈ seen then pure []
  else if ← eink_store_has_valid_image b.toBuild image_id.val then
    match ← eink_store_load_content_hash b.toBuild image_id.val with
    | .error _ => pure []
    | .ok (sha, nbytes) => pure [(image_id, sha, nbytes)]
  else pure []

def report_gallery (seen : List Id) : List Job → FS GalleryReport
  | [] => pure []
  | job :: jobs => do
    let entry ← gallery_entry b seen job.image_id
    let rest ← report_gallery (job.image_id :: seen) jobs
    pure (entry ++ rest)

/-! ## The phases of a sync -/

/-- The time of the sync, the scheduler with the new schedule, and the plan. -/
structure Planned where
  now : Int
  st : State
  plan : Plan
deriving DecidableEq

/-- Everything up to the new schedule. -/
def plan_phase (st : State) (a : SyncAnswers) : FS (Except Int Planned) := do
  if !cfg.inited || !cfg.enabled then pure (.error (-EINVAL))
  else if (ascii "file://").isPrefixOf cfg.api_base then pure (.error (-ENOTSUP))
  else
    let (_, now) ← ensure_wall_clock b.toBuild b.SNTP a.boot_clock a.clock
    let prior ← eink_store_load_schedule b.toBuild
    let report ← report_gallery b [] (prior.toOption.elim [] (·.jobs))
    let (ret, root) := a.server report
    if ret ≠ 0 then pure (.error ret)
    else
      match root.bind parse_v2_plan with
      | none => pure (.error (-EINVAL))
      | some plan =>
        let st ← set_schedule_on_store b.toBuild st plan.sched now
        pure (.ok ⟨now, st, plan⟩)

def due_image (st : State) (a : SyncAnswers) : Bytes := image_to_show st a.due_at a.current_at

/-- Fetch the image for the panel. One that has a hash in the plan is always fetched. -/
def fetch_primary (due : Bytes) (plan : Plan) (replies : List Reply) : FS Unit := do
  if due = [] then pure ()
  else
    let valid ← eink_store_has_valid_image b.toBuild due
    match plan.primary due with
    | none => pure ()
    | some (url, sha, size) =>
      if valid ∧ sha = none then pure ()
      else
        let _ ← eink_http_download_image_hashed b.toBuild (eink_lz4_expand_if_framed lib) due url.val replies
          (sha.map (·.val)) size

/-- Fetch the image for the panel and paint. -/
def show_phase (s : Planned) (a : SyncAnswers) : FS (Int × State) := do
  fetch_primary b lib (due_image s.st a) s.plan a.primary
  paint b.toBuild lib b.DISPLAY_FIRE_AND_FORGET s.st a.tick_at a.repaint_at a.tick a.repaint

/-- The gallery loop takes the image as it is. -/
def gallery_has (asset_id : Bytes) : FS Bool := do
  if ← eink_store_has_valid_image b.toBuild asset_id then
    match ← eink_store_load_content_hash b.toBuild asset_id with
    | .error _ => pure false
    | .ok _ => pure true
  else pure false

def fetch_download (e : PlanDownload) (replies : List Reply) : FS Int :=
  eink_http_download_image_hashed b.toBuild (eink_lz4_expand_if_framed lib) e.asset_id.val e.url.val replies
    (some e.content_sha256.val) e.byte_size

/-- One turn of the gallery loop. -/
def gallery_turn (due : Bytes) (e : PlanDownload) (replies : List Reply) : FS Unit := do
  if due ≠ [] ∧ e.asset_id.val = due then pure ()
  else if ← gallery_has b e.asset_id.val then pure ()
  else
    let _ ← fetch_download b lib e replies

/-- The gallery loop from the download `i` on. -/
def gallery_loop (due : Bytes) (gallery : Nat → List Reply) : Nat → List PlanDownload → FS Unit
  | _, [] => pure ()
  | i, e :: es => do
    gallery_turn b lib due e (gallery i)
    gallery_loop due gallery (i + 1) es

def gallery_phase (s : Planned) (a : SyncAnswers) : FS Unit :=
  if b.BATTERY_DUTY_CYCLE || b.HTTP_SKIP_GALLERY then pure ()
  else gallery_loop b lib (due_image s.st a) a.gallery 0 s.plan.downloads

def sync_v2_once_inner (st : State) (a : SyncAnswers) : FS (Int × State) := do
  match ← plan_phase b cfg st a with
  | .error ret => pure (ret, st)
  | .ok s =>
    let shown ← show_phase b lib s a
    gallery_phase b lib s a
    let _ ← eink_store_save_last_sync b.toBuild s.now
    pure (0, shown.2)

end EinkNode.Http
