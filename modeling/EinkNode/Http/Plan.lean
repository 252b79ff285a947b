import EinkNode.Scheduler.Core
/-!
# The plan of the server

What `sync_v2_once_inner` takes from the body that the server answers: the
schedule, the images and the downloads. Each table has its size and each text
its array; what does not fit is left out.
-/
open NodeLib EinkNode.Scheduler

namespace EinkNode.Http

def EINK_HTTP_URL_MAX : Nat := 2048
def EINK_HTTP_MAX_IMAGES : Nat := 16

/-! ## JSON -/

/-- What the parser makes of a text. Of a number only the integral part is looked at. -/
inductive Json where
  | null
  | bool (b : Bool)
  | number (valuedouble : Int)
  | string (valuestring : Bytes)
  | array (items : List Json)
  | object (fields : List (Bytes × Json))

/-- The first member of that name. Only an object has members. -/
def cJSON_GetObjectItemCaseSensitive : Json → Bytes → Option Json
  | .object fields, key => (fields.find? (·.1 = key)).map (·.2)
  | _, _ => none

/-- The member of that name, if it is a string. -/
def string_item (item : Json) (key : String) : Option Bytes :=
  match cJSON_GetObjectItemCaseSensitive item (ascii key) with
  | some (.string s) => some s
  | _ => none

/-- The items of the member of that name, if it is an array. -/
def array_item (item : Json) (key : String) : List Json :=
  match cJSON_GetObjectItemCaseSensitive item (ascii key) with
  | some (.array items) => items
  | _ => []

/-! ## The tables -/

/-- `struct eink_http_image`. -/
structure PlanImage where
  image_id : Id
  url : CStr EINK_HTTP_URL_MAX
deriving DecidableEq

/-- `struct eink_http_download`. -/
structure PlanDownload where
  asset_id : Id
  url : CStr EINK_HTTP_URL_MAX
  content_sha256 : CStr 65
  byte_size : UInt32
deriving DecidableEq

structure Plan where
  sched : Schedule
  images : List PlanImage
  downloads : List PlanDownload
deriving DecidableEq

/-- A job without a cron text runs at midnight. -/
def plan_cron (item : Json) : CStr EINK_CRON_MAX :=
  match string_item item "cron" with
  | some cron => if cstring cron ≠ [] then .copy _ cron else .copy _ (ascii "0 0 * * *")
  | none => .copy _ (ascii "0 0 * * *")

def plan_job (item : Json) : Option Job := do
  let job_id ← string_item item "job_id"
  let image_id ← string_item item "image_id"
  return { job_id := .copy _ job_id, image_id := .copy _ image_id, cron := plan_cron item, next_run_unix := 0 }

def plan_image (item : Json) : Option PlanImage := do
  let image_id ← string_item item "image_id"
  let url ← string_item item "url"
  return { image_id := .copy _ image_id, url := .copy _ url }

def plan_download (item : Json) : Option PlanDownload := do
  let asset_id ← string_item item "asset_id"
  let url ← string_item item "url"
  let content_sha256 ← string_item item "content_sha256"
  let byte_size : UInt32 := match cJSON_GetObjectItemCaseSensitive item (ascii "byte_size") with
    | some (.number n) => .ofInt n
    | _ => 0
  return { asset_id := .copy _ asset_id, url := .copy _ url, content_sha256 := .copy _ content_sha256, byte_size }

/-- The plan, if the answer speaks `v2`. Entries that lack a text are passed over. -/
def parse_v2_plan (root : Json) : Option Plan :=
  if (string_item root "protocol").map cstring ≠ some (ascii "v2") then none
  else
    some
      { sched := .take ((array_item root "schedule").filterMap plan_job)
        images := ((array_item root "images").filterMap plan_image).take EINK_HTTP_MAX_IMAGES
        downloads := ((array_item root "download").filterMap plan_download).take EINK_HTTP_MAX_IMAGES }

/-- The download of the image, and else its plain URL: what is fetched for the panel. -/
def Plan.primary (plan : Plan) (image_id : Bytes) : Option (CStr EINK_HTTP_URL_MAX × Option (CStr 65) × UInt32) :=
  match plan.downloads.find? (·.asset_id.val = image_id) with
  | some d => some (d.url, some d.content_sha256, d.byte_size)
  | none => (plan.images.find? (·.image_id.val = image_id)).map fun i => (i.url, none, 0)

end EinkNode.Http
