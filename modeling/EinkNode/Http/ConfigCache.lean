import EinkNode.Http.Redirect
import EinkNode.Http.Plan
import EinkNode.Lib.Wire
/-!
# The configuration and its cache

`eink_http_set_credentials` and `eink_http_fetch_config` of `eink_http.c`. The
last configuration that was parsed stays in memory with the CRC of its body and
the last `ETag`; a body with that CRC is not parsed again, and for a 304 there
is no body at all. What the JSON library makes of a body is a parameter.
-/
open NodeLib EinkNode.Scheduler

namespace EinkNode.Http

def EINK_HTTP_CFG_BUF : Nat := 24576

/-- `struct eink_http_config`, and whether it was given. -/
structure Credentials where
  inited : Bool
  enabled : Bool
  api_base : CStr 192
  device_id : CStr 64
  auth_token : CStr 256
deriving DecidableEq

/-- `none` is the null pointer, which keeps a text. -/
def eink_http_set_credentials (cfg : Credentials) (api_base device_id auth_token : Option Bytes) : Credentials :=
  if !cfg.inited then cfg
  else
    let api_base := (api_base.map (CStr.copy 192)).getD cfg.api_base
    let device_id := (device_id.map (CStr.copy 64)).getD cfg.device_id
    let auth_token :=
      match auth_token with
      | none => cfg.auth_token
      | some token => if cstring token = ascii "none" ∨ cstring token = ascii "-" then .empty 256 else .copy 256 token
    ⟨true, api_base.val ≠ [] && device_id.val ≠ [], api_base, device_id, auth_token⟩

/-! ## The configuration -/

/-- What a fetch yields: `out_sched`, the image table and the orientation. -/
structure Config where
  sched : Schedule
  images : List PlanImage
  orientation : Int
deriving DecidableEq

/-- `valueint` of a number. -/
def valueint (valuedouble : Int) : Int := max (-2 ^ 31) (min valuedouble (2 ^ 31 - 1))

/-- An image with a URL that fits. -/
def config_image (item : Json) : Option PlanImage := do
  let image_id ← string_item item "image_id"
  let url ← string_item item "url"
  if (cstring url).length ≥ EINK_HTTP_URL_MAX then none
  else return { image_id := .copy _ image_id, url := .copy _ url }

def is_true (item : Json) (key : String) : Bool :=
  match cJSON_GetObjectItemCaseSensitive item (ascii key) with
  | some (.bool b) => b
  | _ => false

variable (cJSON_ParseWithLength : Bytes → Option Json)

/-- The configuration, and whether it requests the debug log. -/
def parse_config_json (json : Bytes) : Except Int (Config × Bool) :=
  match cJSON_ParseWithLength json with
  | none => .error (-EINVAL)
  | some root =>
    .ok
      ({ sched := .take ((array_item root "schedule").filterMap plan_job)
         images := ((array_item root "images").filterMap config_image).take EINK_HTTP_MAX_IMAGES
         orientation := match cJSON_GetObjectItemCaseSensitive root (ascii "orientation") with
           | some (.number n) => valueint n
           | _ => 0 },
       is_true root "request_debug_log")

/-! ## The cache -/

/-- The credentials, the cache, and the flag that a request for the debug log leaves. -/
structure ConfigClient where
  cfg : Credentials
  config_cache_valid : Bool
  cached_config_crc : UInt32
  cached_config_etag : Bytes
  cached : Config
  s_request_debug_log : Bool

/-- At start-up. -/
def ConfigClient.start (cfg : Credentials) : ConfigClient := ⟨cfg, false, 0, [], ⟨.empty, [], 0⟩, false⟩

def config_url (cfg : Credentials) : Bytes :=
  snprintf EINK_HTTP_URL_MAX (cfg.api_base.val ++ ascii "/node/v0/device/" ++ cfg.device_id.val ++ ascii "/config")

/-- The base is a directory of fixtures. -/
def Credentials.fixture (cfg : Credentials) : Bool := (ascii "file://").isPrefixOf cfg.api_base.val

/-- The `ETag` that the request names. -/
def ConfigClient.if_none (c : ConfigClient) : Bytes := if c.config_cache_valid then c.cached_config_etag else []

def ConfigClient.keep_etag (c : ConfigClient) (resp_etag : Bytes) : ConfigClient :=
  if resp_etag ≠ [] then { c with cached_config_etag := resp_etag } else c

/-- A body that has arrived: it has the CRC of the cached one, or it is parsed. -/
def use_body (c : ConfigClient) (body resp_etag : Bytes) : Except Int Config × ConfigClient :=
  if c.config_cache_valid ∧ crc32_ieee body = c.cached_config_crc then (.ok c.cached, c.keep_etag resp_etag)
  else
    match parse_config_json cJSON_ParseWithLength body with
    | .error e => (.error e, c)
    | .ok (config, debug_log) =>
      (.ok config, ({ c with
        config_cache_valid := true
        cached_config_crc := crc32_ieee body
        cached := config
        s_request_debug_log := c.s_request_debug_log || debug_log }).keep_etag resp_etag)

/-- What `http_get_body` makes of the answers to a request for the configuration. -/
def get_config (c : ConfigClient) (answers : List Answer) : Fetched :=
  http_get_body c.cfg.auth_token (config_url c.cfg) true (EINK_HTTP_CFG_BUF - 1) c.if_none answers

/-- The body that arrives, from a file or in a response. A 304 has none. -/
def arrived (c : ConfigClient) (file : Except Int Bytes) (answers : List Answer) : Option Bytes :=
  if c.cfg.fixture then file.toOption
  else
    let got := get_config c answers
    if got.ret ≠ 0 ∨ got.status = 304 then none else some got.body

/-- `file` is what `load_file_body` reads. -/
def eink_http_fetch_config (c : ConfigClient) (file : Except Int Bytes) (answers : List Answer) :
    Except Int Config × ConfigClient :=
  if !c.cfg.inited || !c.cfg.enabled then (.error (-EINVAL), c)
  else if c.cfg.fixture then
    match file with
    | .error e => (.error e, c)
    | .ok body => use_body cJSON_ParseWithLength c body []
  else
    let got := get_config c answers
    if got.ret ≠ 0 then (.error got.ret, c)
    else if got.status = 304 then if c.config_cache_valid then (.ok c.cached, c) else (.error (-ENOENT), c)
    else use_body cJSON_ParseWithLength c got.body got.etag_out

end EinkNode.Http
