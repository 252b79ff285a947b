import EinkNode.Http.Download
import EinkNode.Http.Url
/-!
# Redirects and the token

`http_get_body` and `http_download_to_file` of `eink_http.c` with the URLs that
they ask and the headers that they send. The network answers each request in
turn; a response may lead to another URL.
-/
open NodeLib EinkNode.Store

namespace EinkNode.Http

def EINK_HTTP_LOCATION_MAX : Nat := 512

/-- What the network makes of one request: the connection, the body in pieces,
what the client returns, the status and two of the headers. -/
structure Answer where
  connect : Int
  frags : List Bytes
  ret : Int
  status : Int
  location : Option Bytes
  etag : Option Bytes

def Answer.dead : Answer := ⟨-EIOERR, [], 0, 0, none, none⟩

/-- The answer as the download looks at it. -/
def Answer.reply (a : Answer) : Reply := ⟨a.frags, a.ret, a.status, a.location.isSome⟩

structure Request where
  parts : UrlParts
  headers : List Bytes

/-! ## One request -/

/-- `on_hdr_value2` on a `Location`. -/
def Answer.location_value (a : Answer) : Option Bytes :=
  a.location.map fun v => cstring (v.take (EINK_HTTP_LOCATION_MAX - 1))

/-- `on_hdr_value2` on an `ETag`. -/
def Answer.etag_value (a : Answer) : Option Bytes :=
  a.etag.map fun v => cstring ((v.dropWhile fun c => c = 32 || c = 9).take 127)

/-- The `Location` of a response that redirects. -/
def Answer.redirect (a : Answer) : Option Bytes := if is_redirect a.reply then a.location_value else none

variable (auth_token : CStr 256)

/-- The headers of `do_http`. -/
def request_headers (send_auth : Bool) (extra_hdr : Option Bytes) : List Bytes :=
  [ascii "Connection: close\r\n", ascii "Accept: */*\r\n"] ++
    (if send_auth && auth_token.val ≠ [] then
      [snprintf 320 (ascii "Authorization: Bearer " ++ auth_token.val ++ ascii "\r\n")] else []) ++
    extra_hdr.toList.filter (· ≠ [])

/-- `do_http` up to the request: there is none without a URL and a connection. -/
def start_request (url : Bytes) (send_auth : Bool) (extra_hdr : Option Bytes) (a : Answer) : Except Int Request :=
  match parse_url url with
  | .error e => .error e
  | .ok parts => if a.connect < 0 then .error a.connect else .ok ⟨parts, request_headers auth_token send_auth extra_hdr⟩

/-! ## Into memory -/

/-- `body_response_cb` over the pieces of a body. -/
def body_response_cb (cap : Nat) (buf : Bytes) : List Bytes → Except Int Bytes
  | [] => .ok buf
  | frag :: frags =>
    if buf.length + frag.length > cap then .error (-ENOMEM) else body_response_cb cap (buf ++ frag) frags

/-- `do_http` with a body context: an error of the callback comes first. -/
def do_http_body (cap : Nat) (a : Answer) : Except Int Bytes :=
  match body_response_cb cap [] a.frags with
  | .error e => .error e
  | .ok body => if a.ret < 0 then .error a.ret else .ok body

/-- What `http_get_body` returns and writes, and the requests that it sends. -/
structure Fetched where
  ret : Int
  body : Bytes
  status : Int
  etag_out : Bytes
  sent : List Request

/-- The end of a request that is not a redirect. -/
def finish_get_body (a : Answer) (body etag_out : Bytes) (request : Request) : Fetched :=
  if a.status = 304 then ⟨0, [], a.status, etag_out, [request]⟩
  else if a.status < 200 ∨ a.status ≥ 300 then ⟨-EIOERR, [], a.status, etag_out, [request]⟩
  else ⟨0, body, a.status, etag_out, [request]⟩

@[simp]
theorem sent_finish_get_body (a : Answer) (body etag_out : Bytes) (request : Request) :
    (finish_get_body a body etag_out request).sent = [request] := by
  unfold finish_get_body
  split
  · rfl
  · split <;> rfl

/-- The loop of `http_get_body`, with the redirects it may still follow. -/
def get_body_loop (send_auth : Bool) (cap : Nat) :
    Nat → Bytes → Option Bytes → Int → Bytes → List Answer → Fetched
  | left, current, extra, status, etag_out, answers =>
    let a := answers.headD .dead
    match start_request auth_token current send_auth extra a with
    | .error e => ⟨e, [], status, etag_out, []⟩
    | .ok request =>
      match do_http_body cap a with
      | .error e => ⟨e, [], status, etag_out, [request]⟩
      | .ok body =>
        let etag_out := a.etag_value.getD etag_out
        match left, a.redirect with
        | left + 1, some location =>
          -- Conditional headers apply to the original resource only.
          let rest := get_body_loop send_auth cap left (resolve_redirect current location EINK_HTTP_URL_MAX) none
            a.status etag_out answers.tail
          { rest with sent := request :: rest.sent }
        | _, _ => finish_get_body a body etag_out request

def if_none_hdr (if_none_match : Bytes) : Option Bytes :=
  if if_none_match = [] then none
  else some (snprintf 160 (ascii "If-None-Match: " ++ if_none_match ++ ascii "\r\n"))

def http_get_body (url : Bytes) (send_auth : Bool) (cap : Nat) (if_none_match : Bytes) (answers : List Answer) :
    Fetched :=
  get_body_loop auth_token send_auth cap EINK_HTTP_MAX_REDIRECTS (CStr.copy EINK_HTTP_URL_MAX url).val
    (if_none_hdr if_none_match) 0 [] answers

/-! ## Into a file -/

namespace Redirect

/-- What the request of one turn leaves to the file: the response, or why there is none. -/
def turn_reply (r : Except Int Request) (a : Answer) : Reply :=
  match r with
  | .error e => ⟨[], e, 0, false⟩
  | .ok _ => a.reply

/-- `download_loop` with the URL that each turn asks. -/
def download_loop (send_auth : Bool) (path tmp : Path) : Nat → Bytes → List Answer → FS (Int × List Request)
  | left, current, answers => do
    let a := answers.headD .dead
    let request := start_request auth_token current (send_auth && !is_s3_url current) none a
    let ret ← fs_open tmp true true
    if ret < 0 then pure (ret, [])
    else
      let ret ← request_to_file tmp (turn_reply request a)
      if ret ≠ 0 then
        let _ ← fs_unlink tmp
        pure (ret, request.toOption.toList)
      else
        match left, a.redirect with
        | left + 1, some location =>
          let _ ← fs_unlink tmp
          let (ret, sent) ← download_loop send_auth path tmp left
            (resolve_redirect current location EINK_HTTP_URL_MAX) answers.tail
          pure (ret, request.toOption.toList ++ sent)
        | _, _ =>
          let ret ← finish_download path tmp a.reply
          pure (ret, request.toOption.toList)

/-- `http_download_to_file` with its URL. -/
def http_download_to_file (url : Bytes) (send_auth : Bool) (path : Path) (answers : List Answer) :
    FS (Int × List Request) := do
  if path.length + 5 ≥ 384 then pure (-ENOMEM, [])
  else
    download_loop auth_token send_auth path (path ++ ascii ".tmp") EINK_HTTP_MAX_REDIRECTS
      (CStr.copy EINK_HTTP_URL_MAX url).val answers

/-- The replies of the turns, as `http_download_to_file` without its URL takes them. -/
def turn_replies (send_auth : Bool) : Nat → Bytes → List Answer → List Reply
  | left, current, answers =>
    let a := answers.headD .dead
    turn_reply (start_request auth_token current (send_auth && !is_s3_url current) none a) a ::
      match left, a.redirect with
      | left + 1, some location =>
        turn_replies send_auth left (resolve_redirect current location EINK_HTTP_URL_MAX) answers.tail
      | _, _ => []

end Redirect

end EinkNode.Http
