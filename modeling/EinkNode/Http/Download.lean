import EinkNode.Store.Accept
import EinkNode.Store.ContentHash
import EinkNode.Store.Expand
/-!
# Downloading an image

`eink_http_download_image_hashed` of `eink_http.c`: the bytes arrive in a
temporary file, are looked at, accepted into the store, and the hash that the
server declared is saved beside them. What the network does is a list of
replies; what the LZ4 library makes of a file is a parameter.
-/
open NodeLib EinkNode.Store

namespace EinkNode.Http

def EINK_HTTP_MAX_REDIRECTS : Nat := 3

def looks_like_jpeg_or_png (buf : Bytes) : Bool :=
  buf.take 3 = [0xFF, 0xD8, 0xFF] || (buf.length ≥ 8 && buf.take 4 = 0x89 :: ascii "PNG")

/-- One request over the network: the body in the pieces that the callback
gets, what the client returns, the status, and whether there is a `Location`. -/
structure Reply where
  frags : List Bytes
  ret : Int
  status : Int
  location : Bool

/-- No connection. -/
def Reply.dead : Reply := ⟨[], -EIOERR, 0, false⟩

/-- A redirect, and then a compressed image in two pieces. -/
def redirected : List Reply := [⟨[ascii "moved"], 0, 302, true⟩, ⟨[lz4Head.take 5, lz4Head.drop 5], 0, 200, false⟩]

/-! ## From the network to a file -/

/-- `download_response_cb` over the pieces of a body, the first one at offset 0. -/
def download_response_cb (tmp : Path) (off : Nat) : List Bytes → FS Int
  | [] => pure 0
  | frag :: frags => do
    if off = 0 ∧ looks_like_jpeg_or_png (frag.take 8) then pure (-ENOTSUP)
    else
      let written ← fs_write tmp off frag
      if written ≠ frag.length then pure (-EIOERR) else download_response_cb tmp (off + frag.length) frags

/-- `do_http` with a download context: an error of the callback comes first. -/
def do_http (tmp : Path) (reply : Reply) : FS Int := do
  let err ← download_response_cb tmp 0 (reply.frags.filter (· ≠ []))
  pure (if err ≠ 0 then err else if reply.ret < 0 then reply.ret else 0)

/-- One request, and `fs_sync` if it went well. -/
def request_to_file (tmp : Path) (reply : Reply) : FS Int := do
  let ret ← do_http tmp reply
  if ret = 0 then fs_sync tmp else pure ret

def is_redirect (reply : Reply) : Bool :=
  (reply.status = 301 || reply.status = 302 || reply.status = 307 || reply.status = 308) && reply.location

/-- The end of a request that is not a redirect. -/
def finish_download (path tmp : Path) (reply : Reply) : FS Int := do
  if reply.status < 200 ∨ reply.status ≥ 300 then
    -- A snippet of the error body goes to the log.
    let _ ← read_head tmp 159
    let _ ← fs_unlink tmp
    pure (-EIOERR)
  else
    let ret ← fs_rename tmp path
    if ret < 0 then
      let _ ← fs_unlink tmp
      pure ret
    else pure 0

/-- The loop of `http_download_to_file`, with the redirects it may still follow. -/
def download_loop (path tmp : Path) : Nat → List Reply → FS Int
  | left, replies => do
    let reply := replies.headD .dead
    let ret ← fs_open tmp true true
    if ret < 0 then pure ret
    else
      let ret ← request_to_file tmp reply
      if ret ≠ 0 then
        let _ ← fs_unlink tmp
        pure ret
      else
        match left with
        | 0 => finish_download path tmp reply
        | left + 1 =>
          if is_redirect reply then
            let _ ← fs_unlink tmp
            download_loop path tmp left replies.tail
          else finish_download path tmp reply

def http_download_to_file (path : Path) (replies : List Reply) : FS Int := do
  if path.length + 5 ≥ 384 then pure (-ENOMEM)
  else download_loop path (path ++ ascii ".tmp") EINK_HTTP_MAX_REDIRECTS replies

/-! ## From a file to a file -/

/-- The loop of `copy_path_chunked`. Every turn moves at least one byte, so one
more turn than there are bytes is enough. -/
def copy_loop (src dst : Path) : Nat → Nat → FS Int
  | 0, _ => pure (-EIOERR)
  | turns + 1, off => do
    match ← fs_read src off EINK_STREAM_CHUNK_SIZE with
    | .error e => pure e
    | .ok [] => fs_sync dst
    | .ok chunk =>
      let ret ← fs_write dst off chunk
      if ret ≠ chunk.length then pure (if ret < 0 then ret else -EIOERR)
      else copy_loop src dst turns (off + chunk.length)

/-- The length of a file, to bound a loop over it. -/
def file_length (path : Path) : FS Nat := fun d => (((d.files path).getD []).length, d)

def copy_path_chunked (src dst : Path) : FS Int := do
  let ret ← fs_open src false false
  if ret < 0 then pure ret
  else
    let ret ← fs_open dst true true
    if ret < 0 then pure ret
    else
      let bytes ← file_length src
      let ret ← copy_loop src dst (bytes + 1) 0
      if ret < 0 then
        let _ ← fs_unlink dst
        pure ret
      else pure ret

/-! ## The download -/

/-- `eink_lz4_expand_if_framed`, from a path to a path. -/
abbrev Expand := Path → Path → FS Int

variable (b : Build) (expand : Expand)

/-- What both kinds of URL do with the file that has arrived: reject pictures,
expand a compressed one if the build expands on download. The result is the
path to accept. -/
def check_download (tmp_path : Path) (rename_expanded : Bool) : FS (Except Int Path) := do
  match ← read_head tmp_path 8 with
  | .error e =>
    let _ ← fs_unlink tmp_path
    pure (.error e)
  | .ok head =>
    if looks_like_jpeg_or_png head then
      let _ ← fs_unlink tmp_path
      pure (.error (-ENOTSUP))
    else if b.LZ4 && eink_lz4_is_frame head && !b.LZ4_EXPAND_ON_DISPLAY then
      if tmp_path.length + 5 ≥ 384 then
        let _ ← fs_unlink tmp_path
        pure (.error (-ENOMEM))
      else
        let unc_path := tmp_path ++ ascii ".unc"
        let expanded ← expand tmp_path unc_path
        if expanded < 0 then
          let _ ← fs_unlink tmp_path
          pure (.error expanded)
        else if expanded = 1 then
          let _ ← fs_unlink tmp_path
          if rename_expanded then
            let ret ← fs_rename unc_path tmp_path
            if ret < 0 then
              let _ ← fs_unlink unc_path
              pure (.error ret)
            else pure (.ok tmp_path)
          else pure (.ok unc_path)
        else pure (.ok tmp_path)
    else pure (.ok tmp_path)

/-- The bytes of the URL, in a temporary file that may be accepted. -/
def fetch_image (url : Bytes) (replies : List Reply) (tmp_path : Path) : FS (Except Int Path) := do
  if (ascii "file://").isPrefixOf url then
    let ret ← copy_path_chunked (url.drop 7) tmp_path
    if ret ≠ 0 then pure (.error ret)
    else if b.LZ4 then check_download b expand tmp_path true
    else pure (.ok tmp_path)
  else if (ascii "http://").isPrefixOf url || (ascii "https://").isPrefixOf url then
    let ret ← http_download_to_file tmp_path replies
    if ret ≠ 0 then pure (.error ret) else check_download b expand tmp_path false
  else pure (.error (-EINVAL))

/-- The first 64 digits in lower case. -/
def lower_sha (content_sha256 : Bytes) : Bytes := (content_sha256.take 64).map lowerHex

def download_path (image_id : Bytes) : Path := eink_store_image_path b image_id ++ ascii ".download"

/-- Save the hash that was declared; `none` is the null pointer. -/
def save_declared (image_id : Bytes) (content_sha256 : Option Bytes) (byte_size : UInt32) : FS Unit :=
  match content_sha256 with
  | some sha =>
    if (cstring sha).length = 64 then do
      let _ ← eink_store_save_content_hash b image_id (lower_sha sha) byte_size
    else pure ()
  | none => pure ()

/-- The end of a download: the bytes are at `tmp_path`. -/
def accept_and_record (image_id tmp_path : Bytes) (content_sha256 : Option Bytes) (byte_size : UInt32) : FS Int := do
  let ret ← eink_store_accept_temp_image b image_id tmp_path
  if ret ≠ 0 then
    let _ ← fs_unlink tmp_path
    pure ret
  else
    save_declared b image_id content_sha256 byte_size
    pure ret

def eink_http_download_image_hashed (image_id url : Bytes) (replies : List Reply)
    (content_sha256 : Option Bytes) (byte_size : UInt32) : FS Int := do
  match ← fetch_image b expand url replies (download_path b image_id) with
  | .error e => pure e
  | .ok tmp_path => accept_and_record b image_id tmp_path content_sha256 byte_size

def eink_http_download_image (image_id url : Bytes) (replies : List Reply) : FS Int :=
  eink_http_download_image_hashed b expand image_id url replies none 0

/-! ## What a fetch writes to -/

section
variable {W : Path → Prop}

theorem touches_response_cb {tmp : Path} (ht : W tmp) (frags : List Bytes) (off : Nat) :
    Keeps (Touches W) (download_response_cb tmp off frags) := by
  induction frags generalizing off with
  | nil => exact keeps_pure _
  | cons frag frags ih =>
    exact keeps_ite (keeps_pure _) (keeps_bind (touches_fs_write ht off frag) fun _ => keeps_ite (keeps_pure _) (ih _))

theorem touches_finish_download {path tmp : Path} (hp : W path) (ht : W tmp) (reply : Reply) :
    Keeps (Touches W) (finish_download path tmp reply) := by
  apply keeps_ite
  · exact keeps_bind (touches_read_head tmp _) fun _ => keeps_bind (touches_fs_unlink ht) fun _ => keeps_pure _
  · refine keeps_bind (touches_fs_rename ht hp) fun ret => keeps_ite ?_ (keeps_pure _)
    exact keeps_bind (touches_fs_unlink ht) fun _ => keeps_pure _

theorem touches_download_loop {path tmp : Path} (hp : W path) (ht : W tmp) (left : Nat) (replies : List Reply) :
    Keeps (Touches W) (download_loop path tmp left replies) := by
  have hreq (reply : Reply) : Keeps (Touches W) (request_to_file tmp reply) :=
    keeps_bind (keeps_bind (touches_response_cb ht _ _) fun _ => keeps_pure _) fun _ =>
      keeps_ite touches_fs_sync (keeps_pure _)
  have hgone (ret : Int) : Keeps (Touches W) (do let _ ← fs_unlink tmp; pure ret : FS Int) :=
    keeps_bind (touches_fs_unlink ht) fun _ => keeps_pure _
  induction left generalizing replies with
  | zero =>
    refine keeps_bind (touches_fs_open ht true true) fun ret => keeps_ite (keeps_pure _) ?_
    exact keeps_bind (hreq _) fun ret => keeps_ite (hgone ret) (touches_finish_download hp ht _)
  | succ left ih =>
    refine keeps_bind (touches_fs_open ht true true) fun ret => keeps_ite (keeps_pure _) ?_
    refine keeps_bind (hreq _) fun ret => keeps_ite (hgone ret) (keeps_ite ?_ (touches_finish_download hp ht _))
    exact keeps_bind (touches_fs_unlink ht) fun _ => ih _

theorem touches_download_to_file {path : Path} (hp : W path) (ht : W (path ++ ascii ".tmp")) (replies : List Reply) :
    Keeps (Touches W) (http_download_to_file path replies) :=
  keeps_ite (keeps_pure _) (touches_download_loop hp ht _ replies)

theorem touches_copy_loop {src dst : Path} (hd : W dst) (turns off : Nat) :
    Keeps (Touches W) (copy_loop src dst turns off) := by
  induction turns generalizing off with
  | zero => exact keeps_pure _
  | succ turns ih =>
    refine keeps_bind (touches_fs_read off _) ?_
    rintro (e | _ | ⟨c, chunk⟩)
    · exact keeps_pure _
    · exact touches_fs_sync
    · exact keeps_bind (touches_fs_write hd off _) fun ret => keeps_ite (keeps_pure _) (ih _)

theorem touches_copy_path {src dst : Path} (hd : W dst) : Keeps (Touches W) (copy_path_chunked src dst) := by
  refine keeps_bind touches_fs_open_read fun ret => keeps_ite (keeps_pure _) ?_
  refine keeps_bind (touches_fs_open hd true true) fun ret => keeps_ite (keeps_pure _) ?_
  refine keeps_bind (fun d => refl_of _ d) fun bytes => keeps_bind (touches_copy_loop hd _ _) fun ret => ?_
  exact keeps_ite (keeps_bind (touches_fs_unlink hd) fun _ => keeps_pure _) (keeps_pure _)

variable {b}

/-- The build leaves compressed images as they are, or expands them inside `W`. -/
def ExpandsIn (b : Build) (expand : Expand) (W : Path → Prop) (tmp : Path) : Prop :=
  b.LZ4_EXPAND_ON_DISPLAY = true ∨
    W (tmp ++ ascii ".unc") ∧ ∀ src dst, W dst → Keeps (Touches W) (expand src dst)

theorem touches_check_download {tmp : Path} (ht : W tmp) (hx : ExpandsIn b expand W tmp) (rename : Bool) :
    Keeps (Touches W) (check_download b expand tmp rename) := by
  have hgone {α : Type} (p : Path) (hp : W p) (r : α) : Keeps (Touches W) (do let _ ← fs_unlink p; pure r : FS α) :=
    keeps_bind (touches_fs_unlink hp) fun _ => keeps_pure _
  refine keeps_bind (touches_read_head tmp 8) ?_
  rintro (e | head)
  · exact hgone tmp ht _
  · refine keeps_ite (hgone tmp ht _) ?_
    rcases hx with hb | ⟨hu, hexp⟩
    · simpa [hb] using keeps_pure _
    · refine keeps_ite (keeps_ite (hgone tmp ht _) ?_) (keeps_pure _)
      refine keeps_bind (hexp _ _ hu) fun expanded => keeps_ite (hgone tmp ht _) (keeps_ite ?_ (keeps_pure _))
      refine keeps_bind (touches_fs_unlink ht) fun _ => keeps_ite ?_ (keeps_pure _)
      exact keeps_bind (touches_fs_rename hu ht) fun ret => keeps_ite (hgone _ hu _) (keeps_pure _)

/-- A download writes to the temporary file, the one it comes from and the one it is expanded to. -/
theorem touches_fetch_image (url : Bytes) (replies : List Reply) {tmp : Path} (ht : W tmp)
    (ht' : W (tmp ++ ascii ".tmp")) (hx : ExpandsIn b expand W tmp) :
    Keeps (Touches W) (fetch_image b expand url replies tmp) := by
  apply keeps_ite
  · refine keeps_bind (touches_copy_path ht) fun ret => keeps_ite (keeps_pure _) (keeps_ite ?_ (keeps_pure _))
    exact touches_check_download expand ht hx true
  · apply keeps_ite
    · refine keeps_bind (touches_download_to_file ht ht' replies) fun ret => keeps_ite (keeps_pure _) ?_
      exact touches_check_download expand ht hx false
    · exact keeps_pure _

end

/-- What is accepted is the temporary file or what it was expanded to. -/
theorem fetch_image_path (url : Bytes) (replies : List Reply) (tmp : Path) :
    Always (fun r => ∀ p, r = .ok p → p = tmp ∨ b.LZ4_EXPAND_ON_DISPLAY = false ∧ p = tmp ++ ascii ".unc")
      (fetch_image b expand url replies tmp) := by
  have herr (e : Int) : ∀ p, (.error e : Except Int Path) = .ok p →
      p = tmp ∨ b.LZ4_EXPAND_ON_DISPLAY = false ∧ p = tmp ++ ascii ".unc" := nofun
  have hok : ∀ p, (.ok tmp : Except Int Path) = .ok p →
      p = tmp ∨ b.LZ4_EXPAND_ON_DISPLAY = false ∧ p = tmp ++ ascii ".unc" := by
    rintro p ⟨⟩
    exact .inl rfl
  have hcheck (rename : Bool) : Always (fun r => ∀ p, r = .ok p →
      p = tmp ∨ b.LZ4_EXPAND_ON_DISPLAY = false ∧ p = tmp ++ ascii ".unc") (check_download b expand tmp rename) := by
    refine always_then ?_
    rintro (e | head)
    · exact always_then fun _ => always_pure (herr e)
    · refine always_ite (fun _ => always_then fun _ => always_pure (herr _)) fun _ => ?_
      refine always_ite (fun hc => ?_) fun _ => always_pure hok
      have hb : b.LZ4_EXPAND_ON_DISPLAY = false := by
        simp only [Bool.and_eq_true, Bool.not_eq_true'] at hc
        exact hc.2
      refine always_ite (fun _ => always_then fun _ => always_pure (herr _)) fun _ => always_then fun expanded => ?_
      refine always_ite (fun _ => always_then fun _ => always_pure (herr _)) fun _ => ?_
      refine always_ite (fun _ => always_then fun _ => always_ite (fun _ => always_then fun ret => ?_) fun _ => ?_)
        fun _ => always_pure hok
      · exact always_ite (fun _ => always_then fun _ => always_pure (herr _)) fun _ => always_pure hok
      · refine always_pure ?_
        rintro p ⟨⟩
        exact .inr ⟨hb, rfl⟩
  refine always_ite (fun _ => always_then fun ret => always_ite (fun _ => always_pure (herr _)) fun _ => ?_) fun _ => ?_
  · exact always_ite (fun _ => hcheck true) fun _ => always_pure hok
  · refine always_ite (fun _ => always_then fun ret => ?_) fun _ => always_pure (herr _)
    exact always_ite (fun _ => always_pure (herr _)) fun _ => hcheck false

/-! ## What a download writes to -/

section
variable {b} {image_id : Bytes} {W : Path → Prop}

/-- Recording touches the hash and its temporary file only. -/
theorem touches_save_declared (ht : W (content_hash_tmp b image_id))
    (hp : W (eink_store_content_hash_path b image_id)) (sha : Option Bytes) (size : UInt32) :
    Keeps (Touches W) (save_declared b image_id sha size) := by
  cases sha with
  | none => exact keeps_pure _
  | some sha =>
    refine keeps_ite (keeps_bind (keeps_ite (keeps_pure _) ?_) fun _ => keeps_pure _) (keeps_pure _)
    exact touches_write_and_rename ht hp _

/-- All files of the image are in `W`. -/
structure FilesIn (b : Build) (image_id : Bytes) (W : Path → Prop) : Prop where
  temp : W (download_path b image_id)
  temp_tmp : W (download_path b image_id ++ ascii ".tmp")
  temp_unc : W (download_path b image_id ++ ascii ".unc")
  names : ∀ p ∈ image_names b image_id, W p
  hash : W (eink_store_content_hash_path b image_id)
  hash_tmp : W (content_hash_tmp b image_id)

/-- A download writes to the files of its image. -/
theorem touches_download (h : FilesIn b image_id W) (lib : Lz4Lib) (url : Bytes) (replies : List Reply)
    (sha : Option Bytes) (size : UInt32) :
    Keeps (Touches W)
      (eink_http_download_image_hashed b (eink_lz4_expand_if_framed lib) image_id url replies sha size) := by
  refine keeps_bind_of_always (fetch_image_path b _ url replies _) (touches_fetch_image _ url replies h.temp h.temp_tmp
    (.inr ⟨h.temp_unc, fun src dst hd => touches_expand_if_framed lib hd src⟩)) ?_
  rintro (e | tmp) hpath
  · exact keeps_pure _
  · have htmp : W tmp := by
      rcases hpath tmp rfl with rfl | ⟨-, rfl⟩
      · exact h.temp
      · exact h.temp_unc
    refine keeps_bind (touches_accept htmp h.names) fun ret => keeps_ite ?_ ?_
    · exact keeps_bind (touches_fs_unlink htmp) fun _ => keeps_pure _
    · exact keeps_bind (touches_save_declared h.hash_tmp h.hash sha size) fun _ => keeps_pure _

end

end EinkNode.Http
