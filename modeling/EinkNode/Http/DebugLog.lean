import EinkNode.Http.ConfigCache
import EinkNode.Http.Fresh
/-!
# The request for the debug log

A configuration may request the log of the device. `parse_config_json` leaves a
flag, and the full v0 sync ends with `eink_http_maybe_upload_debug_log`, which
clears it and uploads the log. A configuration that comes from the cache is not
parsed.
-/
open NodeLib EinkNode.Store EinkNode.Scheduler

namespace EinkNode.Http

/-- Whether the log is uploaded, and the flag afterwards. `upload` is the result
of `eink_http_upload_debug_log`. -/
def eink_http_maybe_upload_debug_log (requested s_request_debug_log : Bool) (upload : Int) : Option Int × Bool :=
  if !requested && !s_request_debug_log then (none, s_request_debug_log) else (some upload, false)

/-- What one full sync is answered. The configuration is in `file` or comes with `answers`. -/
structure LoggedSync where
  sync : V0Answers
  clock : Int
  file : Except Int Bytes
  answers : List Answer
  upload : Int

variable (b : V0Build) (lib : Lz4Lib) (cJSON_ParseWithLength : Bytes → Option Json)

/-- The full sync with the configuration that the client fetches, and the upload at its end. -/
def full_sync_with_log (c : Client) (cc : ConfigClient) (e : LoggedSync) : FS (Synced × ConfigClient × Option Int) := do
  let (config, cc) := eink_http_fetch_config cJSON_ParseWithLength cc e.file e.answers
  let synced ← full_sync b lib c { e.sync with config := config.map fun x => (x.sched, x.images) } e.clock
  match config with
  | .error _ => pure (synced, cc, none)
  | .ok _ =>
    let (upload, flag) := eink_http_maybe_upload_debug_log false cc.s_request_debug_log e.upload
    pure (synced, { cc with s_request_debug_log := flag }, upload)

/-! ## Runs -/

/-- The node between syncs, and whether an upload has succeeded. -/
structure LogNode where
  client : Client
  config : ConfigClient
  disk : Disk Path
  uploaded : Bool

def logged_sync (s : LogNode) (e : LoggedSync) : (Synced × ConfigClient × Option Int) × Disk Path :=
  full_sync_with_log b lib cJSON_ParseWithLength s.client s.config e s.disk

def log_step (s : LogNode) (e : LoggedSync) : LogNode :=
  let r := logged_sync b lib cJSON_ParseWithLength s e
  ⟨r.1.1.client, r.1.2.1, r.2, s.uploaded || r.1.2.2 = some 0⟩

/-- The sync has a configuration. -/
def FetchSucceeds (s : LogNode) (e : LoggedSync) : Prop :=
  (eink_http_fetch_config cJSON_ParseWithLength s.config e.file e.answers).1.toOption.isSome = true

/-- Until an upload has succeeded, every body of the server requests the log. -/
def ServesRequest (s : LogNode) (e : LoggedSync) : Prop :=
  s.uploaded = false → ∀ body ∈ arrived s.config e.file e.answers, ∀ config debug_log,
    parse_config_json cJSON_ParseWithLength body = .ok (config, debug_log) → debug_log = true

/-- Until an upload has succeeded, the sync uploads the log. -/
def Uploads (s : LogNode) (e : LoggedSync) : Prop :=
  s.uploaded = false → (logged_sync b lib cJSON_ParseWithLength s e).1.2.2.isSome = true

/-- Until an upload has succeeded, the flag is still there or the sync gets a body that is not in the cache. -/
def GetsNewBody (s : LogNode) (e : LoggedSync) : Prop :=
  s.uploaded = false → s.config.s_request_debug_log = true ∨
    ∃ body ∈ arrived s.config e.file e.answers,
      ¬(s.config.config_cache_valid = true ∧ crc32_ieee body = s.config.cached_config_crc)

/-! ## One sync -/

variable {b lib cJSON_ParseWithLength}

@[simp]
theorem keep_etag_debug_log (c : ConfigClient) (resp_etag : Bytes) :
    (c.keep_etag resp_etag).s_request_debug_log = c.s_request_debug_log := by
  unfold ConfigClient.keep_etag
  split <;> rfl

/-- A body that is not in the cache leaves the flag of its own request. -/
theorem use_body_flag {c : ConfigClient} {body resp_etag : Bytes} {config : Config}
    (h : (use_body cJSON_ParseWithLength c body resp_etag).1 = .ok config)
    (hreq : ∀ x debug_log, parse_config_json cJSON_ParseWithLength body = .ok (x, debug_log) → debug_log = true) :
    (use_body cJSON_ParseWithLength c body resp_etag).2.s_request_debug_log = true ↔
      c.s_request_debug_log = true ∨ ¬(c.config_cache_valid = true ∧ crc32_ieee body = c.cached_config_crc) := by
  unfold use_body at h ⊢
  by_cases hhit : c.config_cache_valid = true ∧ crc32_ieee body = c.cached_config_crc
  · simp [hhit]
  · rw [if_neg hhit] at h ⊢
    cases hparse : parse_config_json cJSON_ParseWithLength body with
    | error e =>
      rw [hparse] at h
      cases h
    | ok r =>
      simp [hreq r.1 r.2 hparse, hhit]

/-- After a fetch there is a flag if there was one or a body came that is not in the cache. -/
theorem fetch_flag {c : ConfigClient} {e : LoggedSync} {config : Config}
    (h : (eink_http_fetch_config cJSON_ParseWithLength c e.file e.answers).1 = .ok config)
    (hreq : ∀ body ∈ arrived c e.file e.answers, ∀ x debug_log,
      parse_config_json cJSON_ParseWithLength body = .ok (x, debug_log) → debug_log = true) :
    (eink_http_fetch_config cJSON_ParseWithLength c e.file e.answers).2.s_request_debug_log = true ↔
      c.s_request_debug_log = true ∨
        ∃ body ∈ arrived c e.file e.answers,
          ¬(c.config_cache_valid = true ∧ crc32_ieee body = c.cached_config_crc) := by
  unfold eink_http_fetch_config at h ⊢
  unfold arrived at hreq ⊢
  split at h
  · cases h
  · next hon =>
    rw [if_neg hon]
    split at h
    · next hfix =>
      rw [if_pos hfix] at hreq ⊢
      cases hf : e.file with
      | error _ =>
        rw [hf] at h
        cases h
      | ok body =>
        rw [hf] at h hreq
        rw [if_pos hfix]
        exact (use_body_flag h (hreq body rfl)).trans (by simp [Except.toOption])
    · next hfix =>
      dsimp only at h hreq ⊢
      rw [if_neg hfix] at hreq ⊢
      split at h
      · cases h
      · next hret =>
        split at h
        · next h304 =>
          split at h
          · next hvalid => simp [hret, h304, hvalid, hfix]
          · cases h
        · next h304 =>
          have hgot : ¬((get_config c e.answers).ret ≠ 0 ∨ (get_config c e.answers).status = 304) :=
            fun hor => hor.elim hret h304
          rw [if_neg hgot] at hreq ⊢
          rw [if_neg hret, if_neg h304, if_neg hfix]
          exact (use_body_flag h (hreq _ rfl)).trans (by simp)

/-- A sync with a configuration uploads the log if the fetch leaves the flag. -/
theorem logged_sync_upload {s : LogNode} {e : LoggedSync} {config : Config}
    (h : (eink_http_fetch_config cJSON_ParseWithLength s.config e.file e.answers).1 = .ok config) :
    (logged_sync b lib cJSON_ParseWithLength s e).1.2.2 =
      if (eink_http_fetch_config cJSON_ParseWithLength s.config e.file e.answers).2.s_request_debug_log then
        some e.upload else none := by
  unfold logged_sync full_sync_with_log
  simp only [h, bind_app, pure_app, eink_http_maybe_upload_debug_log]
  cases (eink_http_fetch_config cJSON_ParseWithLength s.config e.file e.answers).2.s_request_debug_log <;> rfl

/-- A sync uploads the log if and only if the flag is there or the body is new. -/
theorem uploads_iff {s : LogNode} {e : LoggedSync} (hok : FetchSucceeds cJSON_ParseWithLength s e)
    (hreq : ServesRequest cJSON_ParseWithLength s e) :
    Uploads b lib cJSON_ParseWithLength s e ↔ GetsNewBody s e := by
  unfold FetchSucceeds at hok
  cases hf : (eink_http_fetch_config cJSON_ParseWithLength s.config e.file e.answers).1 with
  | error _ =>
    rw [hf] at hok
    cases hok
  | ok config =>
    refine forall_congr' fun hopen => ?_
    rw [logged_sync_upload hf, ← fetch_flag hf (hreq hopen)]
    cases (eink_http_fetch_config cJSON_ParseWithLength s.config e.file e.answers).2.s_request_debug_log <;> simp

/-! ## A run -/

/-- In a run of syncs that have their configuration and find the request in every
body, each one uploads the log until that succeeds if and only if each one finds
the flag of an earlier fetch or gets a body that is not in the cache. -/
theorem debug_log_retried_iff {s : LogNode} {es : List LoggedSync}
    (hok : Meets (log_step b lib cJSON_ParseWithLength) (FetchSucceeds cJSON_ParseWithLength) s es)
    (hreq : Meets (log_step b lib cJSON_ParseWithLength) (ServesRequest cJSON_ParseWithLength) s es) :
    Meets (log_step b lib cJSON_ParseWithLength) (Uploads b lib cJSON_ParseWithLength) s es ↔
      Meets (log_step b lib cJSON_ParseWithLength) GetsNewBody s es :=
  meets_congr (hok.and hreq) fun _ _ h => uploads_iff h.1 h.2

/-! ## A server that keeps its configuration -/

def requestBody : Bytes := ascii "\x7b\"request_debug_log\":true\x7d"

/-- Another body with the same content. -/
def requestAgain : Bytes := requestBody ++ ascii "\n"

/-- The JSON library on these bodies. -/
def parseRequest (json : Bytes) : Option Json :=
  if json = requestBody ∨ json = requestAgain then some (.object [(ascii "request_debug_log", .bool true)]) else none

def logNode : LogNode :=
  ⟨⟨1800000000, .reset, none, none⟩,
    .start ⟨true, true, .copy 192 (ascii "https://api.dev.e-tabelone.com"), .copy 64 (ascii "1"),
      .copy 256 (ascii "t0ken")⟩,
    .calm fun _ => none, false⟩

/-- The server answers with the body, and the upload ends with `upload`. -/
def syncWithLog (answer : Answer) (upload : Int) : LoggedSync where
  sync := { waits := fun _ => 0, clock := ⟨0, .ok 1800000000, 0⟩, fast_tick := ⟨0, true, 0, 0, 0⟩,
            fast_repaint := ⟨0, true, 0, 0, 0⟩, fast_telem := 0, config := .error 0, primary := [],
            tick := ⟨0, true, 0, 0, 0⟩, repaint := ⟨0, true, 0, 0, 0⟩, telem := 0, gallery := fun _ => [] }
  clock := 1800000000
  file := .error (-ENOENT)
  answers := [answer]
  upload := upload

def requestAnswer : Answer := ⟨0, [requestBody], 0, 200, none, some (ascii "v1")⟩

def notModified : Answer := ⟨0, [], 0, 304, none, none⟩

/-- The first upload fails, and the server answers the second request as in `answer`. -/
def uploadFails (answer : Answer) : List LoggedSync :=
  [syncWithLog requestAnswer (-EIOERR), syncWithLog answer (-EIOERR)]

theorem servesRequest_parseRequest (s : LogNode) (e : LoggedSync) : ServesRequest parseRequest s e := by
  intro _ body _ config debug_log h
  unfold parse_config_json parseRequest at h
  by_cases hb : body = requestBody ∨ body = requestAgain
  · rw [if_pos hb] at h
    have hlog := (Prod.mk.inj (Except.ok.inj h)).2
    rw [← hlog]
    decide +kernel
  · rw [if_neg hb] at h
    cases h

instance (s : LogNode) (e : LoggedSync) : Decidable (FetchSucceeds parseRequest s e) :=
  inferInstanceAs (Decidable (_ = _))

instance (s : LogNode) (e : LoggedSync) : Decidable (Uploads pollBuild noLz4 parseRequest s e) :=
  inferInstanceAs (Decidable (_ → _))

/-- The first upload fails, and the server answers the second request with another body. -/
def bodyRenewed : List LoggedSync :=
  [syncWithLog requestAnswer (-EIOERR), syncWithLog ⟨0, [requestAgain], 0, 200, none, some (ascii "v2")⟩ 0]

instance (s : LogNode) (e : LoggedSync) : Decidable (GetsNewBody s e) :=
  inferInstanceAs (Decidable (_ → _))

/-- After the upload has failed, the new body makes the node try again. -/
theorem debug_log_retried_iff_renewed :
    Meets (log_step pollBuild noLz4 parseRequest) (Uploads pollBuild noLz4 parseRequest) logNode bodyRenewed ∧
      (run (log_step pollBuild noLz4 parseRequest) logNode (bodyRenewed.take 1)).uploaded = false ∧
      (run (log_step pollBuild noLz4 parseRequest) logNode bodyRenewed).uploaded = true := by
  have hserves : Meets (log_step pollBuild noLz4 parseRequest) (ServesRequest parseRequest) logNode bodyRenewed :=
    ⟨servesRequest_parseRequest _ _, servesRequest_parseRequest _ _, trivial⟩
  refine ⟨(debug_log_retried_iff (by decide +kernel) hserves).2 (by decide +kernel), ?_, ?_⟩
  · decide +kernel
  · decide +kernel

/-- Every fetch of the run succeeds and finds the request, and still some sync does not upload the log. -/
def NotRetried (es : List LoggedSync) : Prop :=
  Meets (log_step pollBuild noLz4 parseRequest) (FetchSucceeds parseRequest) logNode es ∧
    Meets (log_step pollBuild noLz4 parseRequest) (ServesRequest parseRequest) logNode es ∧
    ¬Meets (log_step pollBuild noLz4 parseRequest) (Uploads pollBuild noLz4 parseRequest) logNode es

/-- After the upload has failed, neither the same body nor a 304 makes the node try again. -/
theorem upload_not_retried : NotRetried (uploadFails requestAnswer) ∧ NotRetried (uploadFails notModified) := by
  have hserves (answer : Answer) : Meets (log_step pollBuild noLz4 parseRequest) (ServesRequest parseRequest) logNode
      (uploadFails answer) := ⟨servesRequest_parseRequest _ _, servesRequest_parseRequest _ _, trivial⟩
  constructor
  · exact ⟨by decide +kernel, hserves _, by decide +kernel⟩
  · exact ⟨by decide +kernel, hserves _, by decide +kernel⟩

end EinkNode.Http
