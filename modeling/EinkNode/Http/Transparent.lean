import EinkNode.Http.Bearer
import EinkNode.Http.ConfigCache
import EinkNode.Lib.Runs
/-!
# Is the cache transparent?

What a fetch yields ought to be what the server has at that time. The client
sends one `ETag` to whatever URL is configured; a 304 makes it use the one
configuration that it has kept.
-/
open NodeLib

namespace EinkNode.Http

/-! ## Servers -/

/-- What there is under a URL. -/
inductive Resource
  | page (body : Bytes) (etag : Option Bytes)
  | moved (location : Bytes)
  | missing

abbrev Server := UrlParts → Resource

/-- The request is for a body that has not this `ETag`. -/
def Request.if_none_match (r : Request) (etag : Bytes) : Prop :=
  ascii "If-None-Match: " ++ etag ++ ascii "\r\n" ∈ r.headers

/-- Neither a body nor a redirect nor a 304. -/
def Answer.refused (a : Answer) : Prop :=
  a.status ≠ 304 ∧ (a.status < 200 ∨ 300 ≤ a.status) ∧ is_redirect a.reply = false

/-- What a server may answer that has `res` under the URL: an error, or what is
there. A 304 only goes to a request that names the `ETag` of the body. -/
def Honest (res : Resource) (r : Request) (a : Answer) : Prop :=
  a.ret < 0 ∨ a.refused ∨
    match res with
    | .page body etag =>
      (a.status = 304 ∧ ∃ e ∈ etag, r.if_none_match e) ∨
      (200 ≤ a.status ∧ a.status < 300 ∧ a.frags.flatten = body ∧ (a.etag = none ∨ a.etag = etag))
    | .moved location => is_redirect a.reply = true ∧ a.location = some location
    | .missing => False

/-- Each request has its answer from the server. -/
def Answered (server : Server) : List Request → List Answer → Prop
  | [], _ => True
  | r :: rs, answers => Honest (server r.parts) r (answers.headD .dead) ∧ Answered server rs answers.tail

instance (r : Request) (etag : Bytes) : Decidable (r.if_none_match etag) := inferInstanceAs (Decidable (_ ∈ _))

instance (a : Answer) : Decidable a.refused := inferInstanceAs (Decidable (_ ∧ _))

instance (res : Resource) (r : Request) (a : Answer) : Decidable (Honest res r a) :=
  match res with
  | .page _ _ => inferInstanceAs (Decidable (_ ∨ _ ∨ _))
  | .moved _ => inferInstanceAs (Decidable (_ ∨ _ ∨ _))
  | .missing => inferInstanceAs (Decidable (_ ∨ _ ∨ _))

instance (server : Server) : ∀ (sent : List Request) (answers : List Answer), Decidable (Answered server sent answers)
  | [], _ => inferInstanceAs (Decidable True)
  | _ :: rs, answers =>
    have := instDecidableAnswered server rs answers.tail
    inferInstanceAs (Decidable (_ ∧ _))

/-- The body under a URL, over at most `left` redirects. -/
def current_body (server : Server) : Nat → Bytes → Option Bytes
  | left, url =>
    match parse_url url with
    | .error _ => none
    | .ok u =>
      match server u with
      | .page body _ => some body
      | .missing => none
      | .moved location =>
        match left with
        | 0 => none
        | left + 1 =>
          current_body server left
            (resolve_redirect url (cstring (location.take (EINK_HTTP_LOCATION_MAX - 1))) EINK_HTTP_URL_MAX)

/-! ## What a request for a body gets -/

section
variable {auth_token : CStr 256} {server : Server}

theorem body_response_cb_eq {cap : Nat} {buf body : Bytes} {frags : List Bytes}
    (h : body_response_cb cap buf frags = .ok body) : body = buf ++ frags.flatten := by
  induction frags generalizing buf with
  | nil =>
    cases h
    simp
  | cons frag frags ih =>
    rw [body_response_cb] at h
    split at h
    · cases h
    · rw [ih h, List.append_assoc, List.flatten_cons]

theorem do_http_body_eq {cap : Nat} {a : Answer} {body : Bytes} (h : do_http_body cap a = .ok body) :
    body = a.frags.flatten := by
  unfold do_http_body at h
  split at h
  · cases h
  · next hcb =>
    split at h
    · cases h
    · cases h
      exact body_response_cb_eq hcb

theorem ret_of_to_memory {cap : Nat} {a : Answer} (h : a.to_memory cap = true) : 0 ≤ a.ret := by
  rw [Answer.to_memory, Bool.and_eq_true, decide_eq_true_eq, decide_eq_true_eq] at h
  exact h.2

theorem do_http_body_neg {cap : Nat} {a : Answer} {e : Int} (h : do_http_body cap a = .error e) : e < 0 := by
  have hcb : ∀ buf, NegErr (body_response_cb cap buf a.frags) := by
    induction a.frags with
    | nil => exact fun _ => trivial
    | cons frag frags ih =>
      intro buf
      rw [body_response_cb]
      split
      · exact (negErr_error _).2 (by decide)
      · exact ih _
  unfold do_http_body at h
  split at h
  · next hc =>
    cases h
    have := hcb []
    rw [hc] at this
    exact this
  · split at h
    · cases h
      assumption
    · cases h

/-- Only the extra header starts like one that names an `ETag`. -/
theorem mem_request_headers {send_auth : Bool} {extra : Option Bytes} {etag : Bytes}
    (h : ascii "If-None-Match: " ++ etag ++ ascii "\r\n" ∈ request_headers auth_token send_auth extra) :
    extra = some (ascii "If-None-Match: " ++ etag ++ ascii "\r\n") := by
  have hhead : (ascii "If-None-Match: " ++ etag ++ ascii "\r\n").head? = some 73 := rfl
  generalize ascii "If-None-Match: " ++ etag ++ ascii "\r\n" = hdr at h hhead
  unfold request_headers at h
  rcases List.mem_append.1 h with h | h
  · rcases List.mem_append.1 h with h | h
    · simp only [List.mem_cons, List.not_mem_nil, or_false] at h
      rcases h with rfl | rfl
      · exact absurd hhead (by decide)
      · exact absurd hhead (by decide)
    · split at h
      · rw [List.mem_singleton] at h
        subst h
        exact absurd hhead (by simp [snprintf, ascii])
      · cases h
  · simpa using (List.mem_filter.1 h).1

theorem is_redirect_status {a : Answer} (h : is_redirect a.reply = true) :
    a.status ≠ 304 ∧ (a.status < 200 ∨ 300 ≤ a.status) := by
  have hstatus : a.reply.status = a.status := rfl
  simp only [is_redirect, Bool.and_eq_true, Bool.or_eq_true, decide_eq_true_eq] at h
  obtain ⟨h, -⟩ := h
  omega

/-- A request that ends well was answered with a 304 or with the body. -/
theorem finish_of_honest {res : Resource} {r request : Request} {a : Answer} {etag_out : Bytes} (hh : Honest res r a)
    (ha : 0 ≤ a.ret) (hret : (finish_get_body a a.frags.flatten etag_out request).ret = 0) :
    (a.status = 304 ∧ (finish_get_body a a.frags.flatten etag_out request).status = 304 ∧
      ∃ body e, res = .page body (some e) ∧ r.if_none_match e) ∨
    ((finish_get_body a a.frags.flatten etag_out request).status ≠ 304 ∧
      (finish_get_body a a.frags.flatten etag_out request).body = a.frags.flatten ∧
      ∃ etag, res = .page a.frags.flatten etag ∧ (a.etag = none ∨ a.etag = etag)) := by
  have hanswer : (a.status = 304 ∧ ∃ body e, res = .page body (some e) ∧ r.if_none_match e) ∨
      (200 ≤ a.status ∧ a.status < 300 ∧ ∃ etag, res = .page a.frags.flatten etag ∧ (a.etag = none ∨ a.etag = etag)) ∨
      (a.status ≠ 304 ∧ (a.status < 200 ∨ 300 ≤ a.status)) := by
    rcases hh with hneg | hrefused | hres
    · omega
    · exact .inr (.inr ⟨hrefused.1, hrefused.2.1⟩)
    · cases res with
      | page body etag =>
        rcases hres with ⟨h304, e, rfl, hmatch⟩ | ⟨hlo, hhi, rfl, hetag⟩
        · exact .inl ⟨h304, body, e, rfl, hmatch⟩
        · exact .inr (.inl ⟨hlo, hhi, etag, rfl, hetag⟩)
      | moved location => exact .inr (.inr (is_redirect_status hres.1))
      | missing => cases hres
  unfold finish_get_body at hret ⊢
  rcases hanswer with ⟨h304, hpage⟩ | ⟨hlo, hhi, hpage⟩ | ⟨h304, hout⟩
  · rw [if_pos h304]
    exact .inl ⟨h304, h304, hpage⟩
  · have h304 : a.status ≠ 304 := by omega
    rw [if_neg h304, if_neg (show ¬(a.status < 200 ∨ a.status ≥ 300) by omega)]
    exact .inr ⟨h304, rfl, hpage⟩
  · rw [if_neg h304, if_pos hout] at hret
    exact absurd hret (show ¬-EIOERR = 0 by decide)

/-- The end of a fetch without a redirect. -/
theorem body_of_finish (left : Nat) {current : Bytes} {u : UrlParts} {extra : Option Bytes} {a : Answer}
    {etag_out : Bytes}
    (hu : parse_url current = .ok u) (hh : Honest (server u) ⟨u, request_headers auth_token true extra⟩ a)
    (ha : 0 ≤ a.ret) {request : Request}
    (hret : (finish_get_body a a.frags.flatten etag_out request).ret = 0) :
    ((finish_get_body a a.frags.flatten etag_out request).status = 304 ∧ a.status = 304 ∧
      ∃ u body e, parse_url current = .ok u ∧ server u = .page body (some e) ∧
        extra = some (ascii "If-None-Match: " ++ e ++ ascii "\r\n")) ∨
    ((finish_get_body a a.frags.flatten etag_out request).status ≠ 304 ∧
      (finish_get_body a a.frags.flatten etag_out request).body = a.frags.flatten ∧
      current_body server left current = some a.frags.flatten) := by
  rcases finish_of_honest hh ha hret with ⟨ha304, h304, body, e, hres, hmatch⟩ | ⟨h304, hbody, etag, hres, -⟩
  · exact .inl ⟨h304, ha304, u, body, e, hu, hres, mem_request_headers hmatch⟩
  · refine .inr ⟨h304, hbody, ?_⟩
    unfold current_body
    rw [hu]
    dsimp only
    rw [hres]

/-- A redirect leads where the server has moved the resource to. -/
theorem moved_of_redirect {res : Resource} {r : Request} {a : Answer} {location : Bytes} (hh : Honest res r a)
    (ha : 0 ≤ a.ret) (hloc : a.redirect = some location) :
    ∃ v, res = .moved v ∧ location = cstring (v.take (EINK_HTTP_LOCATION_MAX - 1)) := by
  have hred : is_redirect a.reply = true := by
    rw [is_redirect_eq, hloc]
    rfl
  have hstatus := is_redirect_status hred
  rcases hh with hneg | hrefused | hres
  · omega
  · exact absurd hred (by rw [hrefused.2.2]; exact Bool.false_ne_true)
  · cases res with
    | page body etag => omega
    | missing => cases hres
    | moved v =>
      refine ⟨v, rfl, ?_⟩
      rw [Answer.redirect, if_pos hred, Answer.location_value, hres.2] at hloc
      exact (Option.some.inj hloc).symm

/-- A turn of `http_get_body` in a fetch that ends well is the last one, or it is redirected. -/
theorem get_body_turn {cap left : Nat} {current : Bytes} {extra : Option Bytes} {status : Int} {etag_out : Bytes}
    {answers : List Answer}
    (hret : (get_body_loop auth_token true cap left current extra status etag_out answers).ret = 0) :
    ∃ u, parse_url current = .ok u ∧ 0 ≤ (answers.headD .dead).connect ∧
      (answers.headD .dead).to_memory cap = true ∧
      ((left = 0 ∨ (answers.headD .dead).redirect = none) ∧
        get_body_loop auth_token true cap left current extra status etag_out answers =
          finish_get_body (answers.headD .dead) (answers.headD .dead).frags.flatten
            ((answers.headD .dead).etag_value.getD etag_out) ⟨u, request_headers auth_token true extra⟩ ∨
      ∃ n location rest, left = n + 1 ∧ (answers.headD .dead).redirect = some location ∧
        rest = get_body_loop auth_token true cap n (resolve_redirect current location EINK_HTTP_URL_MAX) none
          (answers.headD .dead).status ((answers.headD .dead).etag_value.getD etag_out) answers.tail ∧
        get_body_loop auth_token true cap left current extra status etag_out answers =
          { rest with sent := ⟨u, request_headers auth_token true extra⟩ :: rest.sent }) := by
  generalize hf : get_body_loop auth_token true cap left current extra status etag_out answers = f at hret ⊢
  unfold get_body_loop at hf
  dsimp only at hf
  cases hr : start_request auth_token current true extra (answers.headD .dead) with
  | error e =>
    rw [hr] at hf
    subst hf
    exact absurd hret (Int.ne_of_lt (start_request_neg hr))
  | ok request =>
    obtain ⟨u, hu, hc, rfl⟩ := start_request_ok hr
    refine ⟨u, hu, hc, ?_⟩
    rw [hr] at hf
    cases hb : do_http_body cap (answers.headD .dead) with
    | error e =>
      rw [hb] at hf
      subst hf
      exact absurd hret (Int.ne_of_lt (do_http_body_neg hb))
    | ok body =>
      refine ⟨(do_http_body_ok cap _).1 ⟨body, hb⟩, ?_⟩
      obtain rfl := do_http_body_eq hb
      rw [hb] at hf
      dsimp only at hf
      cases left with
      | zero => exact .inl ⟨.inl rfl, hf.symm⟩
      | succ n =>
        cases hloc : (answers.headD .dead).redirect with
        | none =>
          rw [hloc] at hf
          exact .inl ⟨.inr rfl, hf.symm⟩
        | some location =>
          rw [hloc] at hf
          exact .inr ⟨n, location, _, rfl, rfl, rfl, hf.symm⟩

/-- What the answers of a server are to a request for a body: a 304 to the first
request, for the `ETag` that it names, or the body that is there. -/
theorem body_of_answers {cap left : Nat} {current : Bytes} {extra : Option Bytes} {status : Int} {etag_out : Bytes}
    {answers : List Answer} {f : Fetched}
    (hf : get_body_loop auth_token true cap left current extra status etag_out answers = f)
    (h : Answered server f.sent answers) (hret : f.ret = 0) :
    (f.status = 304 ∧ (answers.headD .dead).status = 304 ∧
      ∃ u body e, parse_url current = .ok u ∧ server u = .page body (some e) ∧
        extra = some (ascii "If-None-Match: " ++ e ++ ascii "\r\n")) ∨
    (f.status ≠ 304 ∧ current_body server left current = some f.body) := by
  induction left using Nat.strong_induction_on generalizing current extra status etag_out answers f with
  | _ left ih =>
    obtain ⟨u, hu, hc, hmem, ⟨-, hturn⟩ | ⟨n, location, rest, rfl, hloc, hrest, hturn⟩⟩ := get_body_turn (hf ▸ hret)
    · rw [hturn] at hf
      subst hf
      rw [sent_finish_get_body] at h
      rcases body_of_finish left hu h.1 (ret_of_to_memory hmem) hret with hnm | ⟨h304, hbody, hcur⟩
      · exact .inl hnm
      · exact .inr ⟨h304, by rw [hcur, hbody]⟩
    · rw [hturn] at hf
      subst hf
      obtain ⟨v, hres, rfl⟩ := moved_of_redirect h.1 (ret_of_to_memory hmem) hloc
      have hnext : current_body server (n + 1) current = current_body server n (resolve_redirect current
          (cstring (v.take (EINK_HTTP_LOCATION_MAX - 1))) EINK_HTTP_URL_MAX) := by
        conv_lhs => unfold current_body
        rw [hu]
        dsimp only
        rw [hres]
      rw [hnext]
      rcases ih n n.lt_succ_self hrest.symm h.2 hret with ⟨-, -, _, _, _, _, _, hextra⟩ | hcur
      · cases hextra
      · exact .inr hcur

/-- A 304 ends the fetch at once. -/
theorem not_modified_eq {cap left : Nat} {current : Bytes} {extra : Option Bytes} {status : Int} {etag_out : Bytes}
    {answers : List Answer} {u : UrlParts} (hu : parse_url current = .ok u) (hc : 0 ≤ (answers.headD .dead).connect)
    (hmem : (answers.headD .dead).to_memory cap = true) (h304 : (answers.headD .dead).status = 304) :
    get_body_loop auth_token true cap left current extra status etag_out answers =
      ⟨0, [], 304, (answers.headD .dead).etag_value.getD etag_out, [⟨u, request_headers auth_token true extra⟩]⟩ := by
  obtain ⟨body, hb⟩ := (do_http_body_ok cap _).2 hmem
  have hloc : (answers.headD .dead).redirect = none := by
    rw [Answer.redirect, if_neg]
    exact fun hred => (is_redirect_status hred).1 h304
  have hfin : finish_get_body (answers.headD .dead) body ((answers.headD .dead).etag_value.getD etag_out)
      ⟨u, request_headers auth_token true extra⟩ =
      ⟨0, [], 304, (answers.headD .dead).etag_value.getD etag_out, [⟨u, request_headers auth_token true extra⟩]⟩ := by
    rw [finish_get_body, if_pos h304, h304]
  unfold get_body_loop
  dsimp only
  rw [start_request_eq hu hc]
  dsimp only
  rw [hb, hloc]
  cases left <;> exact hfin

/-! ## The `ETag` that a request gets -/

@[simp]
theorem etag_finish_get_body (a : Answer) (body etag_out : Bytes) (request : Request) :
    (finish_get_body a body etag_out request).etag_out = etag_out := by
  unfold finish_get_body
  split
  · rfl
  · split <;> rfl

theorem length_etag_value {a : Answer} {etag : Bytes} (hlen : etag.length ≤ 127) :
    (a.etag_value.getD etag).length ≤ 127 := by
  unfold Answer.etag_value
  cases a.etag with
  | none => exact hlen
  | some v =>
    refine (List.takeWhile_prefix _).length_le.trans ?_
    rw [List.length_take]
    exact Nat.min_le_left _ _

theorem length_etag_out {cap left : Nat} {current : Bytes} {extra : Option Bytes} {status : Int} {etag_out : Bytes}
    {answers : List Answer} (hlen : etag_out.length ≤ 127)
    (hret : (get_body_loop auth_token true cap left current extra status etag_out answers).ret = 0) :
    (get_body_loop auth_token true cap left current extra status etag_out answers).etag_out.length ≤ 127 := by
  induction left using Nat.strong_induction_on generalizing current extra status etag_out answers with
  | _ left ih =>
    obtain ⟨u, -, -, -, ⟨-, hturn⟩ | ⟨n, location, rest, rfl, -, rfl, hturn⟩⟩ := get_body_turn hret
    · rw [hturn, etag_finish_get_body]
      exact length_etag_value hlen
    · rw [hturn] at hret ⊢
      exact ih n n.lt_succ_self (length_etag_value hlen) hret

/-- Without a redirect, body and `ETag` are from one response, which is from the URL of the fetch. -/
theorem direct_of_answers {cap left : Nat} {current : Bytes} {extra : Option Bytes} {status : Int}
    {answers : List Answer} {f : Fetched}
    (hf : get_body_loop auth_token true cap left current extra status [] answers = f)
    (h : Answered server f.sent answers) (hret : f.ret = 0) (h304 : f.status ≠ 304)
    (hloc : (answers.headD .dead).redirect = none) (hetag : (answers.headD .dead).etag = some f.etag_out) :
    ∃ u, parse_url current = .ok u ∧ server u = .page f.body (some f.etag_out) := by
  obtain ⟨u, hu, -, hmem, ⟨-, hturn⟩ | ⟨_, _, _, _, hloc', _⟩⟩ := get_body_turn (hf ▸ hret)
  · rw [hturn] at hf
    subst hf
    rw [sent_finish_get_body] at h
    rcases finish_of_honest h.1 (ret_of_to_memory hmem) hret with ⟨-, h304', -⟩ | ⟨-, hbody, etag, hres, hnone | hsome⟩
    · exact absurd h304' h304
    · rw [hnone] at hetag
      cases hetag
    · exact ⟨u, hu, by rw [hres, hbody, ← hsome, hetag]⟩
  · rw [hloc] at hloc'
    cases hloc'

end

/-! ## A run -/

/-- The client, the body whose configuration is in its cache, and the URL and the
body that came in one response with the `ETag` that it keeps. -/
structure CacheNode where
  client : ConfigClient
  body : Bytes
  source : Option (UrlParts × Bytes)

def CacheNode.start (cfg : Credentials) : CacheNode := ⟨.start cfg, [], none⟩

/-- `server` is what there is at the time of the fetch. -/
inductive CacheEvent
  | set_credentials (api_base device_id auth_token : Option Bytes)
  | fetch (server : Server) (file : Except Int Bytes) (answers : List Answer)

def first_url (cfg : Credentials) : Bytes := (CStr.copy EINK_HTTP_URL_MAX (config_url cfg)).val

/-- The URL that a fetch asks, if it asks one. -/
def ConfigClient.asks (c : ConfigClient) : Option UrlParts :=
  if c.cfg.inited && c.cfg.enabled && !c.cfg.fixture then (parse_url (first_url c.cfg)).toOption else none

/-- The `ETag` of the response that a body is from. -/
def ConfigClient.resp_etag (c : ConfigClient) (answers : List Answer) : Bytes :=
  if c.cfg.fixture then [] else (get_config c answers).etag_out

def CacheNode.next_source (s : CacheNode) (answers : List Answer) (body : Bytes) : Option (UrlParts × Bytes) :=
  let etag := s.client.resp_etag answers
  let a := answers.headD .dead
  if etag = [] then s.source
  else if a.redirect = none ∧ a.etag = some etag then s.client.asks.map (·, body)
  else none

variable (cJSON_ParseWithLength : Bytes → Option Json)

def cache_step (s : CacheNode) : CacheEvent → CacheNode
  | .set_credentials api_base device_id auth_token =>
    { s with client := { s.client with cfg := eink_http_set_credentials s.client.cfg api_base device_id auth_token } }
  | .fetch _ file answers =>
    let fetched := eink_http_fetch_config cJSON_ParseWithLength s.client file answers
    match fetched.1, arrived s.client file answers with
    | .ok _, some body => ⟨fetched.2, body, s.next_source answers body⟩
    | _, _ => { s with client := fetched.2 }

section
variable (rules : UrlParts → Bytes → Bytes) (bodies : Set Bytes)

/-- The servers follow the rules for `ETag`s, of which each has one body under a
URL, and the body that arrives is one of `bodies`. -/
def Served (s : CacheNode) : CacheEvent → Prop
  | .set_credentials .. => True
  | .fetch server file answers =>
    (∀ u body etag, server u = .page body (some etag) → body = rules u etag) ∧
    (s.client.cfg.fixture = false → Answered server (get_config s.client answers).sent answers) ∧
    ∀ body ∈ arrived s.client file answers, body ∈ bodies

/-- The body that is current under the URL, or in the file, that is configured. -/
def served_body (cfg : Credentials) (server : Server) (file : Except Int Bytes) : Option Bytes :=
  if cfg.fixture then file.toOption else current_body server EINK_HTTP_MAX_REDIRECTS (first_url cfg)

/-- The configuration in a body. -/
def config_of (body : Bytes) : Option Config := (parse_config_json cJSON_ParseWithLength body).toOption.map (·.1)

/-- A fetch without an error yields the configuration in the body that is current. -/
def Transparent (s : CacheNode) : CacheEvent → Prop
  | .set_credentials .. => True
  | .fetch server file answers =>
    ∀ config ∈ (eink_http_fetch_config cJSON_ParseWithLength s.client file answers).1.toOption,
      (served_body s.client.cfg server file).bind (config_of cJSON_ParseWithLength) = some config

instance (s : CacheNode) (e : CacheEvent) : Decidable (Transparent cJSON_ParseWithLength s e) :=
  match e with
  | .set_credentials .. => inferInstanceAs (Decidable True)
  | .fetch _ _ _ => inferInstanceAs (Decidable (∀ _ ∈ _, _))

/-- The client asks `u` and gets a 304. -/
def NotModified (c : ConfigClient) (answers : List Answer) (u : UrlParts) : Prop :=
  let a := answers.headD .dead
  c.asks = some u ∧ 0 ≤ a.connect ∧ a.to_memory (EINK_HTTP_CFG_BUF - 1) = true ∧ a.status = 304

/-- Where a 304 comes, the `ETag` that is kept is, under the URL that is asked, the
`ETag` of a body with the configuration that is cached. -/
def NamesCached (s : CacheNode) : CacheEvent → Prop
  | .set_credentials .. => True
  | .fetch _ _ answers =>
    ∀ u, NotModified s.client answers u →
      config_of cJSON_ParseWithLength (rules u s.client.cached_config_etag) = config_of cJSON_ParseWithLength s.body

/-- Where a 304 comes, the `ETag` that is kept came with the body of the cache from the URL that is asked. -/
def FromSource (s : CacheNode) : CacheEvent → Prop
  | .set_credentials .. => True
  | .fetch _ _ answers => ∀ u, NotModified s.client answers u → s.source = some (u, s.body)

/-! ## What a fetch keeps -/

/-- The cache has the configuration and the CRC of its body, and the `ETag` is that of its source. -/
structure CacheInv (s : CacheNode) : Prop where
  etag : s.client.cached_config_etag.length ≤ 127
  cached : s.client.config_cache_valid = true →
    (∃ debug_log, parse_config_json cJSON_ParseWithLength s.body = .ok (s.client.cached, debug_log)) ∧
    s.client.cached_config_crc = crc32_ieee s.body ∧ s.body ∈ bodies
  source : ∀ u body, s.source = some (u, body) → rules u s.client.cached_config_etag = body

variable {cJSON_ParseWithLength rules bodies}

variable (cJSON_ParseWithLength) in
/-- A fetch fails and keeps the client, or a 304 yields the cache, or a body arrives. -/
theorem fetch_cases (c : ConfigClient) (file : Except Int Bytes) (answers : List Answer) :
    (∃ e, eink_http_fetch_config cJSON_ParseWithLength c file answers = (.error e, c)) ∨
    ((c.cfg.inited && c.cfg.enabled && !c.cfg.fixture) = true ∧ c.config_cache_valid = true ∧
      (get_config c answers).ret = 0 ∧ (get_config c answers).status = 304 ∧ arrived c file answers = none ∧
      eink_http_fetch_config cJSON_ParseWithLength c file answers = (.ok c.cached, c)) ∨
    ∃ body, (c.cfg.inited && c.cfg.enabled) = true ∧ arrived c file answers = some body ∧
      eink_http_fetch_config cJSON_ParseWithLength c file answers =
        use_body cJSON_ParseWithLength c body (c.resp_etag answers) := by
  unfold eink_http_fetch_config arrived ConfigClient.resp_etag
  by_cases hon : (c.cfg.inited && c.cfg.enabled) = true
  · have hon' : (!c.cfg.inited || !c.cfg.enabled) = false := by
      rw [← Bool.not_and, hon]
      rfl
    rw [hon', if_neg Bool.false_ne_true]
    cases hfix : c.cfg.fixture with
    | true =>
      simp only [if_true]
      cases file with
      | error e => exact .inl ⟨e, rfl⟩
      | ok body => exact .inr (.inr ⟨body, hon, rfl, rfl⟩)
    | false =>
      simp only [Bool.false_eq_true, if_false]
      by_cases hret : (get_config c answers).ret = 0
      · rw [if_neg (not_not.2 hret)]
        by_cases h304 : (get_config c answers).status = 304
        · rw [if_pos h304,
            if_pos (show (get_config c answers).ret ≠ 0 ∨ (get_config c answers).status = 304 from .inr h304)]
          cases hv : c.config_cache_valid with
          | true => exact .inr (.inl ⟨by rw [hon]; rfl, rfl, hret, h304, rfl, rfl⟩)
          | false => exact .inl ⟨-ENOENT, rfl⟩
        · rw [if_neg h304, if_neg (fun h => h.elim (not_not.2 hret) h304)]
          exact .inr (.inr ⟨_, hon, rfl, rfl⟩)
      · rw [if_pos hret]
        exact .inl ⟨_, rfl⟩
  · rw [if_pos]
    · exact .inl ⟨-EINVAL, rfl⟩
    · rw [← Bool.not_and, Bool.not_eq_true']
      exact Bool.eq_false_iff.2 hon

/-- A body that arrives gives its own configuration, which is then the cached one. -/
theorem use_body_ok {s : CacheNode} (hi : CacheInv cJSON_ParseWithLength rules bodies s) {body etag : Bytes}
    (hcrc : ∀ b ∈ bodies, ∀ b' ∈ bodies, crc32_ieee b = crc32_ieee b' → b = b') (hbody : body ∈ bodies)
    {config : Config} (hok : (use_body cJSON_ParseWithLength s.client body etag).1 = .ok config) :
    (∃ debug_log, parse_config_json cJSON_ParseWithLength body = .ok (config, debug_log)) ∧
    (use_body cJSON_ParseWithLength s.client body etag).2.config_cache_valid = true ∧
    (use_body cJSON_ParseWithLength s.client body etag).2.cached = config ∧
    (use_body cJSON_ParseWithLength s.client body etag).2.cached_config_crc = crc32_ieee body ∧
    (use_body cJSON_ParseWithLength s.client body etag).2.cached_config_etag =
      if etag = [] then s.client.cached_config_etag else etag := by
  have hkeep (c : ConfigClient) : (c.keep_etag etag).cached_config_etag =
      if etag = [] then c.cached_config_etag else etag := by
    unfold ConfigClient.keep_etag
    by_cases h : etag = []
    · rw [if_neg (not_not.2 h), if_pos h]
    · rw [if_pos h, if_neg h]
  have hframe (c : ConfigClient) : (c.keep_etag etag).config_cache_valid = c.config_cache_valid ∧
      (c.keep_etag etag).cached = c.cached ∧ (c.keep_etag etag).cached_config_crc = c.cached_config_crc := by
    unfold ConfigClient.keep_etag
    split
    · exact ⟨rfl, rfl, rfl⟩
    · exact ⟨rfl, rfl, rfl⟩
  unfold use_body at hok ⊢
  split at hok
  · next hhit =>
    obtain ⟨hvalid, hsame⟩ := hhit
    obtain ⟨hparse, hcached, hmem⟩ := hi.cached hvalid
    obtain rfl := hcrc _ hbody _ hmem (hsame.trans hcached)
    cases hok
    rw [if_pos ⟨hvalid, hsame⟩]
    obtain ⟨h1, h2, h3⟩ := hframe s.client
    exact ⟨hparse, h1.trans hvalid, h2, h3.trans hcached, hkeep _⟩
  · next hmiss =>
    rw [if_neg hmiss]
    cases hp : parse_config_json cJSON_ParseWithLength body with
    | error e =>
      rw [hp] at hok
      cases hok
    | ok p =>
      obtain ⟨config', debug_log⟩ := p
      rw [hp] at hok
      cases hok
      obtain ⟨h1, h2, h3⟩ := hframe { s.client with
        config_cache_valid := true
        cached_config_crc := crc32_ieee body
        cached := config
        s_request_debug_log := s.client.s_request_debug_log || debug_log }
      exact ⟨⟨debug_log, rfl⟩, h1, h2, h3, hkeep _⟩

theorem use_body_error {c : ConfigClient} {body etag : Bytes} {e : Int}
    (h : (use_body cJSON_ParseWithLength c body etag).1 = .error e) :
    (use_body cJSON_ParseWithLength c body etag).2 = c := by
  unfold use_body at h ⊢
  split at h
  · cases h
  · next hmiss =>
    rw [if_neg hmiss]
    cases hp : parse_config_json cJSON_ParseWithLength body with
    | error e => rfl
    | ok p =>
      rw [hp] at h
      cases h

/-- A 304 is for the `ETag` that is kept, and the first answer. -/
theorem not_modified_of_answers {c : ConfigClient} {answers : List Answer} {server : Server}
    (hon : (c.cfg.inited && c.cfg.enabled && !c.cfg.fixture) = true) (hlen : c.cached_config_etag.length ≤ 127)
    (h : Answered server (get_config c answers).sent answers) (hret : (get_config c answers).ret = 0)
    (h304 : (get_config c answers).status = 304) :
    c.config_cache_valid = true ∧
      ∃ u body, NotModified c answers u ∧ server u = .page body (some c.cached_config_etag) := by
  obtain ⟨-, hstatus, u, body, e, hu, hpage, hextra⟩ | ⟨hne, -⟩ := body_of_answers rfl h hret
  · obtain ⟨_, -, hc, hmem, -⟩ := get_body_turn hret
    have hnamed : c.config_cache_valid = true ∧ c.cached_config_etag = e := by
      unfold if_none_hdr ConfigClient.if_none at hextra
      cases hv : c.config_cache_valid with
      | false =>
        rw [hv, if_neg Bool.false_ne_true, if_pos rfl] at hextra
        cases hextra
      | true =>
        rw [hv, if_pos rfl] at hextra
        split at hextra
        · cases hextra
        · have hhdr := Option.some.inj hextra
          rw [snprintf, List.take_of_length_le] at hhdr
          · exact ⟨rfl, List.append_cancel_left (List.append_cancel_right hhdr)⟩
          · have hname : (ascii "If-None-Match: ").length = 15 := rfl
            have heol : (ascii "\r\n").length = 2 := rfl
            rw [List.length_append, List.length_append]
            omega
    obtain ⟨hv, rfl⟩ := hnamed
    refine ⟨hv, u, body, ⟨?_, hc, hmem, hstatus⟩, hpage⟩
    rw [ConfigClient.asks, if_pos hon, show parse_url (first_url c.cfg) = .ok u from hu]
    rfl
  · exact absurd h304 hne

/-- Where a body arrives in a response, the fetch has ended well and not with a 304. -/
theorem get_config_of_arrived {c : ConfigClient} {file : Except Int Bytes} {answers : List Answer} {body : Bytes}
    (hfix : c.cfg.fixture = false) (harr : arrived c file answers = some body) :
    (get_config c answers).ret = 0 ∧ (get_config c answers).status ≠ 304 ∧ (get_config c answers).body = body := by
  unfold arrived at harr
  rw [hfix, if_neg Bool.false_ne_true] at harr
  dsimp only at harr
  split at harr
  · cases harr
  · next hgot =>
    obtain ⟨hret, hne⟩ := not_or.1 hgot
    exact ⟨not_not.1 hret, hne, Option.some.inj harr⟩

/-- The body that arrives is the one that is current. -/
theorem served_of_arrived {c : ConfigClient} {file : Except Int Bytes} {answers : List Answer} {server : Server}
    {body : Bytes} (h : c.cfg.fixture = false → Answered server (get_config c answers).sent answers)
    (harr : arrived c file answers = some body) : served_body c.cfg server file = some body := by
  cases hfix : c.cfg.fixture with
  | true =>
    rw [served_body, hfix, if_pos rfl]
    rw [arrived, hfix, if_pos rfl] at harr
    exact harr
  | false =>
    obtain ⟨hret, hne, rfl⟩ := get_config_of_arrived hfix harr
    rw [served_body, hfix, if_neg Bool.false_ne_true]
    obtain ⟨h304, -⟩ | ⟨-, hcur⟩ := body_of_answers rfl (h hfix) hret
    · exact absurd h304 hne
    · exact hcur

theorem length_resp_etag {c : ConfigClient} {file : Except Int Bytes} {answers : List Answer} {body : Bytes}
    (harr : arrived c file answers = some body) : (c.resp_etag answers).length ≤ 127 := by
  unfold ConfigClient.resp_etag
  cases hfix : c.cfg.fixture with
  | true => exact Nat.zero_le _
  | false => exact length_etag_out (Nat.zero_le _) (get_config_of_arrived hfix harr).1

/-- The `ETag` of a source has the body of the source. -/
theorem rules_of_next_source {s : CacheNode} {server : Server} {file : Except Int Bytes} {answers : List Answer}
    {body : Bytes} (hi : CacheInv cJSON_ParseWithLength rules bodies s)
    (hserved : Served rules bodies s (.fetch server file answers)) (harr : arrived s.client file answers = some body)
    {u : UrlParts} {b : Bytes} (hsource : s.next_source answers body = some (u, b)) :
    rules u (if s.client.resp_etag answers = [] then s.client.cached_config_etag
      else s.client.resp_etag answers) = b := by
  unfold CacheNode.next_source at hsource
  dsimp only at hsource
  by_cases hetag : s.client.resp_etag answers = []
  · rw [if_pos hetag] at hsource ⊢
    exact hi.source u b hsource
  · rw [if_neg hetag] at hsource ⊢
    split at hsource
    · next hdirect =>
      obtain ⟨u', hasks, hpair⟩ := Option.map_eq_some_iff.1 hsource
      cases hpair
      have hfix : s.client.cfg.fixture = false := by
        unfold ConfigClient.resp_etag at hetag
        exact Bool.eq_false_iff.2 fun hfix => hetag (if_pos hfix)
      have hresp : s.client.resp_etag answers = (get_config s.client answers).etag_out := by
        rw [ConfigClient.resp_etag, hfix, if_neg Bool.false_ne_true]
      rw [hresp] at hdirect ⊢
      obtain ⟨hret, hne, rfl⟩ := get_config_of_arrived hfix harr
      obtain ⟨v, hv, hpage⟩ := direct_of_answers rfl (hserved.2.1 hfix) hret hne hdirect.1 hdirect.2
      have huv : u = v := by
        unfold ConfigClient.asks at hasks
        split at hasks
        · rw [show parse_url (first_url s.client.cfg) = .ok v from hv] at hasks
          exact (Option.some.inj hasks).symm
        · cases hasks
      rw [huv]
      exact (hserved.1 v _ _ hpage).symm
    · cases hsource

/-! ## Transparency -/

theorem cacheInv_step {s : CacheNode} {e : CacheEvent}
    (hcrc : ∀ b ∈ bodies, ∀ b' ∈ bodies, crc32_ieee b = crc32_ieee b' → b = b') (hserved : Served rules bodies s e)
    (hi : CacheInv cJSON_ParseWithLength rules bodies s) :
    CacheInv cJSON_ParseWithLength rules bodies (cache_step cJSON_ParseWithLength s e) := by
  cases e with
  | set_credentials => exact ⟨hi.etag, hi.cached, hi.source⟩
  | fetch server file answers =>
    obtain ⟨hrules, hanswers, hbodies⟩ := hserved
    rcases fetch_cases cJSON_ParseWithLength s.client file answers with
      ⟨e, hf⟩ | ⟨-, -, -, -, harr, hf⟩ | ⟨body, hon, harr, hf⟩
    · simp only [cache_step, hf]
      exact hi
    · simp only [cache_step, hf, harr]
      exact hi
    · have hmem := hbodies body harr
      cases hr : (use_body cJSON_ParseWithLength s.client body (s.client.resp_etag answers)).1 with
      | error e =>
        simp only [cache_step, hf, hr, use_body_error hr]
        exact hi
      | ok config =>
        obtain ⟨hparse, hvalid, hcached, hnew, hetag⟩ := use_body_ok hi hcrc hmem hr
        simp only [cache_step, hf, hr, harr]
        refine ⟨?_, fun _ => ⟨hcached ▸ hparse, hnew, hmem⟩, fun u b hsource => ?_⟩
        · rw [hetag]
          split
          · exact hi.etag
          · exact length_resp_etag harr
        · rw [hetag]
          exact rules_of_next_source hi ⟨hrules, hanswers, hbodies⟩ harr hsource

theorem config_of_eq_some {body : Bytes} {config : Config} :
    config_of cJSON_ParseWithLength body = some config ↔
      ∃ debug_log, parse_config_json cJSON_ParseWithLength body = .ok (config, debug_log) := by
  unfold config_of
  cases parse_config_json cJSON_ParseWithLength body with
  | error e => simp [Except.toOption]
  | ok p =>
    obtain ⟨config', debug_log⟩ := p
    simp [Except.toOption]

/-- A 304 to the first request is what the fetch ends with. -/
theorem get_config_of_not_modified {c : ConfigClient} {answers : List Answer} {u : UrlParts}
    (h : NotModified c answers u) :
    (c.cfg.inited && c.cfg.enabled && !c.cfg.fixture) = true ∧ parse_url (first_url c.cfg) = .ok u ∧
      (get_config c answers).ret = 0 ∧ (get_config c answers).status = 304 := by
  obtain ⟨hasks, hc, hmem, h304⟩ := h
  unfold ConfigClient.asks at hasks
  split at hasks
  · next hon =>
    cases hu : parse_url (first_url c.cfg) with
    | error e =>
      rw [hu] at hasks
      cases hasks
    | ok v =>
      rw [hu] at hasks
      cases hasks
      have hgot : get_config c answers = _ := not_modified_eq hu hc hmem h304
      rw [hgot]
      exact ⟨hon, rfl, rfl, rfl⟩
  · cases hasks

theorem served_page {c : ConfigClient} {server : Server} {file : Except Int Bytes} {u : UrlParts} {body : Bytes}
    {etag : Option Bytes} (hfix : c.cfg.fixture = false) (hu : parse_url (first_url c.cfg) = .ok u)
    (hpage : server u = .page body etag) : served_body c.cfg server file = some body := by
  rw [served_body, hfix, if_neg Bool.false_ne_true]
  unfold current_body
  rw [hu]
  dsimp only
  rw [hpage]

/-- A fetch is transparent if and only if its 304 is for the configuration in the cache. -/
theorem transparent_iff_names {s : CacheNode} {e : CacheEvent}
    (hcrc : ∀ b ∈ bodies, ∀ b' ∈ bodies, crc32_ieee b = crc32_ieee b' → b = b') (hserved : Served rules bodies s e)
    (hi : CacheInv cJSON_ParseWithLength rules bodies s) :
    Transparent cJSON_ParseWithLength s e ↔ NamesCached cJSON_ParseWithLength rules s e := by
  cases e with
  | set_credentials => exact Iff.rfl
  | fetch server file answers =>
    obtain ⟨hrules, hanswers, hbodies⟩ := hserved
    have hfix (hon : (s.client.cfg.inited && s.client.cfg.enabled && !s.client.cfg.fixture) = true) :
        s.client.cfg.fixture = false := by
      rw [Bool.and_eq_true, Bool.not_eq_true'] at hon
      exact hon.2
    have hcached (hv : s.client.config_cache_valid = true) :
        config_of cJSON_ParseWithLength s.body = some s.client.cached := config_of_eq_some.2 (hi.cached hv).1
    constructor
    · intro htransparent u hn
      obtain ⟨hon, hu, hret, h304⟩ := get_config_of_not_modified hn
      obtain ⟨hv, v, body, ⟨hasks, -⟩, hpage⟩ :=
        not_modified_of_answers hon hi.etag (hanswers (hfix hon)) hret h304
      obtain rfl : u = v := Option.some.inj (hn.1.symm.trans hasks)
      have hf : (eink_http_fetch_config cJSON_ParseWithLength s.client file answers).1.toOption =
          some s.client.cached := by
        have hinited : (!s.client.cfg.inited || !s.client.cfg.enabled) = false := by
          rw [← Bool.not_and, (Bool.and_eq_true_iff.1 hon).1]
          rfl
        simp [eink_http_fetch_config, hinited, hfix hon, hret, h304, hv, Except.toOption]
      have hserves := htransparent _ hf
      rw [served_page (hfix hon) hu hpage, Option.bind_some] at hserves
      rw [← hrules u body _ hpage, hserves, hcached hv]
    · intro hnames config hok
      rcases fetch_cases cJSON_ParseWithLength s.client file answers with
        ⟨e, hf⟩ | ⟨hon, hv, hret, h304, -, hf⟩ | ⟨body, -, harr, hf⟩
      · rw [hf] at hok
        cases hok
      · rw [hf] at hok
        cases hok
        obtain ⟨-, u, body, hn, hpage⟩ := not_modified_of_answers hon hi.etag (hanswers (hfix hon)) hret h304
        have hnamed := hnames u hn
        rw [← hrules u body _ hpage, hcached hv] at hnamed
        rw [served_page (hfix hon) (get_config_of_not_modified hn).2.1 hpage, Option.bind_some]
        exact hnamed
      · rw [hf] at hok
        have hused : (use_body cJSON_ParseWithLength s.client body (s.client.resp_etag answers)).1 = .ok config := by
          cases hr : (use_body cJSON_ParseWithLength s.client body (s.client.resp_etag answers)).1 with
          | error e =>
            rw [hr] at hok
            cases hok
          | ok config' =>
            rw [hr] at hok
            rw [Option.some.inj hok]
        rw [served_of_arrived hanswers harr, Option.bind_some]
        exact config_of_eq_some.2 (use_body_ok hi hcrc (hbodies body harr) hused).1

/-- Under servers with the rules for `ETag`s, and without a collision of CRCs, the
cache is transparent in a run if and only if every 304 is for an `ETag` that has,
under the URL that is asked, the configuration that is cached. So it is where the
`ETag` came from that URL with the body of the cache. -/
theorem transparent_iff (cJSON_ParseWithLength : Bytes → Option Json) (rules : UrlParts → Bytes → Bytes)
    (bodies : Set Bytes) (hcrc : ∀ b ∈ bodies, ∀ b' ∈ bodies, crc32_ieee b = crc32_ieee b' → b = b')
    (cfg : Credentials) (es : List CacheEvent)
    (hserved : Meets (cache_step cJSON_ParseWithLength) (Served rules bodies) (.start cfg) es) :
    (Meets (cache_step cJSON_ParseWithLength) (Transparent cJSON_ParseWithLength) (.start cfg) es ↔
      Meets (cache_step cJSON_ParseWithLength) (NamesCached cJSON_ParseWithLength rules) (.start cfg) es) ∧
    (Meets (cache_step cJSON_ParseWithLength) FromSource (.start cfg) es →
      Meets (cache_step cJSON_ParseWithLength) (NamesCached cJSON_ParseWithLength rules) (.start cfg) es) := by
  have hstart : CacheInv cJSON_ParseWithLength rules bodies (.start cfg) := ⟨Nat.zero_le _, nofun, nofun⟩
  constructor
  · have hiff : Meets (cache_step cJSON_ParseWithLength)
        (fun s e => Transparent cJSON_ParseWithLength s e ↔ NamesCached cJSON_ParseWithLength rules s e)
          (.start cfg) es :=
      meets_of_inv (CacheInv cJSON_ParseWithLength rules bodies) hstart hserved
        (fun _ _ hs hi => cacheInv_step hcrc hs hi) fun _ _ hs hi => transparent_iff_names hcrc hs hi
    exact meets_congr hiff fun _ _ h => h
  · intro hsource
    refine meets_of_inv (CacheInv cJSON_ParseWithLength rules bodies) hstart (hserved.and hsource)
      (fun _ _ hs hi => cacheInv_step hcrc hs.1 hi) fun s e hs hi => ?_
    cases e with
    | set_credentials => trivial
    | fetch server file answers =>
      intro u hn
      rw [hi.source u s.body (hs.2 u hn)]

/-! ## Two bodies with one `ETag` -/

def landscape : Bytes := ascii "\x7b\"orientation\":90\x7d"

def portrait : Bytes := ascii "\x7b\"orientation\":180\x7d"

/-- The JSON library on the two bodies. -/
def parseTurns (json : Bytes) : Option Json :=
  if json = landscape then some (.object [(ascii "orientation", .number 90)])
  else if json = portrait then some (.object [(ascii "orientation", .number 180)])
  else none

def apiCredentials : Credentials :=
  ⟨true, true, .copy 192 (ascii "https://api.dev.e-tabelone.com"), .copy 64 (ascii "1"), deviceToken⟩

/-- The API has one body and every other host has another. -/
def turnsByHost (u : UrlParts) : Bytes := if u.host = ascii "api.dev.e-tabelone.com" then landscape else portrait

def pages (body : UrlParts → Bytes) (etag : Option Bytes) : Server := fun u => .page (body u) etag

def bodyAnswer (body : Bytes) (etag : Option Bytes) : Answer := ⟨0, [body], 0, 200, none, etag⟩

def v1 : Option Bytes := some (ascii "\"v1\"")

/-- A body, a 304 for it, and another body. -/
def bodyChanges : List CacheEvent :=
  [.fetch (pages (fun _ => landscape) v1) (.error 0) [bodyAnswer landscape v1],
   .fetch (pages (fun _ => landscape) v1) (.error 0) [⟨0, [], 0, 304, none, v1⟩],
   .fetch (pages (fun _ => portrait) none) (.error 0) [bodyAnswer portrait none]]

/-- The `ETag` of one host goes to another. -/
def otherHost : List CacheEvent :=
  [.fetch (pages turnsByHost v1) (.error 0) [bodyAnswer landscape v1],
   .set_credentials (some (ascii "https://portal.e-tabelone.com")) none none,
   .fetch (pages turnsByHost v1) (.error 0) [⟨0, [], 0, 304, none, v1⟩]]

/-- The `ETag` of an earlier body; the body after it has none. -/
def earlierBody : List CacheEvent :=
  [.fetch (pages (fun _ => landscape) v1) (.error 0) [bodyAnswer landscape v1],
   .fetch (pages (fun _ => portrait) none) (.error 0) [bodyAnswer portrait none],
   .fetch (pages (fun _ => landscape) v1) (.error 0) [⟨0, [], 0, 304, none, v1⟩]]

def turnBodies : Set Bytes := {b | b ∈ [landscape, portrait]}

instance : DecidablePred (· ∈ turnBodies) := fun b => inferInstanceAs (Decidable (b ∈ [landscape, portrait]))

theorem crc_turns : ∀ b ∈ turnBodies, ∀ b' ∈ turnBodies, crc32_ieee b = crc32_ieee b' → b = b' := by
  have h : ∀ b ∈ [landscape, portrait], ∀ b' ∈ [landscape, portrait], crc32_ieee b = crc32_ieee b' → b = b' := by
    decide +kernel
  exact h

theorem pages_rules {f : UrlParts → Bytes} {etag : Option Bytes} (u : UrlParts)
    (body e : Bytes) (h : pages f etag u = .page body (some e)) : body = f u := by
  cases h
  rfl

instance (s : CacheNode) (e : CacheEvent) : Decidable (FromSource s e) :=
  match e with
  | .set_credentials .. => inferInstanceAs (Decidable True)
  | .fetch _ _ answers =>
    decidable_of_iff
      (∀ u ∈ s.client.asks, 0 ≤ (answers.headD .dead).connect ∧
        (answers.headD .dead).to_memory (EINK_HTTP_CFG_BUF - 1) = true ∧ (answers.headD .dead).status = 304 →
          s.source = some (u, s.body))
      ⟨fun h u hn => h u hn.1 hn.2, fun h u hu hn => h u ⟨hu, hn⟩⟩

/-- The 304 is for the body of the cache, from its URL, and each fetch yields what the server has. -/
theorem transparent_iff_bodyChanges :
    Meets (cache_step parseTurns) (Transparent parseTurns) (.start apiCredentials) bodyChanges ∧
      Meets (cache_step parseTurns)
        (NamesCached parseTurns fun _ etag => if some etag = v1 then landscape else portrait)
        (.start apiCredentials) bodyChanges := by
  have hserved : Meets (cache_step parseTurns)
      (Served (fun _ etag => if some etag = v1 then landscape else portrait) turnBodies)
      (.start apiCredentials) bodyChanges := by
    refine ⟨⟨?_, ?_, ?_⟩, ⟨?_, ?_, ?_⟩, ⟨?_, ?_, ?_⟩, trivial⟩
    · rintro u body etag ⟨⟩
      exact (if_pos rfl).symm
    · decide +kernel
    · decide +kernel
    · rintro u body etag ⟨⟩
      exact (if_pos rfl).symm
    · decide +kernel
    · decide +kernel
    · rintro u body etag ⟨⟩
    · decide +kernel
    · decide +kernel
  have hsource : Meets (cache_step parseTurns) FromSource (.start apiCredentials) bodyChanges := by decide +kernel
  obtain ⟨hiff, hnames⟩ := transparent_iff parseTurns _ turnBodies crc_turns apiCredentials bodyChanges hserved
  exact ⟨hiff.2 (hnames hsource), hnames hsource⟩

/-- With the `ETag` of another URL, or of a body before the cached one, a 304
yields a configuration that the server has not. -/
theorem stale_config_served :
    (∀ b ∈ turnBodies, ∀ b' ∈ turnBodies, crc32_ieee b = crc32_ieee b' → b = b') ∧
    (∃ rules, Meets (cache_step parseTurns) (Served rules turnBodies) (.start apiCredentials) otherHost) ∧
    ¬Meets (cache_step parseTurns) (Transparent parseTurns) (.start apiCredentials) otherHost ∧
    (∃ rules, Meets (cache_step parseTurns) (Served rules turnBodies) (.start apiCredentials) earlierBody) ∧
    ¬Meets (cache_step parseTurns) (Transparent parseTurns) (.start apiCredentials) earlierBody := by
  refine ⟨crc_turns, ⟨fun u _ => turnsByHost u, ⟨pages_rules, ?_, ?_⟩, trivial, ⟨pages_rules, ?_, ?_⟩, trivial⟩, ?_,
    ⟨fun _ _ => landscape, ⟨pages_rules, ?_, ?_⟩, ⟨?_, ?_, ?_⟩, ⟨pages_rules, ?_, ?_⟩, trivial⟩, ?_⟩
  · decide +kernel
  · decide +kernel
  · decide +kernel
  · decide +kernel
  · decide +kernel
  · decide +kernel
  · decide +kernel
  · rintro u body etag ⟨⟩
  · decide +kernel
  · decide +kernel
  · decide +kernel
  · decide +kernel
  · decide +kernel

end

end EinkNode.Http
