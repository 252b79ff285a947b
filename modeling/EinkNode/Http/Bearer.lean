import EinkNode.Http.Redirect
/-!
# Where the token goes

A response may send a request on to another host. `http_get_body` takes the
`Authorization` header along, and `http_download_to_file` leaves it out only for
URLs with `.amazonaws.com` in their text.
-/
open NodeLib EinkNode.Store

namespace EinkNode.Http

/-! ## Who gets the token -/

/-- The request has the token of the device. -/
def Request.bearer (r : Request) : Bool := r.headers.any (ascii "Authorization: Bearer ").isPrefixOf

/-- The origin of the URL that the fetch starts with, and not under `amazonaws.com`. -/
def Home (url : Bytes) (o : Origin) : Prop := origin (cstring url) = some o ∧ o.under_amazonaws = false

instance (url : Bytes) (o : Origin) : Decidable (Home url o) := inferInstanceAs (Decidable (_ ∧ _))

/-- Every request with the token goes home. -/
def TokenStays (url : Bytes) (sent : List Request) : Prop := ∀ r ∈ sent, r.bearer = true → Home url r.parts.origin

instance (url : Bytes) (sent : List Request) : Decidable (TokenStays url sent) :=
  inferInstanceAs (Decidable (∀ r ∈ sent, r.bearer = true → Home url r.parts.origin))

/-- The `Location` of a response from `u` leads home: it has a scheme and names
that origin, or it has none and the host of `u` at the default port is home. -/
def LeadsHome (url : Bytes) (u : UrlParts) (location : Bytes) : Prop :=
  if is_absolute location then ∀ v, parse_url location = .ok v → Home url v.origin else Home url u.site_origin

/-- The body fits into the buffer and the client reports no error. -/
def Answer.to_memory (cap : Nat) (a : Answer) : Bool := (a.frags.flatten.length ≤ cap) && 0 ≤ a.ret

/-- The body is no picture and the client reports no error. -/
def Answer.to_file (a : Answer) : Bool :=
  !looks_like_jpeg_or_png (((a.frags.filter (· ≠ [])).headD []).take 8) && 0 ≤ a.ret

section
variable (url : Bytes) (stripped : Bytes → Bool) (received : Answer → Bool)

/-- Every redirect that is followed leads home or to a URL without the header.
Nothing is asked of one that ends in no connection. -/
def SafeFrom : Nat → Bytes → List Answer → Prop
  | 0, _, _ => True
  | left + 1, current, answers =>
    let a := answers.headD .dead
    ∀ u location, parse_url current = .ok u → 0 ≤ a.connect → received a = true → a.redirect = some location →
      let next := resolve_redirect current location EINK_HTTP_URL_MAX
      (0 ≤ (answers.tail.headD .dead).connect → stripped next = true ∨ LeadsHome url u location) ∧
        SafeFrom left next answers.tail

/-- The first host may have the token, and the redirects are safe. -/
def RedirectsSafe (answers : List Answer) : Prop :=
  let current := (CStr.copy EINK_HTTP_URL_MAX url).val
  (∀ u, parse_url current = .ok u → 0 ≤ (answers.headD .dead).connect →
    stripped current = true ∨ u.origin.under_amazonaws = false) ∧
  SafeFrom url stripped received EINK_HTTP_MAX_REDIRECTS current answers

/-- The origins that get the token. -/
def carriers : Nat → Bytes → List Answer → List Origin
  | left, current, answers =>
    let a := answers.headD .dead
    match parse_url current with
    | .error _ => []
    | .ok u =>
      if a.connect < 0 then []
      else
        let rest :=
          match left, a.redirect with
          | left + 1, some location =>
            if received a then carriers left (resolve_redirect current location EINK_HTTP_URL_MAX) answers.tail else []
          | _, _ => []
        if stripped current then rest else u.origin :: rest

end

/-! ## One hop -/

variable {auth_token : CStr 256}

theorem bearer_of_auth (htoken : auth_token.val ≠ []) (u : UrlParts) (extra : Option Bytes) :
    (Request.mk u (request_headers auth_token true extra)).bearer = true := by
  have hhdr : (ascii "Authorization: Bearer ").isPrefixOf
      (snprintf 320 (ascii "Authorization: Bearer " ++ auth_token.val ++ ascii "\r\n")) = true := by
    rw [List.isPrefixOf_iff_prefix, snprintf, List.append_assoc]
    exact List.prefix_take_iff.2 ⟨List.prefix_append _ _, by decide⟩
  rw [Request.bearer, List.any_eq_true]
  exact ⟨_, by simp [request_headers, htoken], hhdr⟩

theorem not_bearer_of_no_auth (u : UrlParts) :
    (Request.mk u (request_headers auth_token false none)).bearer = false := by
  simp [Request.bearer, request_headers, ascii, List.isPrefixOf]

/-- A request is sent if the URL parses and there is a connection. -/
theorem start_request_eq {url : Bytes} {u : UrlParts} {a : Answer} (hu : parse_url url = .ok u) (hc : 0 ≤ a.connect)
    (send_auth : Bool) (extra : Option Bytes) :
    start_request auth_token url send_auth extra a = .ok ⟨u, request_headers auth_token send_auth extra⟩ := by
  rw [start_request, hu]
  exact if_neg (by omega)

theorem body_response_cb_ok (cap : Nat) (buf : Bytes) (frags : List Bytes) (hbuf : buf.length ≤ cap) :
    (∃ body, body_response_cb cap buf frags = .ok body) ↔ buf.length + frags.flatten.length ≤ cap := by
  induction frags generalizing buf with
  | nil => simpa [body_response_cb] using hbuf
  | cons frag frags ih =>
    rw [body_response_cb, List.flatten_cons, List.length_append]
    split
    · next h =>
      constructor
      · rintro ⟨body, ⟨⟩⟩
      · intro h'
        omega
    · rw [ih _ (by rw [List.length_append]; omega), List.length_append, Nat.add_assoc]

theorem do_http_body_ok (cap : Nat) (a : Answer) :
    (∃ body, do_http_body cap a = .ok body) ↔ a.to_memory cap = true := by
  have hcb := body_response_cb_ok cap [] a.frags (Nat.zero_le _)
  rw [List.length_nil, Nat.zero_add] at hcb
  rw [Answer.to_memory, Bool.and_eq_true, decide_eq_true_eq, decide_eq_true_eq, ← hcb]
  unfold do_http_body
  cases body_response_cb cap [] a.frags with
  | error e => simp
  | ok body =>
    by_cases h : a.ret < 0
    · simp [h]
    · have h0 : 0 ≤ a.ret := by omega
      simp [h, h0]

/-! ## Safe redirects -/

section
variable {url : Bytes} {stripped : Bytes → Bool} {received : Answer → Bool}

theorem length_location_value {a : Answer} {location : Bytes} (h : a.redirect = some location) :
    location.length < EINK_HTTP_LOCATION_MAX := by
  unfold Answer.redirect at h
  split at h
  · obtain ⟨v, -, rfl⟩ := Option.map_eq_some_iff.1 h
    have hlen := (List.takeWhile_prefix (p := (· ≠ 0)) (l := v.take (EINK_HTTP_LOCATION_MAX - 1))).length_le
    rw [List.length_take] at hlen
    show (List.takeWhile _ _).length < _
    simp only [EINK_HTTP_LOCATION_MAX] at *
    omega
  · cases h

/-- The next request goes home if and only if the `Location` leads home. -/
theorem home_next_iff {current location : Bytes} {u : UrlParts} (hu : parse_url current = .ok u)
    (hlen : location.length < EINK_HTTP_LOCATION_MAX) :
    (∀ v, parse_url (resolve_redirect current location EINK_HTTP_URL_MAX) = .ok v → Home url v.origin) ↔
      LeadsHome url u location := by
  unfold LeadsHome
  cases ha : is_absolute location with
  | true => rw [resolve_absolute ha (hlen.trans (by decide)), if_pos rfl]
  | false =>
    obtain ⟨v, hv, hsite⟩ := resolve_relative hu ha hlen
    rw [if_neg Bool.false_ne_true, hv]
    constructor
    · intro h
      rw [← hsite]
      exact h v rfl
    · rintro h w ⟨⟩
      rw [hsite]
      exact h

/-- A request of the first hop, or one that a redirect leads to. -/
theorem mem_carriers {left : Nat} {current : Bytes} {answers : List Answer} {o : Origin} :
    o ∈ carriers stripped received left current answers ↔
      ∃ u, parse_url current = .ok u ∧ 0 ≤ (answers.headD .dead).connect ∧
        (stripped current = false ∧ o = u.origin ∨
          ∃ n location, left = n + 1 ∧ received (answers.headD .dead) = true ∧
            (answers.headD .dead).redirect = some location ∧
            o ∈ carriers stripped received n (resolve_redirect current location EINK_HTTP_URL_MAX) answers.tail) := by
  conv_lhs => unfold carriers
  generalize answers.headD .dead = a
  cases hu : parse_url current with
  | error e => simp
  | ok u =>
    by_cases hc : a.connect < 0
    · simp [hc]
    · have hc' : 0 ≤ a.connect := by omega
      cases left with
      | zero => cases stripped current <;> simp [hc, hc']
      | succ n =>
        cases hr : a.redirect with
        | none => cases stripped current <;> simp [hc, hc', hr]
        | some location => cases hrec : received a <;> cases stripped current <;> simp [hc, hc', hr, hrec]

/-- The token goes home if and only if the first hop and the redirects are safe. -/
theorem carriers_home_iff (left : Nat) (current : Bytes) (answers : List Answer) :
    (∀ o ∈ carriers stripped received left current answers, Home url o) ↔
      (∀ u, parse_url current = .ok u → 0 ≤ (answers.headD .dead).connect →
        stripped current = true ∨ Home url u.origin) ∧ SafeFrom url stripped received left current answers := by
  induction left generalizing current answers with
  | zero =>
    constructor
    · intro h
      refine ⟨fun u hu hc => ?_, trivial⟩
      cases hs : stripped current with
      | true => exact .inl rfl
      | false => exact .inr (h _ (mem_carriers.2 ⟨u, hu, hc, .inl ⟨hs, rfl⟩⟩))
    · rintro ⟨h, -⟩ o ho
      obtain ⟨u, hu, hc, ⟨hs, rfl⟩ | ⟨n, _, hn, _⟩⟩ := mem_carriers.1 ho
      · exact (h u hu hc).resolve_left (by rw [hs]; exact Bool.false_ne_true)
      · cases hn
  | succ left ih =>
    -- What is asked of the next hop, in terms of the `Location` that leads to it.
    have hnext {u : UrlParts} {location : Bytes} (hu : parse_url current = .ok u)
        (hloc : (answers.headD .dead).redirect = some location) :
        (∀ o ∈ carriers stripped received left (resolve_redirect current location EINK_HTTP_URL_MAX) answers.tail,
          Home url o) ↔
        (0 ≤ (answers.tail.headD .dead).connect →
          stripped (resolve_redirect current location EINK_HTTP_URL_MAX) = true ∨ LeadsHome url u location) ∧
        SafeFrom url stripped received left (resolve_redirect current location EINK_HTTP_URL_MAX) answers.tail := by
      rw [ih, ← home_next_iff hu (length_location_value hloc)]
      refine and_congr_left fun _ => ⟨fun h hc => ?_, fun h v hv hc => ?_⟩
      · cases hs : stripped (resolve_redirect current location EINK_HTTP_URL_MAX) with
        | true => exact .inl rfl
        | false => exact .inr fun v hv => (h v hv hc).resolve_left (by rw [hs]; exact Bool.false_ne_true)
      · exact (h hc).imp_right fun hhome => hhome v hv
    constructor
    · intro h
      refine ⟨fun u hu hc => ?_, fun u location hu hc hrec hloc => (hnext hu hloc).1 fun o ho => h o ?_⟩
      · cases hs : stripped current with
        | true => exact .inl rfl
        | false => exact .inr (h _ (mem_carriers.2 ⟨u, hu, hc, .inl ⟨hs, rfl⟩⟩))
      · exact mem_carriers.2 ⟨u, hu, hc, .inr ⟨left, location, rfl, hrec, hloc, ho⟩⟩
    · rintro ⟨hfirst, hsafe⟩ o ho
      obtain ⟨u, hu, hc, ⟨hs, rfl⟩ | ⟨n, location, hn, hrec, hloc, ho⟩⟩ := mem_carriers.1 ho
      · exact (hfirst u hu hc).resolve_left (by rw [hs]; exact Bool.false_ne_true)
      · cases hn
        exact (hnext hu hloc).2 (hsafe u location hu hc hrec hloc) o ho

theorem carriers_safe_iff (answers : List Answer) :
    (∀ o ∈ carriers stripped received EINK_HTTP_MAX_REDIRECTS (CStr.copy EINK_HTTP_URL_MAX url).val answers,
      Home url o) ↔ RedirectsSafe url stripped received answers := by
  rw [carriers_home_iff, RedirectsSafe]
  refine and_congr_left fun _ => ⟨fun h u hu hc => ?_, fun h u hu hc => ?_⟩
  · exact (h u hu hc).imp_right fun hhome => hhome.2
  · exact (h u hu hc).imp_right fun ho => ⟨origin_of_copy hu, ho⟩

end

/-! ## The requests that are sent -/

theorem mem_get_body {cap left : Nat} {current : Bytes} {extra : Option Bytes} {status : Int} {etag_out : Bytes}
    {answers : List Answer} {r : Request} :
    r ∈ (get_body_loop auth_token true cap left current extra status etag_out answers).sent ↔
      ∃ u, parse_url current = .ok u ∧ 0 ≤ (answers.headD .dead).connect ∧
        (r = ⟨u, request_headers auth_token true extra⟩ ∨
          ∃ n location, left = n + 1 ∧ (answers.headD .dead).to_memory cap = true ∧
            (answers.headD .dead).redirect = some location ∧
            r ∈ (get_body_loop auth_token true cap n (resolve_redirect current location EINK_HTTP_URL_MAX) none
              (answers.headD .dead).status ((answers.headD .dead).etag_value.getD etag_out) answers.tail).sent) := by
  conv_lhs => unfold get_body_loop
  generalize answers.headD .dead = a
  have hbody := do_http_body_ok cap a
  cases hu : parse_url current with
  | error e => simp [start_request, hu]
  | ok u =>
    by_cases hc : a.connect < 0
    · simp [start_request, hu, hc]
    · have hc' : 0 ≤ a.connect := by omega
      cases hb : do_http_body cap a with
      | error e =>
        have hmem : a.to_memory cap = false := by simpa [hb] using hbody
        simp [start_request, hu, hc, hc', hb, hmem]
      | ok body =>
        have hmem : a.to_memory cap = true := hbody.1 ⟨body, hb⟩
        cases left with
        | zero => simp [start_request, hu, hc, hc', hb]
        | succ n =>
          cases hr : a.redirect with
          | none => simp [start_request, hu, hc, hc', hb, hr]
          | some location => simp [start_request, hu, hc, hc', hb, hr, hmem]

/-- The requests of `http_get_body` with the token. -/
theorem get_body_carriers (htoken : auth_token.val ≠ []) (cap left : Nat) (current : Bytes) (extra : Option Bytes)
    (status : Int) (etag_out : Bytes) (answers : List Answer) (o : Origin) :
    (∃ r ∈ (get_body_loop auth_token true cap left current extra status etag_out answers).sent,
      r.bearer = true ∧ r.parts.origin = o) ↔
    o ∈ carriers (fun _ => false) (·.to_memory cap) left current answers := by
  induction left using Nat.strong_induction_on generalizing current extra status etag_out answers with
  | _ left ih =>
    rw [mem_carriers]
    constructor
    · rintro ⟨r, hr, hb, rfl⟩
      obtain ⟨u, hu, hc, rfl | ⟨n, location, rfl, hrec, hloc, hr⟩⟩ := mem_get_body.1 hr
      · exact ⟨u, hu, hc, .inl ⟨rfl, rfl⟩⟩
      · exact ⟨u, hu, hc, .inr ⟨n, location, rfl, hrec, hloc, (ih n n.lt_succ_self _ _ _ _ _).1 ⟨r, hr, hb, rfl⟩⟩⟩
    · rintro ⟨u, hu, hc, ⟨-, rfl⟩ | ⟨n, location, rfl, hrec, hloc, ho⟩⟩
      · exact ⟨_, mem_get_body.2 ⟨u, hu, hc, .inl rfl⟩, bearer_of_auth htoken u extra, rfl⟩
      · obtain ⟨r, hr, hb, ho⟩ := (ih n n.lt_succ_self _ none (answers.headD .dead).status
          ((answers.headD .dead).etag_value.getD etag_out) _).2 ho
        exact ⟨r, mem_get_body.2 ⟨u, hu, hc, .inr ⟨n, location, rfl, hrec, hloc, hr⟩⟩, hb, ho⟩

/-! ## The requests of a download -/

/-- What comes before the first byte is written decides on a body. -/
theorem response_cb_checks (tmp : Path) (frags : List Bytes) :
    Always (fun err => err = 0 → looks_like_jpeg_or_png ((frags.headD []).take 8) = false)
      (download_response_cb tmp 0 frags) := by
  cases frags with
  | nil => exact always_pure fun _ => rfl
  | cons frag frags =>
    refine always_ite (fun _ => always_pure fun h => absurd h (by decide)) fun h => always_then fun _ => ?_
    intro d _
    simpa using h

theorem response_cb_calm (tmp : Path) (frags : List Bytes) (off : Nat) (files : Path → Option Bytes)
    (hne : ∀ frag ∈ frags, frag ≠ []) (h : off = 0 → looks_like_jpeg_or_png ((frags.headD []).take 8) = false) :
    (download_response_cb tmp off frags (.calm files)).1 = 0 := by
  induction frags generalizing off files with
  | nil => rfl
  | cons frag frags ih =>
    have hpos : 0 < frag.length := List.length_pos_iff.2 (hne frag (by simp))
    have hhead : ¬(off = 0 ∧ looks_like_jpeg_or_png (frag.take 8) = true) := by
      rintro ⟨h0, hp⟩
      rw [show looks_like_jpeg_or_png (frag.take 8) = false from h h0] at hp
      cases hp
    rw [download_response_cb, if_neg hhead, bind_app, fs_write_calm]
    dsimp only
    rw [if_neg (fun hn => hn rfl)]
    exact ih _ _ (fun f hf => hne f (by simp [hf])) (fun h0 => by omega)

theorem to_file_iff {a : Answer} :
    a.to_file = true ↔ looks_like_jpeg_or_png (((a.frags.filter (· ≠ [])).headD []).take 8) = false ∧ 0 ≤ a.ret := by
  rw [Answer.to_file, Bool.and_eq_true, Bool.not_eq_true', decide_eq_true_eq]

theorem request_to_file_checks (tmp : Path) (a : Answer) :
    Always (fun ret => ret = 0 → a.to_file = true) (request_to_file tmp a.reply) := by
  have hhttp : Always (fun ret => ret = 0 → a.to_file = true) (do_http tmp a.reply) := by
    refine always_bind (response_cb_checks tmp (a.frags.filter (· ≠ []))) fun err herr => always_pure fun h => ?_
    by_cases he : err = 0
    · rw [if_neg (fun hn => hn he)] at h
      have hret : 0 ≤ a.ret := by
        by_contra hneg
        rw [if_pos (show a.reply.ret < 0 from not_le.1 hneg)] at h
        exact hneg h.ge
      exact to_file_iff.2 ⟨herr he, hret⟩
    · rw [if_pos he] at h
      exact absurd h he
  refine always_bind hhttp fun ret hret => always_ite (fun h0 _ _ => hret h0) fun hne => ?_
  exact always_pure fun h => absurd h hne

/-- On a disk that does not fail, the checks are all. -/
theorem request_to_file_calm (tmp : Path) {a : Answer} (h : a.to_file = true) (files : Path → Option Bytes) :
    ∃ files', request_to_file tmp a.reply (.calm files) = (0, .calm files') := by
  obtain ⟨hpic, hret⟩ := to_file_iff.1 h
  obtain ⟨files', hcb⟩ : ∃ files', download_response_cb tmp 0 (a.frags.filter (· ≠ [])) (.calm files)
      = (0, .calm files') :=
    ⟨_, Prod.ext
      (response_cb_calm tmp _ 0 files (fun f hf => by simpa using (List.mem_filter.1 hf).2) fun _ => hpic)
      ((touches_response_cb (W := (· = tmp)) rfl _ 0) (.calm files)).eq_calm⟩
  have hhttp : do_http tmp a.reply (.calm files) = (0, .calm files') := by
    rw [do_http, bind_app]
    show (pure _ : FS Int) _ = _
    rw [show a.reply.frags = a.frags from rfl, hcb, pure_app, if_neg (fun h => h rfl),
      if_neg (show ¬a.reply.ret < 0 from not_lt.2 hret)]
  refine ⟨files', ?_⟩
  rw [request_to_file, bind_app, hhttp]
  simp [fs_sync]

theorem parse_url_negErr (url : Bytes) : NegErr (parse_url url) := by
  have herr (n : Int) (hn : n < 0) : NegErr (.error n : Except Int UrlParts) := hn
  unfold parse_url
  split
  · exact herr _ (by decide)
  · dsimp only
    split
    · exact herr _ (by decide)
    · split
      · exact herr _ (by decide)
      · split
        · trivial
        · split
          · exact herr _ (by decide)
          · trivial

theorem start_request_neg {url : Bytes} {send_auth : Bool} {extra : Option Bytes} {a : Answer} {e : Int}
    (h : start_request auth_token url send_auth extra a = .error e) : e < 0 := by
  have hurl := parse_url_negErr url
  unfold start_request at h
  split at h
  · next hu =>
    cases h
    rw [hu] at hurl
    exact hurl
  · split at h
    · cases h
      assumption
    · cases h

/-- Without a URL or a connection there is an error. -/
theorem turn_error_ne {url : Bytes} {send_auth : Bool} {extra : Option Bytes} {a : Answer} {e : Int}
    (h : start_request auth_token url send_auth extra a = .error e) (tmp : Path) :
    Always (· ≠ 0) (request_to_file tmp (Redirect.turn_reply (.error e) a)) := by
  have hneg := start_request_neg h
  intro d h0
  simp [request_to_file, do_http, Redirect.turn_reply, download_response_cb, hneg, hneg.ne] at h0

theorem start_request_ok {url : Bytes} {send_auth : Bool} {extra : Option Bytes} {a : Answer} {r : Request}
    (h : start_request auth_token url send_auth extra a = .ok r) :
    ∃ u, parse_url url = .ok u ∧ 0 ≤ a.connect ∧ r = ⟨u, request_headers auth_token send_auth extra⟩ := by
  unfold start_request at h
  split at h
  · cases h
  · next u hu =>
    split at h
    · cases h
    · next hc => exact ⟨u, hu, not_lt.1 hc, (Except.ok.inj h).symm⟩

theorem is_redirect_eq (a : Answer) : is_redirect a.reply = a.redirect.isSome := by
  unfold Answer.redirect Answer.location_value
  cases hr : is_redirect a.reply with
  | false => rfl
  | true =>
    simp only [is_redirect, Bool.and_eq_true] at hr
    simpa [Answer.reply] using hr.2.symm

/-- A turn that goes well has a response. -/
theorem turn_reply_eq (auth_token : CStr 256) (url : Bytes) (send_auth : Bool) (a : Answer) (tmp : Path) (d : Disk Path)
    (h : (request_to_file tmp (Redirect.turn_reply (start_request auth_token url send_auth none a) a) d).1 = 0) :
    Redirect.turn_reply (start_request auth_token url send_auth none a) a = a.reply := by
  cases hr : start_request auth_token url send_auth none a with
  | error e =>
    rw [hr] at h
    exact absurd h (turn_error_ne hr tmp d)
  | ok r => rfl

theorem download_loop_succ (path tmp : Path) (left : Nat) (reply : Reply) (replies : List Reply) :
    download_loop path tmp (left + 1) (reply :: replies) = (do
      let ret ← fs_open tmp true true
      if ret < 0 then pure ret
      else
        let ret ← request_to_file tmp reply
        if ret ≠ 0 then
          let _ ← fs_unlink tmp
          pure ret
        else if is_redirect reply then
          let _ ← fs_unlink tmp
          download_loop path tmp left replies
        else finish_download path tmp reply) := rfl

/-- With the replies of its turns, the download without a URL does the same to the disk. -/
theorem download_loop_eq (send_auth : Bool) (path tmp : Path) (left : Nat) (current : Bytes) (answers : List Answer)
    (d : Disk Path) :
    ((Redirect.download_loop auth_token send_auth path tmp left current answers d).1.1,
      (Redirect.download_loop auth_token send_auth path tmp left current answers d).2) =
    download_loop path tmp left (Redirect.turn_replies auth_token send_auth left current answers) d := by
  induction left generalizing current answers d with
  | zero =>
    unfold Redirect.download_loop Redirect.turn_replies
    dsimp only
    generalize hreply : Redirect.turn_reply _ _ = reply
    unfold download_loop
    simp only [bind_app, List.headD_cons]
    split
    · rfl
    · simp only [bind_app]
      split
      · rfl
      · next hret =>
        subst hreply
        rw [turn_reply_eq _ _ _ _ _ _ (not_not.1 hret)]
        rfl
  | succ left ih =>
    unfold Redirect.download_loop Redirect.turn_replies
    dsimp only
    have hok (d : Disk Path) := turn_reply_eq auth_token current (send_auth && !is_s3_url current) (answers.headD .dead)
      tmp d
    generalize Redirect.turn_reply _ _ = reply at hok ⊢
    rw [download_loop_succ]
    simp only [bind_app]
    split
    · rfl
    · simp only [bind_app]
      split
      · rfl
      · next hret =>
        obtain rfl := hok _ (not_not.1 hret)
        have hcond := is_redirect_eq (answers.headD .dead)
        cases hred : (answers.headD .dead).redirect with
        | none =>
          rw [hred, Option.isSome_none] at hcond
          rw [if_neg (Bool.eq_false_iff.1 hcond)]
          rfl
        | some location =>
          rw [hred, Option.isSome_some] at hcond
          rw [if_pos hcond]
          exact ih _ _ _

theorem download_to_file_eq (send_auth : Bool) (url : Bytes) (path : Path) (answers : List Answer) (d : Disk Path) :
    ((Redirect.http_download_to_file auth_token url send_auth path answers d).1.1,
      (Redirect.http_download_to_file auth_token url send_auth path answers d).2) =
    http_download_to_file path (Redirect.turn_replies auth_token send_auth EINK_HTTP_MAX_REDIRECTS
      (CStr.copy EINK_HTTP_URL_MAX url).val answers) d := by
  unfold Redirect.http_download_to_file http_download_to_file
  split
  · rfl
  · exact download_loop_eq send_auth path _ _ _ answers d

/-- The request of a turn has the token only if its URL is one of the `carriers`. -/
theorem turn_carrier {current : Bytes} {answers : List Answer} (left : Nat) {q : Request}
    (hq : q ∈ (start_request auth_token current (true && !is_s3_url current) none
      (answers.headD .dead)).toOption.toList) (hb : q.bearer = true) :
    q.parts.origin ∈ carriers is_s3_url Answer.to_file left current answers := by
  cases hr : start_request auth_token current (true && !is_s3_url current) none (answers.headD .dead) with
  | error e =>
    rw [hr] at hq
    cases hq
  | ok r =>
    rw [hr] at hq
    obtain rfl : q = r := by simpa [Except.toOption] using hq
    obtain ⟨u, hu, hc, rfl⟩ := start_request_ok hr
    refine mem_carriers.2 ⟨u, hu, hc, .inl ⟨?_, rfl⟩⟩
    cases hs : is_s3_url current with
    | false => rfl
    | true =>
      rw [hs, Bool.not_true, Bool.and_false, not_bearer_of_no_auth] at hb
      cases hb

/-- A turn without an error has sent its request and received a file. -/
theorem turn_checks (tmp : Path) (current : Bytes) (a : Answer) :
    Always (fun ret => ret = 0 → (∃ u, parse_url current = .ok u ∧ 0 ≤ a.connect) ∧ a.to_file = true)
      (request_to_file tmp
        (Redirect.turn_reply (start_request auth_token current (true && !is_s3_url current) none a) a)) := by
  intro d h0
  cases hr : start_request auth_token current (true && !is_s3_url current) none a with
  | error e =>
    rw [hr] at h0
    exact absurd h0 (turn_error_ne hr tmp d)
  | ok r =>
    rw [hr] at h0
    obtain ⟨u, hu, hc, -⟩ := start_request_ok hr
    exact ⟨⟨u, hu, hc⟩, request_to_file_checks tmp _ d h0⟩

/-- Every request of a download that has the token is one of the `carriers`, whatever the disk does. -/
theorem download_carriers (path tmp : Path) (left : Nat) (current : Bytes) (answers : List Answer) :
    Always (fun r => ∀ q ∈ r.2, q.bearer = true →
      q.parts.origin ∈ carriers is_s3_url Answer.to_file left current answers)
      (Redirect.download_loop auth_token true path tmp left current answers) := by
  induction left generalizing current answers with
  | zero =>
    unfold Redirect.download_loop
    refine always_then fun ret => always_ite (fun _ => always_pure fun q hq => nomatch hq) fun _ => ?_
    refine always_then fun ret => always_ite (fun _ => always_then fun _ => always_pure fun q => turn_carrier 0) ?_
    exact fun _ => always_then fun ret => always_pure fun q => turn_carrier 0
  | succ left ih =>
    unfold Redirect.download_loop
    refine always_then fun ret => always_ite (fun _ => always_pure fun q hq => nomatch hq) fun _ => ?_
    refine always_bind (turn_checks tmp current _) fun ret hret =>
      always_ite (fun _ => always_then fun _ => ?_) fun hne => ?_
    · exact always_pure fun q => turn_carrier (left + 1)
    · obtain ⟨⟨u, hu, hc⟩, hfile⟩ := hret (not_not.1 hne)
      cases hloc : (answers.headD .dead).redirect with
      | none => exact always_then fun ret => always_pure fun q => turn_carrier (left + 1)
      | some location =>
        refine always_then fun _ => always_bind (ih _ _) fun r hsent => always_pure fun q hq hb => ?_
        rcases List.mem_append.1 hq with hq | hq
        · exact turn_carrier (left + 1) hq hb
        · exact mem_carriers.2 ⟨u, hu, hc, .inr ⟨left, location, rfl, hfile, hloc, hsent q hq hb⟩⟩

/-- Where the disk does not fail, the first request is sent. -/
theorem first_request_sent {current : Bytes} {answers : List Answer} {u : UrlParts} (hu : parse_url current = .ok u)
    (hc : 0 ≤ (answers.headD .dead).connect) (hs : is_s3_url current = false) (path tmp : Path) (left : Nat)
    (files : Path → Option Bytes) :
    ⟨u, request_headers auth_token true none⟩ ∈
      (Redirect.download_loop auth_token true path tmp left current answers (.calm files)).1.2 := by
  unfold Redirect.download_loop
  rw [bind_app, fs_open_calm, start_request_eq hu hc, hs]
  dsimp only
  rw [if_neg (show ¬(0 : Int) < 0 by decide)]
  generalize Disk.calm _ = d
  revert d
  change Always (fun r : Int × List Request => Request.mk u (request_headers auth_token true none) ∈ r.2) _
  refine always_then fun ret => always_ite (fun _ => always_then fun _ => always_pure (List.mem_singleton_self _)) ?_
  intro _
  have hlast : Always (fun r : Int × List Request => Request.mk u (request_headers auth_token true none) ∈ r.2)
      (do
        let ret ← finish_download path tmp (answers.headD .dead).reply
        pure (ret, [Request.mk u (request_headers auth_token true none)]) : FS _) :=
    always_then fun _ => always_pure (List.mem_singleton_self _)
  cases left with
  | zero => exact hlast
  | succ left =>
    cases (answers.headD .dead).redirect with
    | none => exact hlast
    | some location =>
      exact always_then fun _ => always_then fun _ => always_pure (List.mem_append_left _ (List.mem_singleton_self _))

/-- Where the disk does not fail, a redirect is followed. -/
theorem redirect_followed {current location : Bytes} {answers : List Answer} {u : UrlParts}
    (hu : parse_url current = .ok u) (hc : 0 ≤ (answers.headD .dead).connect)
    (hfile : (answers.headD .dead).to_file = true) (hloc : (answers.headD .dead).redirect = some location)
    (path tmp : Path) (left : Nat) (files : Path → Option Bytes) :
    ∃ files', ∀ r ∈ (Redirect.download_loop auth_token true path tmp left
        (resolve_redirect current location EINK_HTTP_URL_MAX) answers.tail (.calm files')).1.2,
      r ∈ (Redirect.download_loop auth_token true path tmp (left + 1) current answers (.calm files)).1.2 := by
  obtain ⟨files', hreq⟩ := request_to_file_calm tmp hfile fun q => if q = tmp then some [] else files q
  have hunlink := ((touches_fs_unlink (W := (· = tmp)) (p := tmp) rfl) (.calm files')).eq_calm
  refine ⟨(fs_unlink tmp (.calm files')).2.files, fun r hr => ?_⟩
  rw [← hunlink] at hr
  unfold Redirect.download_loop
  rw [bind_app, fs_open_calm, start_request_eq hu hc]
  dsimp only
  rw [if_neg (show ¬(0 : Int) < 0 by decide), bind_app]
  simp only [Redirect.turn_reply, hreq, hloc, ne_eq, not_true_eq_false, if_false]
  exact List.mem_append_right _ hr

/-- Where the disk does not fail, there are no more `carriers` than requests with the token. -/
theorem download_carriers_calm (htoken : auth_token.val ≠ []) (path tmp : Path) (left : Nat) (current : Bytes)
    (answers : List Answer) (files : Path → Option Bytes) {o : Origin}
    (ho : o ∈ carriers is_s3_url Answer.to_file left current answers) :
    ∃ r ∈ (Redirect.download_loop auth_token true path tmp left current answers (.calm files)).1.2,
      r.bearer = true ∧ r.parts.origin = o := by
  induction left using Nat.strong_induction_on generalizing current answers files with
  | _ left ih =>
    obtain ⟨u, hu, hc, ⟨hs, rfl⟩ | ⟨n, location, rfl, hfile, hloc, ho⟩⟩ := mem_carriers.1 ho
    · exact ⟨_, first_request_sent hu hc hs path tmp left files, bearer_of_auth htoken u none, rfl⟩
    · obtain ⟨files', hsub⟩ := redirect_followed hu hc hfile hloc path tmp n files
      obtain ⟨r, hr, hb, ho⟩ := ih n n.lt_succ_self _ _ files' ho
      exact ⟨r, hsub r hr, hb, ho⟩

/-! ## The token stays -/

/-- The token of a fetch into memory stays at home if and only if the redirects
are safe, and so it does in downloads, which leave the header out for S3. -/
theorem token_stays_iff (auth_token : CStr 256) (htoken : auth_token.val ≠ []) (url : Bytes) (answers : List Answer) :
    (∀ cap if_none_match,
      TokenStays url (http_get_body auth_token url true cap if_none_match answers).sent ↔
        RedirectsSafe url (fun _ => false) (·.to_memory cap) answers) ∧
    ((∀ path d, TokenStays url (Redirect.http_download_to_file auth_token url true path answers d).1.2) ↔
      RedirectsSafe url is_s3_url Answer.to_file answers) := by
  constructor
  · intro cap if_none_match
    rw [← carriers_safe_iff]
    constructor
    · intro h o ho
      obtain ⟨r, hr, hb, rfl⟩ := (get_body_carriers htoken cap _ _ (if_none_hdr if_none_match) 0 [] _ _).2 ho
      exact h r hr hb
    · intro h r hr hb
      exact h _ ((get_body_carriers htoken cap _ _ _ _ _ _ _).1 ⟨r, hr, hb, rfl⟩)
  · rw [← carriers_safe_iff]
    constructor
    · intro h o ho
      obtain ⟨r, hr, hb, rfl⟩ := download_carriers_calm htoken [] (ascii ".tmp") _ _ _ (fun _ => none) ho
      exact h [] (.calm fun _ => none) r hr hb
    · intro h path d r hr hb
      unfold Redirect.http_download_to_file at hr
      split at hr
      · cases hr
      · exact h _ (download_carriers _ _ _ _ _ d r hr hb)

def deviceToken : CStr 256 := .copy 256 (ascii "t0ken")

def apiUrl : Bytes := ascii "https://api.dev.e-tabelone.com/node/v0/device/1/config"

/-- A response that sends the client to `location`, and the one that it finds there. -/
def movedTo (location : String) : List Answer :=
  [⟨0, [], 0, 302, some (ascii location), none⟩, ⟨0, [ascii "ES6F"], 0, 200, none, none⟩]

/-- A path stays at home, where both requests of a fetch carry the token. -/
theorem token_stays_iff_relative :
    TokenStays apiUrl (http_get_body deviceToken apiUrl true 24575 [] (movedTo "/config")).sent ∧
    (http_get_body deviceToken apiUrl true 24575 [] (movedTo "/config")).sent.map Request.bearer = [true, true] ∧
    ∀ path d, TokenStays apiUrl
      (Redirect.http_download_to_file deviceToken apiUrl true path (movedTo "/config") d).1.2 := by
  obtain ⟨hmemory, hfile⟩ := token_stays_iff deviceToken (by decide) apiUrl (movedTo "/config")
  refine ⟨(hmemory 24575 []).2 ((carriers_safe_iff _).1 ?_), ?_, hfile.2 ((carriers_safe_iff _).1 ?_)⟩
  · decide +kernel
  · decide +kernel
  · decide +kernel

/-- Both fetches take the token to another host, and the one into memory takes it to S3. -/
theorem redirect_takes_token :
    ¬TokenStays apiUrl (http_get_body deviceToken apiUrl true 24575 [] (movedTo "https://example.org/")).sent ∧
    ¬TokenStays apiUrl (Redirect.http_download_to_file deviceToken apiUrl true (ascii "/lfs1/a")
      (movedTo "https://example.org/") (.calm fun _ => none)).1.2 ∧
    ¬TokenStays apiUrl
      (http_get_body deviceToken apiUrl true 24575 [] (movedTo "https://b.s3.amazonaws.com/a")).sent := by
  decide +kernel

end EinkNode.Http
