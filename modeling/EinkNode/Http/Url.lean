import EinkNode.Http.Plan
import EinkNode.Lib.Errno
/-!
# URLs

`parse_url`, `resolve_redirect` and `is_s3_url` of `eink_http.c`. Over them, the
origin of a URL: who gets the request that is sent to it.
-/
open NodeLib

namespace EinkNode.Http

/-- `struct url_parts`. -/
structure UrlParts where
  https : Bool
  host : Bytes
  port : Bytes
  path : Bytes
deriving DecidableEq

def is_s3_url (url : Bytes) : Bool := (strstr url (ascii ".amazonaws.com")).isSome

def default_port (https : Bool) : Bytes := ascii (if https then "443" else "80")

/-- The scheme, and the text behind it. -/
def split_scheme (url : Bytes) : Option (Bool × Bytes) :=
  if (ascii "https://").isPrefixOf url then some (true, url.drop 8)
  else if (ascii "http://").isPrefixOf url then some (false, url.drop 7)
  else none

/-- The host and the port of `host:port`, with the default of the scheme. -/
def split_port (https : Bool) (host : Bytes) : Bytes × Bytes :=
  match strchr host 58 with
  | some colon => (host.takeWhile (· ≠ 58), colon.drop 1)
  | none => (host, default_port https)

def parse_url (url : Bytes) : Except Int UrlParts :=
  match split_scheme url with
  | none => .error (-EINVAL)
  | some (https, p) =>
    let host := p.takeWhile (· ≠ 47)
    if host.length = 0 ∨ host.length ≥ 128 then .error (-EINVAL)
    else
      let (name, port) := split_port https host
      -- Without a colon this holds of the host and the default port.
      if name.length = 0 ∨ port.length ≥ 8 then .error (-EINVAL)
      else
        match strchr p 47 with
        | none => .ok ⟨https, name, port, ascii "/"⟩
        | some slash => if slash.length ≥ EINK_HTTP_URL_MAX then .error (-ENOMEM) else .ok ⟨https, name, port, slash⟩

/-- A `Location` with a scheme of its own. -/
def is_absolute (location : Bytes) : Bool :=
  (ascii "http://").isPrefixOf location || (ascii "https://").isPrefixOf location

/-- `scheme://host` of a URL. The port is not there. -/
def site (u : UrlParts) : Bytes := ascii (if u.https then "https" else "http") ++ ascii "://" ++ u.host

def resolve_redirect (base_url location : Bytes) (out_cap : Nat) : Bytes :=
  if is_absolute location then location.take (out_cap - 1)
  else
    match parse_url base_url with
    | .error _ => location.take (out_cap - 1)
    | .ok base =>
      if location.head? = some 47 then snprintf out_cap (site base ++ location)
      else snprintf out_cap (site base ++ ascii "/" ++ location)

/-! ## Origins -/

/-- Letters of host names in lower case. -/
def lower (host : Bytes) : Bytes := host.map fun c => if 65 ≤ c ∧ c ≤ 90 then c + 32 else c

/-- Who answers at a URL. The host is in lower case. -/
structure Origin where
  https : Bool
  host : Bytes
  port : Bytes
deriving DecidableEq

def UrlParts.origin (u : UrlParts) : Origin := ⟨u.https, lower u.host, u.port⟩

/-- The origin of a URL of any length. -/
def origin (url : Bytes) : Option Origin :=
  (split_scheme url).map fun (https, p) =>
    let (name, port) := split_port https (p.takeWhile (· ≠ 47))
    ⟨https, lower name, port⟩

/-- The host is `amazonaws.com` or a name under it. -/
def Origin.under_amazonaws (o : Origin) : Bool :=
  o.host = ascii "amazonaws.com" || (ascii ".amazonaws.com").isSuffixOf o.host

/-! ## What is parsed -/

/-- What `parse_url` accepts. -/
structure Parsed (url : Bytes) (u : UrlParts) (p : Bytes) : Prop where
  scheme : split_scheme url = some (u.https, p)
  fits : (p.takeWhile (· ≠ 47)).length < 128
  split : split_port u.https (p.takeWhile (· ≠ 47)) = (u.host, u.port)
  named : u.host ≠ []

theorem parsed_of_ok {url : Bytes} {u : UrlParts} (h : parse_url url = .ok u) : ∃ p, Parsed url u p := by
  unfold parse_url at h
  split at h
  · cases h
  · next https p hs =>
    dsimp only at h
    split at h
    · cases h
    · next hlen =>
      split at h
      · cases h
      · next hname =>
        have hparsed (path : Bytes) (he : u = ⟨https, (split_port https (p.takeWhile (· ≠ 47))).1,
            (split_port https (p.takeWhile (· ≠ 47))).2, path⟩) : Parsed url u p := by
          subst he
          exact ⟨hs, by omega, rfl, fun h0 => hname (.inl (List.length_eq_zero_iff.2 h0))⟩
        split at h
        · exact ⟨p, hparsed _ (Except.ok.inj h).symm⟩
        · split at h
          · cases h
          · exact ⟨p, hparsed _ (Except.ok.inj h).symm⟩

/-- The name of a parsed host has no slash and no colon. -/
theorem Parsed.host_spec {url p : Bytes} {u : UrlParts} (h : Parsed url u p) :
    (∀ c ∈ u.host, c ≠ 47 ∧ c ≠ 58) ∧ 0 < u.host.length ∧ u.host.length < 128 := by
  have hs := h.split
  have hfits := h.fits
  have hslash : ∀ c ∈ p.takeWhile (· ≠ 47), c ≠ 47 := fun c hc => by simpa using List.mem_takeWhile_imp hc
  generalize p.takeWhile (· ≠ 47) = host at hs hfits hslash
  have hpos : 0 < u.host.length := List.length_pos_iff.2 h.named
  unfold split_port strchr at hs
  split at hs
  · simp only [Prod.mk.injEq] at hs
    rw [← hs.1] at hpos ⊢
    have hsub := List.takeWhile_prefix (p := fun c : UInt8 => decide (c ≠ 58)) (l := host)
    refine ⟨fun c hc => ⟨hslash c (hsub.subset hc), by simpa using List.mem_takeWhile_imp hc⟩, hpos, ?_⟩
    exact lt_of_le_of_lt hsub.length_le hfits
  · next hnone =>
    simp only [Prod.mk.injEq] at hs
    rw [← hs.1] at hpos ⊢
    split at hnone
    · next hd =>
      rw [List.dropWhile_eq_nil_iff] at hd
      exact ⟨fun c hc => ⟨hslash c hc, by simpa using hd c hc⟩, hpos, hfits⟩
    · cases hnone

/-! ## The buffer of the URL -/

theorem split_scheme_take {url p : Bytes} {https : Bool} {n : Nat}
    (h : split_scheme (url.take n) = some (https, p)) :
    ∃ k ≤ 8, p = (url.drop k).take (n - k) ∧ split_scheme url = some (https, url.drop k) := by
  have hmore {key : Bytes} (hk : key.isPrefixOf (url.take n) = true) : key.isPrefixOf url = true := by
    rw [List.isPrefixOf_iff_prefix] at *
    exact hk.trans (List.take_prefix n url)
  unfold split_scheme at h
  split at h
  · next hs =>
    simp only [Option.some.injEq, Prod.mk.injEq] at h
    obtain ⟨rfl, rfl⟩ := h
    exact ⟨8, le_refl 8, by rw [List.drop_take], by rw [split_scheme, if_pos (hmore hs)]⟩
  · split at h
    · next hs =>
      simp only [Option.some.injEq, Prod.mk.injEq] at h
      obtain ⟨rfl, rfl⟩ := h
      refine ⟨7, by omega, by rw [List.drop_take], ?_⟩
      have hnot : (ascii "https://").isPrefixOf url = false := by
        rw [Bool.eq_false_iff, ne_eq, List.isPrefixOf_iff_prefix]
        rintro ⟨rest, rfl⟩
        have := hmore hs
        simp [ascii, List.isPrefixOf] at this
      rw [split_scheme, if_neg (by rw [hnot]; exact Bool.false_ne_true), if_pos (hmore hs)]
    · cases h

/-- The cut at the end of the array does not change who is asked. -/
theorem origin_of_copy {url : Bytes} {u : UrlParts}
    (h : parse_url (CStr.copy EINK_HTTP_URL_MAX url).val = .ok u) : origin (cstring url) = some u.origin := by
  obtain ⟨p, hp⟩ := parsed_of_ok h
  rw [CStr.val_copy] at hp
  obtain ⟨k, hk, rfl, hs⟩ := split_scheme_take hp.scheme
  have hfits := hp.fits
  have htake : (((cstring url).drop k).take (EINK_HTTP_URL_MAX - 1 - k)).takeWhile (· ≠ 47)
      = ((cstring url).drop k).takeWhile (· ≠ 47) := by
    apply takeWhile_take_of_lt
    simp only [EINK_HTTP_URL_MAX] at *
    omega
  have hsplit := hp.split
  rw [htake] at hsplit
  rw [origin, hs, Option.map_some]
  dsimp only
  rw [hsplit]
  rfl

/-! ## Redirects -/

/-- Where a `Location` without a scheme leads: to the host of the URL it came
from, at the default port. -/
def UrlParts.site_origin (u : UrlParts) : Origin := ⟨u.https, lower u.host, default_port u.https⟩

theorem parse_site {u : UrlParts} {rest : Bytes} (hu : ∀ c ∈ u.host, c ≠ 47 ∧ c ≠ 58) (hpos : 0 < u.host.length)
    (hlen : u.host.length < 128) (hrest : rest.length + 1 < EINK_HTTP_URL_MAX) :
    parse_url (site u ++ 47 :: rest) = .ok ⟨u.https, u.host, default_port u.https, 47 :: rest⟩ := by
  have hs : split_scheme (site u ++ 47 :: rest) = some (u.https, u.host ++ 47 :: rest) := by
    cases hhttps : u.https <;> simp [split_scheme, site, hhttps, ascii, List.isPrefixOf]
  have hhost : (u.host ++ 47 :: rest).takeWhile (· ≠ 47) = u.host := by
    rw [List.takeWhile_append_of_pos fun c hc => by simpa using (hu c hc).1]
    simp
  have hslash : strchr (u.host ++ 47 :: rest) 47 = some (47 :: rest) := by
    rw [strchr, List.dropWhile_append_of_pos fun c hc => by simpa using (hu c hc).1]
    simp
  have hport : split_port u.https u.host = (u.host, default_port u.https) := by
    have hcolon : u.host.dropWhile (· ≠ 58) = [] := by
      rw [List.dropWhile_eq_nil_iff]
      exact fun c hc => by simpa using (hu c hc).2
    rw [split_port, strchr, hcolon]
  have hdef : (default_port u.https).length < 8 := by cases u.https <;> decide
  have hn : ¬((47 : UInt8) :: rest).length ≥ EINK_HTTP_URL_MAX := by simpa using hrest
  rw [parse_url, hs]
  dsimp only
  rw [hhost, if_neg (by omega), hport]
  dsimp only
  rw [if_neg (by omega), hslash]
  dsimp only
  rw [if_neg hn]

/-- A `Location` with a scheme is the next URL. -/
theorem resolve_absolute {base_url location : Bytes} (ha : is_absolute location = true)
    (hlen : location.length < EINK_HTTP_URL_MAX) :
    resolve_redirect base_url location EINK_HTTP_URL_MAX = location := by
  rw [resolve_redirect, if_pos ha, List.take_of_length_le (by omega)]

/-- A `Location` without one stays with the host and drops the port. -/
theorem resolve_relative {base_url location : Bytes} {u : UrlParts} (hu : parse_url base_url = .ok u)
    (ha : is_absolute location = false) (hlen : location.length < 512) :
    ∃ v, parse_url (resolve_redirect base_url location EINK_HTTP_URL_MAX) = .ok v ∧ v.origin = u.site_origin := by
  obtain ⟨p, hp⟩ := parsed_of_ok hu
  obtain ⟨hchars, hpos, hfits⟩ := hp.host_spec
  have hsite : (site u).length ≤ u.host.length + 8 := by
    cases hhttps : u.https <;> simp [site, hhttps, ascii]
  rw [resolve_redirect, if_neg (by rw [ha]; exact Bool.false_ne_true), hu]
  dsimp only
  split
  · next hhead =>
    obtain ⟨c, rest, rfl⟩ := List.exists_cons_of_ne_nil (l := location) (by rintro rfl; cases hhead)
    cases hhead
    rw [List.length_cons] at hlen
    rw [snprintf, List.take_of_length_le (by simp [EINK_HTTP_URL_MAX]; omega),
      parse_site hchars hpos hfits (by simp [EINK_HTTP_URL_MAX]; omega)]
    exact ⟨_, rfl, rfl⟩
  · rw [snprintf, List.take_of_length_le (by simp [EINK_HTTP_URL_MAX, ascii]; omega), List.append_assoc]
    show ∃ v, parse_url (site u ++ 47 :: location) = .ok v ∧ _
    rw [parse_site hchars hpos hfits (by simp [EINK_HTTP_URL_MAX]; omega)]
    exact ⟨_, rfl, rfl⟩

/-! ## The same origin -/

/-- The URL that is written is parsed as one of the same scheme, host and port, with the `Location` as its path. -/
def StaysOnOrigin (u : UrlParts) (location next_url : Bytes) : Prop :=
  ∃ v, parse_url next_url = .ok v ∧ v.https = u.https ∧ v.host = u.host ∧ v.port = u.port ∧ v.path = location

/-- A path in the `Location` stays on its origin if and only if the port is the default one. -/
theorem path_stays_iff {base_url : Bytes} {u : UrlParts} (hu : parse_url base_url = .ok u) (rest : Bytes)
    {out_cap : Nat} (hcap : out_cap ≤ EINK_HTTP_URL_MAX) (hfits : (site u ++ 47 :: rest).length < out_cap) :
    StaysOnOrigin u (47 :: rest) (resolve_redirect base_url (47 :: rest) out_cap) ↔ u.port = default_port u.https := by
  obtain ⟨p, hp⟩ := parsed_of_ok hu
  obtain ⟨hchars, hpos, hhost⟩ := hp.host_spec
  have hlen : rest.length + 1 < EINK_HTTP_URL_MAX := by
    rw [List.length_append, List.length_cons] at hfits
    omega
  have hrel : is_absolute (47 :: rest) = false := by simp [is_absolute, ascii, List.isPrefixOf]
  have hnext : resolve_redirect base_url (47 :: rest) out_cap = site u ++ 47 :: rest := by
    rw [resolve_redirect, hrel, if_neg Bool.false_ne_true, hu]
    dsimp only
    rw [List.head?_cons, if_pos rfl, snprintf, List.take_of_length_le (by omega)]
  rw [hnext, StaysOnOrigin, parse_site hchars hpos hhost hlen]
  constructor
  · rintro ⟨v, hv, -, -, hport, -⟩
    cases hv
    exact hport.symm
  · intro hport
    exact ⟨_, rfl, rfl, rfl, hport.symm, rfl⟩

theorem path_stays_default : StaysOnOrigin ⟨false, ascii "a", ascii "80", ascii "/x"⟩ (ascii "/y")
    (resolve_redirect (ascii "http://a:80/x") (ascii "/y") EINK_HTTP_URL_MAX) :=
  (path_stays_iff (by decide) (ascii "y") (Nat.le_refl _) (by decide)).2 rfl

/-- The port of the base URL is dropped. -/
theorem path_leaves_port : parse_url (ascii "http://a:8080/x") = .ok ⟨false, ascii "a", ascii "8080", ascii "/x"⟩ ∧
    ¬ StaysOnOrigin ⟨false, ascii "a", ascii "8080", ascii "/x"⟩ (ascii "/y")
      (resolve_redirect (ascii "http://a:8080/x") (ascii "/y") EINK_HTTP_URL_MAX) := by
  refine ⟨by decide, ?_⟩
  have hnext : parse_url (resolve_redirect (ascii "http://a:8080/x") (ascii "/y") EINK_HTTP_URL_MAX) =
      .ok ⟨false, ascii "a", ascii "80", ascii "/y"⟩ := by decide
  rintro ⟨v, hv, -, -, hport, -⟩
  rw [hnext] at hv
  cases hv
  exact absurd hport (by decide)

end EinkNode.Http
