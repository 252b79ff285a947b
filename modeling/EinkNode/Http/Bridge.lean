import Mathlib.Data.List.Forall2
import EinkNode.Http.PlanAgree
import EinkNode.Http.Url
/-!
# The bridge to the server

`eink-etabelone-bridge.py` stands between a simulated node and the server. It
puts a URL of its own in the place of every URL of an answer, keeps the one that
was there, and fetches from it when the node comes for the image. A JSON text
is its value here, a string its UTF-8 bytes.
-/
open NodeLib EinkNode.Scheduler

namespace EinkNode.Http

/-! ## Dicts -/

/-- `d[key] = value`: in the place of the old value, or else at the end. -/
def set_field (key : Bytes) (value : Json) : List (Bytes × Json) → List (Bytes × Json)
  | [] => [(key, value)]
  | field :: fields => if field.1 = key then (key, value) :: fields else field :: set_field key value fields

/-- `item[key] = value` of a dict. -/
def set_item (key : String) (value : Json) : Json → Json
  | .object fields => .object (set_field (ascii key) value fields)
  | item => item

/-- `item.get(key)` of a dict. -/
abbrev get_item (item : Json) (key : String) : Option Json := cJSON_GetObjectItemCaseSensitive item (ascii key)

/-- A dict from ids to URLs. -/
abbrev Urls := Bytes → Option Bytes

/-- `urls[image_id] = url`. -/
def Urls.set (urls : Urls) (image_id url : Bytes) : Urls := fun x => if x = image_id then some url else urls x

/-! ## The bridge -/

structure Bridge where
  public_base : Bytes
  lz4 : Bool
  image_urls : Urls

namespace Bridge

variable (self : Bridge)

def image_suffix : Bytes := ascii (if self.lz4 then ".es6f.lz4" else ".es6f")

/-- The URL that an image gets. -/
def image_url (image_id : Bytes) : Bytes :=
  self.public_base ++ ascii "/images/" ++ image_id ++ self.image_suffix

/-! ### A plan -/

/-- One turn of the loops of `_rewrite_plan_urls`: an entry that lacks a text is passed over. -/
def rewrite_entry (id_key : String) (item : Json) (next_urls : Urls) : Json × Urls :=
  match string_item item id_key, string_item item "url" with
  | some image_id, some url => (set_item "url" (.string (self.image_url image_id)) item, next_urls.set image_id url)
  | _, _ => (item, next_urls)

def rewrite_entries (id_key : String) : List Json → Urls → List Json × Urls
  | [], next_urls => ([], next_urls)
  | item :: items, next_urls =>
    let (item, next_urls) := self.rewrite_entry id_key item next_urls
    let (items, next_urls) := rewrite_entries id_key items next_urls
    (item :: items, next_urls)

/-- The entries of one member of the plan, if it is a list. -/
def rewrite_member (key id_key : String) (plan : Json) (next_urls : Urls) : Json × Urls :=
  match get_item plan key with
  | some (.array items) =>
    let (items, next_urls) := self.rewrite_entries id_key items next_urls
    (set_item key (.array items) plan, next_urls)
  | _ => (plan, next_urls)

def _rewrite_plan_urls (plan : Json) : Json × Urls :=
  let (plan, next_urls) := self.rewrite_member "images" "image_id" plan fun _ => none
  self.rewrite_member "download" "asset_id" plan next_urls

/-- `len(plan.get(key) or [])` of the line that is logged does not raise. -/
def has_len (plan : Json) (key : String) : Bool :=
  match get_item plan key with
  | some (.bool b) => !b
  | some (.number n) => n = 0
  | _ => true

/-- The upstream answers with a status and a body; no value is a body that is no JSON. The result is the answer to
the node, or nothing if an exception is raised. -/
def sync_v2 (status : Int) (resp : Option Json) : Option (Int × Option Json) × Bridge :=
  if status ≠ 200 then (some (status, resp), self)
  else
    match resp with
    | some (.object fields) =>
      let (plan, next_urls) := self._rewrite_plan_urls (.object fields)
      let self := { self with image_urls := fun x => (next_urls x).orElse fun _ => self.image_urls x }
      if has_len plan "images" && has_len plan "download" then (some (200, some plan), self) else (none, self)
    | _ => (none, self)

/-! ### A configuration -/

/-- What `urlsplit` leaves of a URL before it splits it. -/
def urlsplit_clean (url : Bytes) : Bytes := (url.dropWhile (· ≤ 32)).filter fun c => c ≠ 9 && c ≠ 10 && c ≠ 13

/-- The scheme of `urlsplit` is `https`. -/
def is_https (url : Bytes) : Bool :=
  lower ((urlsplit_clean url).takeWhile (· ≠ 58)) = ascii "https" && (urlsplit_clean url).contains 58

/-- The loop of `config`, which raises at an entry that is no image record. -/
def config_entries : List Json → Urls → Option (List Json × Urls)
  | [], next_urls => some ([], next_urls)
  | item :: items, next_urls =>
    match string_item item "image_id", string_item item "url" with
    | some image_id, some url =>
      if is_https url then do
        let (items, next_urls) ← config_entries items (next_urls.set image_id url)
        return (set_item "url" (.string (self.image_url image_id)) item :: items, next_urls)
      else none
    | _, _ => none

def config (status : Int) (body : Option Json) : Option Json × Bridge :=
  if status ≠ 200 then (none, self)
  else
    match body with
    | some (.object fields) =>
      match get_item (.object fields) "images", get_item (.object fields) "schedule" with
      | some (.array images), some (.array _) =>
        match self.config_entries images fun _ => none with
        | some (images, next_urls) =>
          (some (set_item "images" (.array images) (.object fields)), { self with image_urls := next_urls })
        | none => (none, self)
      | _, _ => (none, self)
    | _ => (none, self)

/-! ### An image -/

/-- The path of `urlsplit`. -/
def urlsplit_path (url : Bytes) : Bytes := (urlsplit_clean url).takeWhile fun c => c ≠ 63 && c ≠ 35

/-- The image that `do_GET` is asked for. -/
def requested_image (path : Bytes) : Option Bytes :=
  let path := urlsplit_path path
  if (ascii "/images/").isPrefixOf path then
    let name := path.drop 8
    let image_id :=
      if (ascii ".es6f.lz4").isSuffixOf name then name.take (name.length - 9)
      else if (ascii ".es6f").isSuffixOf name then name.take (name.length - 5)
      else []
    if image_id ≠ [] then some image_id else none
  else none

/-- The beginning of `image`: where the image comes from. An id that is not known makes the bridge fetch the
configuration. -/
def source_url (image_id : Bytes) (status : Int) (body : Option Json) : Option Bytes × Bridge :=
  match self.image_urls image_id with
  | some source_url => (some source_url, self)
  | none =>
    match self.config status body with
    | (some _, self) => (self.image_urls image_id, self)
    | (none, self) => (none, self)

end Bridge

/-! ## What the node reads -/

theorem find_set_field_self (key : Bytes) (value : Json) (fields : List (Bytes × Json)) :
    (set_field key value fields).find? (·.1 = key) = some (key, value) := by
  induction fields with
  | nil => simp [set_field]
  | cons field fields ih =>
    by_cases h : field.1 = key
    · simp [set_field, h]
    · simp [set_field, h, ih]

theorem find_set_field_ne {key key' : Bytes} (h : key' ≠ key) (value : Json) (fields : List (Bytes × Json)) :
    (set_field key value fields).find? (·.1 = key') = fields.find? (·.1 = key') := by
  induction fields with
  | nil => simp [set_field, h.symm]
  | cons field fields ih =>
    by_cases hfield : field.1 = key
    · simp [set_field, hfield, h.symm]
    · simp [set_field, hfield, List.find?_cons, ih]

theorem get_set_item_ne {key key' : String} (h : ascii key' ≠ ascii key) (value item : Json) :
    get_item (set_item key value item) key' = get_item item key' := by
  cases item with
  | object fields => exact congrArg (Option.map (·.2)) (find_set_field_ne h value fields)
  | _ => rfl

theorem get_set_item_self (key : String) (value : Json) {item old : Json} {key' : String}
    (h : get_item item key' = some old) : get_item (set_item key value item) key = some value := by
  cases item with
  | object fields => exact congrArg (Option.map (·.2)) (find_set_field_self (ascii key) value fields)
  | _ => cases h

theorem string_item_congr {item item' : Json} {key : String} (h : get_item item' key = get_item item key) :
    string_item item' key = string_item item key := by
  unfold get_item at h
  rw [string_item, string_item, h]

theorem array_item_congr {item item' : Json} {key : String} (h : get_item item' key = get_item item key) :
    array_item item' key = array_item item key := by
  unfold get_item at h
  rw [array_item, array_item, h]

theorem array_item_of_array {item : Json} {key : String} {items : List Json}
    (h : get_item item key = some (.array items)) : array_item item key = items := by
  unfold get_item at h
  rw [array_item, h]

theorem array_item_eq_nil {item : Json} {key : String} (h : ∀ items, get_item item key ≠ some (.array items)) :
    array_item item key = [] := by
  unfold array_item
  split
  · next items hget => exact absurd hget (h items)
  · rfl

/-- The id and the URL of an entry that has both. -/
def entry_texts (id_key : String) (item : Json) : Option (Bytes × Bytes) := do
  let image_id ← string_item item id_key
  let url ← string_item item "url"
  return (image_id, url)

/-- The ids and URLs of the entries of one member. -/
def member_texts (key id_key : String) (plan : Json) : List (Bytes × Bytes) :=
  (array_item plan key).filterMap (entry_texts id_key)

/-- A dict in which these ids and URLs are set, the later ones last. -/
def Urls.add (urls : Urls) (texts : List (Bytes × Bytes)) : Urls :=
  texts.foldl (fun urls e => urls.set e.1 e.2) urls

theorem entry_texts_eq_some {id_key : String} {item : Json} {image_id url : Bytes} :
    entry_texts id_key item = some (image_id, url) ↔
      string_item item id_key = some image_id ∧ string_item item "url" = some url := by
  unfold entry_texts
  cases string_item item id_key <;> cases string_item item "url" <;> simp

namespace Bridge

variable {self : Bridge}

/-- An entry that has both texts gets its URL. -/
def rewritten (self : Bridge) (id_key : String) (item : Json) : Json :=
  match entry_texts id_key item with
  | some (image_id, _) => set_item "url" (.string (self.image_url image_id)) item
  | none => item

theorem rewrite_entry_eq (id_key : String) (item : Json) (urls : Urls) :
    self.rewrite_entry id_key item urls = (self.rewritten id_key item, urls.add (entry_texts id_key item).toList) := by
  unfold rewrite_entry rewritten entry_texts
  cases string_item item id_key <;> cases string_item item "url" <;> rfl

theorem rewrite_entries_eq (id_key : String) (items : List Json) (urls : Urls) :
    self.rewrite_entries id_key items urls =
      (items.map (self.rewritten id_key), urls.add (items.filterMap (entry_texts id_key))) := by
  induction items generalizing urls with
  | nil => rfl
  | cons item items ih =>
    rw [rewrite_entries, rewrite_entry_eq]
    dsimp only
    rw [ih, List.map_cons, List.filterMap_cons]
    cases entry_texts id_key item with
    | none => rfl
    | some e => rfl

/-- One member is rewritten entry by entry, and the others stay. -/
structure RewritesMember (bridge : Bridge) (key id_key : String) (plan plan' : Json) : Prop where
  entries : array_item plan' key = (array_item plan key).map (bridge.rewritten id_key)
  len : has_len plan' key = has_len plan key
  others : ∀ key', ascii key' ≠ ascii key → get_item plan' key' = get_item plan key'

theorem rewrite_member_spec (key id_key : String) (plan : Json) (urls : Urls) :
    ∃ plan', self.rewrite_member key id_key plan urls = (plan', urls.add (member_texts key id_key plan)) ∧
      RewritesMember self key id_key plan plan' := by
  unfold rewrite_member
  split
  · next items hget =>
    rw [rewrite_entries_eq]
    have hitems := array_item_of_array hget
    have hset := get_set_item_self key (.array (items.map (self.rewritten id_key))) hget
    refine ⟨_, by rw [member_texts, hitems], ?_, ?_, fun key' h => get_set_item_ne h _ plan⟩
    · rw [hitems]
      exact array_item_of_array hset
    · rw [has_len, has_len, hset, hget]
  · next hget =>
    have hitems : array_item plan key = [] := array_item_eq_nil hget
    exact ⟨plan, by rw [member_texts, hitems]; rfl, by rw [hitems]; rfl, rfl, fun _ _ => rfl⟩

/-! ### The tables of a plan -/

/-- A URL of the bridge is in the place of one of these URLs, for an image with this id. -/
def Moved (self : Bridge) (texts : List (Bytes × Bytes)) (id : Id) (url url' : CStr EINK_HTTP_URL_MAX) : Prop :=
  ∃ image_id source, (image_id, source) ∈ texts ∧ id = .copy _ image_id ∧ url = .copy _ source ∧
    url' = .copy _ (self.image_url image_id)

structure MovedImage (bridge : Bridge) (texts : List (Bytes × Bytes)) (image image' : PlanImage) : Prop where
  image_id : image'.image_id = image.image_id
  url : Moved bridge texts image.image_id image.url image'.url

structure MovedDownload (bridge : Bridge) (texts : List (Bytes × Bytes)) (e e' : PlanDownload) : Prop where
  asset_id : e'.asset_id = e.asset_id
  content_sha256 : e'.content_sha256 = e.content_sha256
  byte_size : e'.byte_size = e.byte_size
  url : Moved bridge texts e.asset_id e.url e'.url

variable (self) in
/-- A rewritten entry has its own URL and is otherwise the same. -/
theorem rewritten_of_texts {id_key : String} {item : Json} {image_id url : Bytes}
    (h : entry_texts id_key item = some (image_id, url)) :
    string_item (self.rewritten id_key item) "url" = some (self.image_url image_id) ∧
      ∀ key, ascii key ≠ ascii "url" → get_item (self.rewritten id_key item) key = get_item item key := by
  have hrewritten : self.rewritten id_key item = set_item "url" (.string (self.image_url image_id)) item := by
    rw [rewritten, h]
  obtain ⟨hid, -⟩ := entry_texts_eq_some.1 h
  rw [hrewritten]
  refine ⟨?_, fun key hne => get_set_item_ne hne _ item⟩
  obtain ⟨old, hold⟩ : ∃ old, get_item item id_key = some old := by
    unfold string_item at hid
    split at hid
    · next hget => exact ⟨_, hget⟩
    · cases hid
  have hset := get_set_item_self "url" (.string (self.image_url image_id)) hold
  unfold get_item at hset
  rw [string_item, hset]

theorem rewritten_of_none {id_key : String} {item : Json} (h : entry_texts id_key item = none) :
    self.rewritten id_key item = item := by
  rw [rewritten, h]

/-- Entries that a reader makes the same of, each with its rewritten one. -/
theorem forall₂_rewritten {α : Type} {read : Json → Option α} {R : α → α → Prop} {id_key : String} {items : List Json}
    (h : ∀ item ∈ items, Option.Rel R (read item) (read (self.rewritten id_key item))) :
    List.Forall₂ R (items.filterMap read) ((items.map (self.rewritten id_key)).filterMap read) := by
  have hrel : ∀ ⦃item item' : Json⦄, (item ∈ items ∧ item' = self.rewritten id_key item) →
      Option.Rel R (read item) (read item') := by
    rintro item item' ⟨hmem, rfl⟩
    exact h item hmem
  refine List.rel_filterMap hrel ?_
  rw [List.forall₂_map_right_iff, List.forall₂_same]
  exact fun item hmem => ⟨hmem, rfl⟩

theorem plan_images_moved (items : List Json) (texts : List (Bytes × Bytes))
    (htexts : items.filterMap (entry_texts "image_id") ⊆ texts) :
    List.Forall₂ (MovedImage self texts) (items.filterMap plan_image)
      ((items.map (self.rewritten "image_id")).filterMap plan_image) := by
  refine forall₂_rewritten fun item hmem => ?_
  cases hentry : entry_texts "image_id" item with
  | none =>
    have hnone : plan_image item = none := by
      unfold entry_texts at hentry
      unfold plan_image
      cases hid : string_item item "image_id" <;> cases hurl : string_item item "url" <;> simp_all
    rw [rewritten_of_none hentry, hnone]
    exact .none
  | some e =>
    obtain ⟨image_id, url⟩ := e
    obtain ⟨hid, hurl⟩ := entry_texts_eq_some.1 hentry
    obtain ⟨hurl', hothers⟩ := rewritten_of_texts self hentry
    have hid' := (string_item_congr (hothers "image_id" (by decide))).trans hid
    unfold plan_image
    rw [hid, hurl, hid', hurl']
    exact .some ⟨rfl, image_id, url, htexts (List.mem_filterMap.2 ⟨item, hmem, hentry⟩), rfl, rfl, rfl⟩

theorem plan_downloads_moved (items : List Json) (texts : List (Bytes × Bytes))
    (htexts : items.filterMap (entry_texts "asset_id") ⊆ texts) :
    List.Forall₂ (MovedDownload self texts) (items.filterMap plan_download)
      ((items.map (self.rewritten "asset_id")).filterMap plan_download) := by
  refine forall₂_rewritten fun item hmem => ?_
  cases hentry : entry_texts "asset_id" item with
  | none =>
    have hnone : plan_download item = none := by
      unfold entry_texts at hentry
      unfold plan_download
      cases hid : string_item item "asset_id" <;> cases hurl : string_item item "url" <;> simp_all
    rw [rewritten_of_none hentry, hnone]
    exact .none
  | some e =>
    obtain ⟨image_id, url⟩ := e
    obtain ⟨hid, hurl⟩ := entry_texts_eq_some.1 hentry
    obtain ⟨hurl', hothers⟩ := rewritten_of_texts self hentry
    have hid' := (string_item_congr (hothers "asset_id" (by decide))).trans hid
    have hsha := string_item_congr (hothers "content_sha256" (by decide))
    have hsize := hothers "byte_size" (by decide)
    unfold get_item at hsize
    unfold plan_download
    rw [hid, hurl, hid', hurl', hsha, hsize]
    cases string_item item "content_sha256" with
    | none => exact .none
    | some sha =>
      exact .some ⟨rfl, rfl, rfl, image_id, url, htexts (List.mem_filterMap.2 ⟨item, hmem, hentry⟩), rfl, rfl, rfl⟩

/-- The ids and URLs that a plan gives. -/
def given (plan : Json) : List (Bytes × Bytes) :=
  member_texts "images" "image_id" plan ++ member_texts "download" "asset_id" plan

/-- What becomes of a plan. -/
structure RewritesPlan (bridge : Bridge) (plan plan' : Json) : Prop where
  images : array_item plan' "images" = (array_item plan "images").map (bridge.rewritten "image_id")
  download : array_item plan' "download" = (array_item plan "download").map (bridge.rewritten "asset_id")
  others : ∀ key, ascii key ≠ ascii "images" → ascii key ≠ ascii "download" → get_item plan' key = get_item plan key
  len : has_len plan' "images" = has_len plan "images" ∧ has_len plan' "download" = has_len plan "download"

theorem rewrite_plan_spec (plan : Json) :
    ∃ plan', self._rewrite_plan_urls plan = (plan', Urls.add (fun _ => none) (given plan)) ∧
      RewritesPlan self plan plan' := by
  obtain ⟨plan1, heq1, himages⟩ := self.rewrite_member_spec "images" "image_id" plan fun _ => none
  obtain ⟨plan2, heq2, hdownload⟩ := self.rewrite_member_spec "download" "asset_id" plan1
    (Urls.add (fun _ => none) (member_texts "images" "image_id" plan))
  have hget1 := himages.others "download" (by decide)
  have hget2 := hdownload.others "images" (by decide)
  have htexts : member_texts "download" "asset_id" plan1 = member_texts "download" "asset_id" plan := by
    rw [member_texts, member_texts, array_item_congr hget1]
  refine ⟨plan2, ?_, ?_, ?_, ?_, ?_, ?_⟩
  · rw [_rewrite_plan_urls, heq1]
    dsimp only
    rw [heq2, htexts, given, Urls.add, Urls.add, Urls.add, List.foldl_append]
  · rw [array_item_congr hget2]
    exact himages.entries
  · rw [hdownload.entries, array_item_congr hget1]
  · exact fun key hne hne' => (hdownload.others key hne').trans (himages.others key hne)
  · rw [← himages.len, has_len, has_len, hget2]
  · rw [hdownload.len, has_len, has_len, hget1]

/-- The node reads the tables of the server, with other URLs. -/
theorem parse_rewritten {plan plan' : Json} (h : RewritesPlan self plan plan') {p : Plan}
    (hp : parse_v2_plan plan = some p) :
    ∃ p', parse_v2_plan plan' = some p' ∧ p'.sched = p.sched ∧
      List.Forall₂ (MovedImage self (given plan)) p.images p'.images ∧
      List.Forall₂ (MovedDownload self (given plan)) p.downloads p'.downloads := by
  have hprotocol := string_item_congr (h.others "protocol" (by decide) (by decide))
  have hsched := array_item_congr (h.others "schedule" (by decide) (by decide))
  unfold parse_v2_plan at hp ⊢
  rw [hprotocol, hsched, h.images, h.download]
  split at hp
  · cases hp
  · next hv2 =>
    cases hp
    rw [if_neg hv2]
    refine ⟨_, rfl, rfl, List.forall₂_take _ ?_, List.forall₂_take _ ?_⟩
    · exact plan_images_moved _ _ (List.subset_append_left _ _)
    · exact plan_downloads_moved _ _ (List.subset_append_right _ _)

/-! ## Where a URL of the bridge leads -/

/-- What stands for itself in a request line and in a path. -/
def Visible (c : UInt8) : Prop := 33 ≤ c ∧ c ≤ 126 ∧ c ≠ 35 ∧ c ≠ 63

instance (c : UInt8) : Decidable (Visible c) := inferInstanceAs (Decidable (_ ∧ _ ∧ _ ∧ _))

/-- An id whose URL can be asked for. -/
structure PlainId (bridge : Bridge) (image_id : Bytes) : Prop where
  named : image_id ≠ []
  visible : ∀ c ∈ image_id, Visible c
  fits : (bridge.image_url image_id).length < EINK_HTTP_URL_MAX

/-- The bridge is started with the URL of a host, without a path. -/
structure PublicBase (public_base : Bytes) (base : UrlParts) : Prop where
  parsed : parse_url public_base = .ok base
  noNul : 0 ∉ public_base
  noPath : ∀ https p, split_scheme public_base = some (https, p) → 47 ∉ p

theorem urlsplit_path_of_visible {path : Bytes} (h : ∀ c ∈ path, Visible c) : urlsplit_path path = path := by
  have hdrop : path.dropWhile (· ≤ 32) = path := by
    cases path with
    | nil => rfl
    | cons c path =>
      have hc := (h c List.mem_cons_self).1
      refine List.dropWhile_cons_of_neg ?_
      rw [decide_eq_true_iff]
      intro hle
      exact absurd (UInt8.le_trans hc hle) (by decide)
  have hfilter : path.filter (fun c => c ≠ 9 && c ≠ 10 && c ≠ 13) = path := by
    refine List.filter_eq_self.2 fun c hc => ?_
    have hge := (h c hc).1
    have hne {b : UInt8} (hb : ¬ 33 ≤ b) : c ≠ b := by
      rintro rfl
      exact hb hge
    simp [hne (b := 9) (by decide), hne (b := 10) (by decide), hne (b := 13) (by decide)]
  rw [urlsplit_path, urlsplit_clean, hdrop, hfilter]
  refine List.takeWhile_eq_self_iff.2 fun c hc => ?_
  obtain ⟨-, -, hhash, hquery⟩ := h c hc
  simp [hhash, hquery]

variable (self) in
theorem requested_image_url {image_id : Bytes} (hne : image_id ≠ []) (h : ∀ c ∈ image_id, Visible c) :
    requested_image (ascii "/images/" ++ image_id ++ self.image_suffix) = some image_id := by
  have hprefix : ∀ c ∈ ascii "/images/", Visible c := by simp [ascii, Visible]
  have hsuffix : ∀ c ∈ self.image_suffix, Visible c := by
    unfold image_suffix
    cases self.lz4 <;> simp [ascii, Visible]
  have hpath : urlsplit_path (ascii "/images/" ++ image_id ++ self.image_suffix) =
      ascii "/images/" ++ image_id ++ self.image_suffix := by
    refine urlsplit_path_of_visible fun c hc => ?_
    rcases List.mem_append.1 hc with hc | hc
    · rcases List.mem_append.1 hc with hc | hc
      · exact hprefix c hc
      · exact h c hc
    · exact hsuffix c hc
  have hname : (ascii "/images/" ++ image_id ++ self.image_suffix).drop 8 = image_id ++ self.image_suffix := by
    rw [List.append_assoc]
    rfl
  have hroute : (ascii "/images/").isPrefixOf (ascii "/images/" ++ image_id ++ self.image_suffix) = true := by
    rw [List.isPrefixOf_iff_prefix, List.append_assoc]
    exact List.prefix_append _ _
  unfold requested_image
  rw [hpath]
  dsimp only
  rw [if_pos hroute, hname]
  unfold image_suffix
  cases self.lz4 with
  | true =>
    have hends : (ascii ".es6f.lz4").isSuffixOf (image_id ++ ascii (if true = true then ".es6f.lz4" else ".es6f")) =
        true := List.isSuffixOf_iff_suffix.2 (List.suffix_append _ _)
    have htake : (image_id ++ ascii ".es6f.lz4").take ((image_id ++ ascii ".es6f.lz4").length - 9) = image_id := by
      refine List.take_left' ?_
      rw [List.length_append]
      exact (Nat.add_sub_cancel _ 9).symm
    rw [if_pos hends, if_pos rfl, htake, if_pos hne]
  | false =>
    -- One ending is of the other only if the last letters are the same.
    have hother : ¬ (ascii ".es6f.lz4").isSuffixOf
        (image_id ++ ascii (if false = true then ".es6f.lz4" else ".es6f")) = true := by
      rw [List.isSuffixOf_iff_suffix]
      rintro ⟨front, heq⟩
      have hlast := congrArg List.getLast? heq
      simp [ascii] at hlast
    have hends : (ascii ".es6f").isSuffixOf (image_id ++ ascii (if false = true then ".es6f.lz4" else ".es6f")) =
        true := List.isSuffixOf_iff_suffix.2 (List.suffix_append _ _)
    have htake : (image_id ++ ascii ".es6f").take ((image_id ++ ascii ".es6f").length - 5) = image_id := by
      refine List.take_left' ?_
      rw [List.length_append]
      exact (Nat.add_sub_cancel _ 5).symm
    rw [if_neg hother, if_pos hends, if_neg Bool.false_ne_true, htake, if_pos hne]

theorem split_scheme_append {url p : Bytes} {https : Bool} (h : split_scheme url = some (https, p)) (rest : Bytes) :
    split_scheme (url ++ rest) = some (https, p ++ rest) := by
  unfold split_scheme at h ⊢
  split at h
  · next hs =>
    obtain ⟨tail, rfl⟩ := List.isPrefixOf_iff_prefix.1 hs
    cases h
    have hs' : (ascii "https://").isPrefixOf (ascii "https://" ++ tail ++ rest) = true := by
      rw [List.isPrefixOf_iff_prefix, List.append_assoc]
      exact List.prefix_append _ _
    rw [if_pos hs', List.append_assoc]
    rfl
  · split at h
    · next hs =>
      obtain ⟨tail, rfl⟩ := List.isPrefixOf_iff_prefix.1 hs
      cases h
      have hnot : ¬ (ascii "https://").isPrefixOf (ascii "http://" ++ tail ++ rest) = true := by
        simp [ascii, List.isPrefixOf]
      have hs' : (ascii "http://").isPrefixOf (ascii "http://" ++ tail ++ rest) = true := by
        rw [List.isPrefixOf_iff_prefix, List.append_assoc]
        exact List.prefix_append _ _
      rw [if_neg hnot, if_pos hs', List.append_assoc]
      rfl
    · cases h

/-- A path behind such a URL is the path of the whole. -/
theorem parse_url_under {public_base : Bytes} {base : UrlParts} (h : PublicBase public_base base) {rest : Bytes}
    (hfits : (47 :: rest).length < EINK_HTTP_URL_MAX) :
    parse_url (public_base ++ 47 :: rest) = .ok { base with path := 47 :: rest } := by
  have hparsed := h.parsed
  unfold parse_url at hparsed ⊢
  cases hscheme : split_scheme public_base with
  | none =>
    rw [hscheme] at hparsed
    cases hparsed
  | some schemed =>
    obtain ⟨https, p⟩ := schemed
    have hslash := h.noPath https p hscheme
    have hhost : (p ++ 47 :: rest).takeWhile (· ≠ 47) = p := by
      rw [List.takeWhile_append_of_pos (ne_of_notMem hslash), List.takeWhile_cons_of_neg (by simp), List.append_nil]
    have hpath : strchr (p ++ 47 :: rest) 47 = some (47 :: rest) := by
      rw [strchr, List.dropWhile_append_of_pos (ne_of_notMem hslash), List.dropWhile_cons_of_neg (by simp)]
    rw [hscheme] at hparsed
    rw [split_scheme_append hscheme]
    dsimp only at hparsed ⊢
    rw [List.takeWhile_eq_self_iff.2 (ne_of_notMem hslash)] at hparsed
    rw [hhost, hpath]
    dsimp only
    split at hparsed
    · cases hparsed
    next hlen =>
    rw [if_neg hlen]
    split at hparsed
    · cases hparsed
    next hport =>
    rw [if_neg hport, if_neg (by omega)]
    split at hparsed
    · cases hparsed
      rfl
    · split at hparsed
      · cases hparsed
      · cases hparsed
        rfl

/-- The node asks the bridge for this URL, and the bridge gets the image from the other one, whatever the upstream
says to a request for the configuration. -/
def LeadsTo (self : Bridge) (base : UrlParts) (url : CStr EINK_HTTP_URL_MAX) (source : Bytes) : Prop :=
  ∃ u image_id, parse_url url.val = .ok u ∧ u.origin = base.origin ∧ requested_image u.path = some image_id ∧
    ∀ status body, (self.source_url image_id status body).1 = some source

variable (self) in
theorem leadsTo_of_known {base : UrlParts} (hbase : PublicBase self.public_base base) {image_id source : Bytes}
    (hid : PlainId self image_id) (hknown : self.image_urls image_id = some source) :
    LeadsTo self base (.copy _ (self.image_url image_id)) source := by
  have hnul : (0 : UInt8) ∉ ascii "/images/" ++ image_id ++ self.image_suffix := by
    have hend : (0 : UInt8) ∉ self.image_suffix := by
      unfold image_suffix
      cases self.lz4 <;> simp [ascii]
    rw [List.mem_append, List.mem_append, not_or, not_or]
    refine ⟨⟨by simp [ascii], fun hmem => ?_⟩, hend⟩
    exact absurd (hid.visible 0 hmem).1 (by decide)
  have hurl : self.image_url image_id = self.public_base ++ (ascii "/images/" ++ image_id ++ self.image_suffix) := by
    simp only [image_url, List.append_assoc]
  have hval : (CStr.copy EINK_HTTP_URL_MAX (self.image_url image_id)).val = self.image_url image_id := by
    have hwhole : (0 : UInt8) ∉ self.image_url image_id := by
      rw [hurl, List.mem_append, not_or]
      exact ⟨hbase.noNul, hnul⟩
    rw [CStr.val_copy, cstring_of_notMem hwhole, List.take_of_length_le (Nat.le_sub_one_of_lt hid.fits)]
  have hfits := hid.fits
  rw [hurl, List.length_append] at hfits
  have hpath := requested_image_url self hid.named hid.visible
  obtain ⟨rest, hrest⟩ : ∃ rest, ascii "/images/" ++ image_id ++ self.image_suffix = 47 :: rest := ⟨_, rfl⟩
  rw [hrest] at hpath hfits hurl
  refine ⟨{ base with path := 47 :: rest }, image_id, ?_, rfl, hpath, fun status body => ?_⟩
  · rw [hval, hurl]
    exact parse_url_under hbase (by omega)
  · rw [source_url, hknown]

variable (self) in
/-- The URLs that were put in the place of those the bridge knows lead to them. -/
theorem leadsTo_of_moved {base : UrlParts} (hbase : PublicBase self.public_base base) {texts : List (Bytes × Bytes)}
    (hids : ∀ e ∈ texts, PlainId self e.1) (hknown : ∀ e ∈ texts, self.image_urls e.1 = some e.2) {id : Id}
    {url url' : CStr EINK_HTTP_URL_MAX} (h : Moved self texts id url url') :
    ∃ source, url = .copy _ source ∧ LeadsTo self base url' source := by
  obtain ⟨image_id, source, hmem, -, hurl, rfl⟩ := h
  exact ⟨source, hurl, leadsTo_of_known self hbase (hids _ hmem) (hknown _ hmem)⟩

/-! ## The node behind the bridge -/

/-- The same image, at a URL that leads to the first one. -/
structure SameImage (bridge : Bridge) (base : UrlParts) (image image' : PlanImage) : Prop where
  image_id : image'.image_id = image.image_id
  url : ∃ source, image.url = .copy _ source ∧ LeadsTo bridge base image'.url source

structure SameDownload (bridge : Bridge) (base : UrlParts) (e e' : PlanDownload) : Prop where
  asset_id : e'.asset_id = e.asset_id
  content_sha256 : e'.content_sha256 = e.content_sha256
  byte_size : e'.byte_size = e.byte_size
  url : ∃ source, e.url = .copy _ source ∧ LeadsTo bridge base e'.url source

/-- Of the URLs that are set for an id, all being the same, this one is found. -/
theorem add_of_mem {urls : Urls} {texts : List (Bytes × Bytes)} {image_id url : Bytes} (hmem : (image_id, url) ∈ texts)
    (hone : ∀ e ∈ texts, e.1 = image_id → e.2 = url) : urls.add texts image_id = some url := by
  induction texts using List.reverseRecOn with
  | nil => exact absurd hmem List.not_mem_nil
  | append_singleton texts e ih =>
    rw [Urls.add, List.foldl_append]
    change (if image_id = e.1 then some e.2 else urls.add texts image_id) = some url
    by_cases hlast : image_id = e.1
    · rw [if_pos hlast, hone e (by simp) hlast.symm]
    · rw [if_neg hlast]
      refine ih ?_ fun e' he' => hone e' (List.mem_append_left _ he')
      rcases List.mem_append.1 hmem with hmem | hmem
      · exact hmem
      · rw [← List.mem_singleton.1 hmem] at hlast
        exact absurd rfl hlast

/-- The default of `--public-base`. -/
def labBridge : Bridge := ⟨ascii "http://192.0.2.2:8765", true, fun _ => none⟩

def labBase : UrlParts := ⟨false, ascii "192.0.2.2", ascii "8765", ascii "/"⟩

theorem publicBase_lab : PublicBase labBridge.public_base labBase where
  parsed := by decide
  noNul := by decide
  noPath https p h := by
    have hscheme : split_scheme labBridge.public_base = some (false, ascii "192.0.2.2:8765") := by decide
    cases h.symm.trans hscheme
    decide

theorem plainId_lab : PlainId labBridge (ascii "a") where
  named := by decide
  visible := by simp [ascii, Visible]
  fits := by
    have hlen : (labBridge.image_url (ascii "a")).length = 39 := rfl
    rw [hlen, EINK_HTTP_URL_MAX]
    omega

/-- The picture of a plan with one image. -/
def labPlan : Json := oneImage (ascii "https://s/a.jpg")

/-- A configuration that gets through has image records only, all from `https`. -/
theorem config_entries_eq {items items' : List Json} {urls urls' : Urls}
    (h : self.config_entries items urls = some (items', urls')) :
    items' = items.map (self.rewritten "image_id") ∧ urls' = urls.add (items.filterMap (entry_texts "image_id")) ∧
      ∀ e ∈ items.filterMap (entry_texts "image_id"), is_https e.2 = true := by
  induction items generalizing items' urls with
  | nil =>
    cases h
    exact ⟨rfl, rfl, nofun⟩
  | cons item items ih =>
    unfold config_entries at h
    split at h
    · next image_id url hid hurl =>
      split at h
      · next hhttps =>
        cases hrest : self.config_entries items (urls.set image_id url) with
        | none =>
          rw [hrest] at h
          cases h
        | some rest =>
          rw [hrest] at h
          cases h
          obtain ⟨hitems, hurls, hall⟩ := ih hrest
          have hentry : entry_texts "image_id" item = some (image_id, url) := entry_texts_eq_some.2 ⟨hid, hurl⟩
          rw [List.filterMap_cons_some hentry, List.map_cons]
          refine ⟨?_, hurls, ?_⟩
          · rw [hitems, rewritten, hentry]
          · intro e he
            rcases List.mem_cons.1 he with rfl | he
            · exact hhttps
            · exact hall e he
      · cases h
    · cases h

theorem texts_rewritten (items : List Json) :
    (items.map (self.rewritten "image_id")).filterMap image_texts =
      (items.filterMap image_texts).map fun e => (e.1, self.image_url e.1) := by
  induction items with
  | nil => rfl
  | cons item items ih =>
    have htexts : image_texts = entry_texts "image_id" := rfl
    rw [List.map_cons, List.filterMap_cons, List.filterMap_cons, ih, htexts]
    cases hentry : entry_texts "image_id" item with
    | none =>
      rw [rewritten_of_none hentry, hentry]
    | some e =>
      obtain ⟨image_id, url⟩ := e
      obtain ⟨hurl', hothers⟩ := rewritten_of_texts self hentry
      obtain ⟨hid, -⟩ := entry_texts_eq_some.1 hentry
      have hid' := (string_item_congr (hothers "image_id" (by decide))).trans hid
      rw [entry_texts_eq_some.2 ⟨hid', hurl'⟩]
      rfl

/-- What the node makes of a configuration, the request for the debug log apart. -/
def config_of (root : Json) : Config where
  sched := .take ((array_item root "schedule").filterMap plan_job)
  images := ((array_item root "images").filterMap config_image).take EINK_HTTP_MAX_IMAGES
  orientation := match get_item root "orientation" with
    | some (.number n) => valueint n
    | _ => 0

theorem parse_config_of {cJSON_ParseWithLength : Bytes → Option Json} {json : Bytes} {root : Json}
    (h : cJSON_ParseWithLength json = some root) :
    parse_config_json cJSON_ParseWithLength json = .ok (config_of root, is_true root "request_debug_log") := by
  rw [parse_config_json, h]
  rfl

/-- The table of a configuration that gets through is rewritten, and its URLs are all that the bridge knows. -/
theorem config_spec {status : Int} {root root' : Json} {self' : Bridge}
    (h : self.config status (some root) = (some root', self')) :
    RewritesMember self "images" "image_id" root root' ∧
      self' = { self with image_urls := Urls.add (fun _ => none) (plan_entries root) } := by
  unfold config at h
  split at h
  · cases h
  split at h
  · next fields hroot =>
    obtain rfl := Option.some.inj hroot
    split at h
    · next images jobs himages hjobs =>
      split at h
      · next items next_urls hentries =>
        cases h
        obtain ⟨rfl, rfl, -⟩ := config_entries_eq hentries
        have hset := get_set_item_self "images" (.array (images.map (self.rewritten "image_id"))) himages
        have htable := array_item_of_array himages
        refine ⟨⟨?_, ?_, fun key hne => get_set_item_ne hne _ _⟩, ?_⟩
        · rw [array_item_of_array hset, htable]
        · rw [has_len, has_len, hset, himages]
        · rw [plan_entries, htable]
          rfl
      · cases h
    · cases h
  · cases h

/-- A configuration with no job and one image. -/
def labConfig : Json :=
  .object [(ascii "schedule", .array []), (ascii "images", .array [.object
    [(ascii "image_id", .string (ascii "a")), (ascii "url", .string (ascii "https://s/a.jpg"))]])]

/-- As the bridge answers it. -/
def labAnswer : Json :=
  .object [(ascii "schedule", .array []), (ascii "images", .array [.object
    [(ascii "image_id", .string (ascii "a")), (ascii "url", .string (labBridge.image_url (ascii "a")))]])]

/-- A reader of these two, the first one as the empty text. -/
def labRead (json : Bytes) : Option Json := if json = [] then some labConfig else some labAnswer

end Bridge

end EinkNode.Http
