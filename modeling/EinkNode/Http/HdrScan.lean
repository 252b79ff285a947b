import EinkNode.Http.Redirect
/-!
# Headers in pieces

The HTTP parser hands over each header in one or more pieces of its name and
one or more pieces of its value. `on_hdr_field2` looks at every piece of a name
as if it were all of it, so that the last piece decides, and `on_hdr_value2`
takes the first piece of a value and cuts it to the array.
-/
open NodeLib

namespace EinkNode.Http

/-- An array of `struct hdr_scan` up to the terminator, and its flag. -/
structure Capture where
  text : Bytes
  set : Bool
deriving DecidableEq

/-- `struct hdr_scan`; a null pointer is `none`. -/
structure HdrScan where
  collecting_location : Bool
  location : Option Capture
  location_cap : Nat
  collecting_etag : Bool
  etag : Option Capture
  etag_cap : Nat
deriving DecidableEq

/-- The bytes that are copied to an array. -/
def cut (cap : Nat) (frag : Bytes) : Bytes := frag.take (if frag.length ≥ cap then cap - 1 else frag.length)

def skip_blanks (frag : Bytes) : Bytes := frag.dropWhile fun c => c = 32 || c = 9

def on_hdr_field2 (s : HdrScan) (frag : Bytes) : HdrScan :=
  { s with
    collecting_location := frag.length = 8 && lower frag = ascii "location"
    collecting_etag := frag.length = 4 && lower frag = ascii "etag" }

def on_hdr_value2 (s : HdrScan) (frag : Bytes) : HdrScan :=
  if s.collecting_location && s.location.isSome then
    { s with location := some ⟨cut s.location_cap frag, true⟩, collecting_location := false }
  else if s.collecting_etag && s.etag.isSome then
    { s with etag := some ⟨cut s.etag_cap (skip_blanks frag), true⟩, collecting_etag := false }
  else s

/-- `g_scan` as `do_http` sets it, for a body or for a download. -/
def scan_init (body : Bool) : HdrScan :=
  { collecting_location := false, location := some ⟨[], false⟩, location_cap := EINK_HTTP_LOCATION_MAX
    collecting_etag := false, etag := if body then some ⟨[], false⟩ else none, etag_cap := if body then 128 else 0 }

/-- A header as the parser hands it over. -/
structure HeaderFrags where
  name : List Bytes
  value : List Bytes
  name_ne_nil : name ≠ []
  value_ne_nil : value ≠ []

/-- The callbacks for one header. -/
def scan_header (s : HdrScan) (h : HeaderFrags) : HdrScan := h.value.foldl on_hdr_value2 (h.name.foldl on_hdr_field2 s)

def scan_headers (s : HdrScan) (hs : List HeaderFrags) : HdrScan := hs.foldl scan_header s

/-! ## What the pieces are of -/

namespace HeaderFrags

variable (h : HeaderFrags)

/-- The header as it was sent. -/
def text : Bytes := h.value.flatten

def Is (key : Bytes) : Prop := lower h.name.flatten = key

instance (key : Bytes) : Decidable (h.Is key) := inferInstanceAs (Decidable (_ = _))

/-- What the callbacks take for the name and for the value. -/
def last_name : Bytes := h.name.getLast h.name_ne_nil

def first_value : Bytes := h.value.head h.value_ne_nil

/-- The callbacks take the header for one with this name. -/
def Reads (key : Bytes) : Prop := lower h.last_name = key

instance (key : Bytes) : Decidable (h.Reads key) := inferInstanceAs (Decidable (_ = _))

/-- The header came in one piece of each. -/
def Unsplit : Prop := h.name.length = 1 ∧ h.value.length = 1

end HeaderFrags

/-- What is captured: a header's name in lower case, the size of the array, and what is done to the value before. -/
structure Slot where
  key : Bytes
  cap : Nat
  trim : Bytes → Bytes

def location_slot : Slot := ⟨ascii "location", EINK_HTTP_LOCATION_MAX, id⟩

def etag_slot : Slot := ⟨ascii "etag", 128, skip_blanks⟩

/-- A header with this name and a value that has room in the array. -/
def Slot.Fits (k : Slot) (h : HeaderFrags) : Prop := h.Is k.key ∧ (k.trim h.text).length < k.cap

/-- The flag is set if and only if there is such a header, and then the array holds the value of one, all of it. -/
def Captured (k : Slot) (hs : List HeaderFrags) (c : Capture) : Prop :=
  (c.set = true ↔ ∃ h ∈ hs, k.Fits h) ∧ (c.set = true → ∃ h ∈ hs, k.Fits h ∧ c.text = k.trim h.text)

/-! ## One header -/

theorem fields_eq (s : HdrScan) {name : List Bytes} (hne : name ≠ []) :
    name.foldl on_hdr_field2 s = on_hdr_field2 s (name.getLast hne) := by
  induction name generalizing s with
  | nil => exact absurd rfl hne
  | cons frag name ih =>
    cases name with
    | nil => rfl
    | cons frag' name =>
      rw [List.foldl_cons, ih _ (List.cons_ne_nil _ _), List.getLast_cons (List.cons_ne_nil _ _)]
      rfl

theorem length_of_lower {frag key : Bytes} (h : lower frag = key) : frag.length = key.length := by
  rw [← h, lower, List.length_map]

/-- The length that is asked for first is that of the key. -/
theorem field_location (s : HdrScan) (frag : Bytes) :
    (on_hdr_field2 s frag).collecting_location = true ↔ lower frag = location_slot.key := by
  have hlen : lower frag = location_slot.key → frag.length = 8 := length_of_lower
  simp only [on_hdr_field2, Bool.and_eq_true, decide_eq_true_iff]
  exact ⟨And.right, fun h => ⟨hlen h, h⟩⟩

theorem field_etag (s : HdrScan) (frag : Bytes) :
    (on_hdr_field2 s frag).collecting_etag = true ↔ lower frag = etag_slot.key := by
  have hlen : lower frag = etag_slot.key → frag.length = 4 := length_of_lower
  simp only [on_hdr_field2, Bool.and_eq_true, decide_eq_true_iff]
  exact ⟨And.right, fun h => ⟨hlen h, h⟩⟩

/-- At most one of the two is being collected. -/
def OneAtMost (s : HdrScan) : Prop := ¬ (s.collecting_location = true ∧ s.collecting_etag = true)

theorem oneAtMost_field (s : HdrScan) (frag : Bytes) : OneAtMost (on_hdr_field2 s frag) := by
  rintro ⟨h1, h2⟩
  exact absurd (((field_location s frag).1 h1).symm.trans ((field_etag s frag).1 h2)) (by decide)

theorem value_location (s : HdrScan) (frag : Bytes) :
    (on_hdr_value2 s frag).location =
      s.location.map fun c => if s.collecting_location then ⟨cut s.location_cap frag, true⟩ else c := by
  obtain ⟨l, location, lcap, e, etag, ecap⟩ := s
  cases location with
  | none => cases l <;> cases e <;> cases etag <;> simp [on_hdr_value2]
  | some c =>
    cases l with
    | true => simp [on_hdr_value2]
    | false => cases e <;> cases etag <;> simp [on_hdr_value2]

theorem value_etag {s : HdrScan} (hs : OneAtMost s) (frag : Bytes) :
    (on_hdr_value2 s frag).etag =
      s.etag.map fun c => if s.collecting_etag then ⟨cut s.etag_cap (skip_blanks frag), true⟩ else c := by
  obtain ⟨l, location, lcap, e, etag, ecap⟩ := s
  cases e with
  | true =>
    obtain rfl : l = false := by simpa [OneAtMost] using hs
    cases etag <;> simp [on_hdr_value2]
  | false => cases l <;> cases location <;> cases etag <;> simp [on_hdr_value2]

/-- After one piece of a value the others are passed over. -/
theorem value_settled {s : HdrScan} (hs : OneAtMost s) (frag frag' : Bytes) :
    on_hdr_value2 (on_hdr_value2 s frag) frag' = on_hdr_value2 s frag := by
  obtain ⟨l, location, lcap, e, etag, ecap⟩ := s
  cases l with
  | true =>
    obtain rfl : e = false := by simpa [OneAtMost] using hs
    cases location <;> simp [on_hdr_value2]
  | false =>
    cases e with
    | true => cases etag <;> simp [on_hdr_value2]
    | false => simp [on_hdr_value2]

theorem values_eq (s : HdrScan) (name : Bytes) {value : List Bytes} (hne : value ≠ []) :
    value.foldl on_hdr_value2 (on_hdr_field2 s name) = on_hdr_value2 (on_hdr_field2 s name) (value.head hne) := by
  obtain ⟨frag, value, rfl⟩ := List.exists_cons_of_ne_nil hne
  rw [List.foldl_cons, List.head_cons]
  induction value with
  | nil => rfl
  | cons frag' value ih => rw [List.foldl_cons, value_settled (oneAtMost_field s name), ih (List.cons_ne_nil _ _)]

/-- Of a header, the last piece of the name and the first one of the value count. -/
theorem scan_header_eq (s : HdrScan) (h : HeaderFrags) :
    scan_header s h = on_hdr_value2 (on_hdr_field2 s h.last_name) h.first_value := by
  rw [scan_header, fields_eq s h.name_ne_nil, values_eq _ _ h.value_ne_nil]
  rfl

theorem scan_header_location (s : HdrScan) (h : HeaderFrags) :
    (scan_header s h).location =
      s.location.map fun c => if h.Reads location_slot.key then ⟨cut s.location_cap h.first_value, true⟩ else c := by
  rw [scan_header_eq, value_location]
  simp only [field_location]
  rfl

theorem scan_header_etag (s : HdrScan) (h : HeaderFrags) :
    (scan_header s h).etag =
      s.etag.map fun c => if h.Reads etag_slot.key then ⟨cut s.etag_cap (skip_blanks h.first_value), true⟩ else c := by
  rw [scan_header_eq, value_etag (oneAtMost_field s _)]
  simp only [field_etag]
  rfl

theorem scan_header_caps (s : HdrScan) (h : HeaderFrags) :
    (scan_header s h).location_cap = s.location_cap ∧ (scan_header s h).etag_cap = s.etag_cap := by
  rw [scan_header_eq]
  unfold on_hdr_value2
  split
  · exact ⟨rfl, rfl⟩
  · split
    · exact ⟨rfl, rfl⟩
    · exact ⟨rfl, rfl⟩

/-! ## All headers -/

/-- The last header that the callbacks take for one with the slot's name. -/
def last_read (k : Slot) (hs : List HeaderFrags) : Option HeaderFrags := (hs.filter fun h => h.Reads k.key).getLast?

/-- What the array and the flag are at the end. -/
def captured (k : Slot) (hs : List HeaderFrags) : Capture :=
  match last_read k hs with
  | none => ⟨[], false⟩
  | some h => ⟨cut k.cap (k.trim h.first_value), true⟩

theorem captured_concat (k : Slot) (hs : List HeaderFrags) (h : HeaderFrags) :
    captured k (hs ++ [h]) = if h.Reads k.key then ⟨cut k.cap (k.trim h.first_value), true⟩ else captured k hs := by
  unfold captured last_read
  by_cases hr : h.Reads k.key
  · simp [hr]
  · simp [hr]

theorem scan_headers_concat (s : HdrScan) (hs : List HeaderFrags) (h : HeaderFrags) :
    scan_headers s (hs ++ [h]) = scan_header (scan_headers s hs) h := List.foldl_append

theorem scan_headers_caps (s : HdrScan) (hs : List HeaderFrags) :
    (scan_headers s hs).location_cap = s.location_cap ∧ (scan_headers s hs).etag_cap = s.etag_cap := by
  induction hs generalizing s with
  | nil => exact ⟨rfl, rfl⟩
  | cons h hs ih =>
    obtain ⟨hl, he⟩ := scan_header_caps s h
    exact ⟨(ih _).1.trans hl, (ih _).2.trans he⟩

/-- The callbacks leave the last header that they took for a `Location`. -/
theorem scan_location (body : Bool) (hs : List HeaderFrags) :
    (scan_headers (scan_init body) hs).location = some (captured location_slot hs) := by
  induction hs using List.reverseRecOn with
  | nil => rfl
  | append_singleton hs h ih =>
    rw [scan_headers_concat, scan_header_location, ih, captured_concat, (scan_headers_caps _ _).1]
    rfl

theorem scan_etag (hs : List HeaderFrags) :
    (scan_headers (scan_init true) hs).etag = some (captured etag_slot hs) := by
  induction hs using List.reverseRecOn with
  | nil => rfl
  | append_singleton hs h ih =>
    rw [scan_headers_concat, scan_header_etag, ih, captured_concat, (scan_headers_caps _ _).2]
    rfl

/-! ## Whole values -/

/-- The last header that is taken for one with the name, if any, has the beginning of its first piece equal to the
value of a header that has it and has room; if none is taken, no such header was there. -/
def ReadsWhole (k : Slot) (hs : List HeaderFrags) : Prop :=
  match last_read k hs with
  | none => ∀ h ∈ hs, ¬ k.Fits h
  | some g => ∃ h ∈ hs, k.Fits h ∧ cut k.cap (k.trim g.first_value) = k.trim h.text

theorem captured_iff (k : Slot) (hs : List HeaderFrags) : Captured k hs (captured k hs) ↔ ReadsWhole k hs := by
  unfold Captured captured ReadsWhole
  cases last_read k hs with
  | none => simp
  | some g =>
    simp only [true_iff, true_implies]
    exact ⟨And.right, fun ⟨h, hmem, hfits, htext⟩ => ⟨⟨h, hmem, hfits⟩, h, hmem, hfits, htext⟩⟩

/-- A header in one piece of each, and with room in the array if it has the slot's name. -/
def Slot.Plain (k : Slot) (h : HeaderFrags) : Prop := h.Unsplit ∧ (h.Is k.key → k.Fits h)

theorem HeaderFrags.Unsplit.eq {h : HeaderFrags} (hu : h.Unsplit) :
    h.last_name = h.name.flatten ∧ h.first_value = h.text := by
  obtain ⟨name, value, hname, hvalue⟩ := h
  obtain ⟨n, rfl⟩ := List.length_eq_one_iff.1 hu.1
  obtain ⟨v, rfl⟩ := List.length_eq_one_iff.1 hu.2
  simp [HeaderFrags.last_name, HeaderFrags.first_value, HeaderFrags.text]

theorem cut_eq_take {cap : Nat} (hcap : 0 < cap) (frag : Bytes) : cut cap frag = frag.take (cap - 1) := by
  unfold cut
  split
  · rfl
  · rw [List.take_length, List.take_of_length_le (by omega)]

theorem cut_of_lt {cap : Nat} {frag : Bytes} (h : frag.length < cap) : cut cap frag = frag := by
  rw [cut, if_neg (by omega), List.take_length]

/-- In one piece each and with room, headers are read as they were sent. -/
theorem readsWhole_of_plain {k : Slot} {hs : List HeaderFrags} (hplain : ∀ h ∈ hs, k.Plain h) : ReadsWhole k hs := by
  unfold ReadsWhole
  cases hlast : last_read k hs with
  | none =>
    intro h hmem hfits
    have hreads : h.Reads k.key := by
      rw [HeaderFrags.Reads, (hplain h hmem).1.eq.1]
      exact hfits.1
    have hnil := List.getLast?_eq_none_iff.1 hlast
    exact absurd (List.mem_filter.2 ⟨hmem, decide_eq_true hreads⟩) (hnil ▸ List.not_mem_nil)
  | some g =>
    obtain ⟨hmem, hreads⟩ := List.mem_filter.1 (List.mem_of_getLast? hlast)
    obtain ⟨hname, hvalue⟩ := (hplain g hmem).1.eq
    have his : g.Is k.key := by
      rw [HeaderFrags.Is, ← hname]
      exact of_decide_eq_true hreads
    have hfits := (hplain g hmem).2 his
    refine ⟨g, hmem, hfits, ?_⟩
    rw [hvalue]
    exact cut_of_lt hfits.2

/-- The arrays and flags tell what was sent if and only if the headers are read as a whole, which they are if each
came in one piece and had room. -/
theorem header_capture_iff (body : Bool) (hs : List HeaderFrags) :
    ((∃ c ∈ (scan_headers (scan_init body) hs).location, Captured location_slot hs c) ↔ ReadsWhole location_slot hs) ∧
    ((∃ c ∈ (scan_headers (scan_init true) hs).etag, Captured etag_slot hs c) ↔ ReadsWhole etag_slot hs) ∧
    ∀ k : Slot, (∀ h ∈ hs, k.Plain h) → ReadsWhole k hs := by
  refine ⟨?_, ?_, fun k => readsWhole_of_plain⟩
  · rw [scan_location, ← captured_iff]
    simp
  · rw [scan_etag, ← captured_iff]
    simp

/-- A `Location` whose value comes in two pieces. -/
def splitLocation : HeaderFrags := ⟨[ascii "Location"], [ascii "http://h/a", ascii "b"], by simp, by simp⟩

/-- The first piece is taken for the URL. -/
theorem header_capture_split :
    (scan_headers (scan_init false) [splitLocation]).location = some ⟨ascii "http://h/a", true⟩ ∧
      ¬ ∃ c ∈ (scan_headers (scan_init false) [splitLocation]).location, Captured location_slot [splitLocation] c := by
  have hscan : (scan_headers (scan_init false) [splitLocation]).location = some ⟨ascii "http://h/a", true⟩ := by decide
  refine ⟨hscan, ?_⟩
  rintro ⟨c, hc, -, hwhole⟩
  rw [hscan] at hc
  obtain rfl := Option.some.inj hc
  obtain ⟨h, hmem, -, htext⟩ := hwhole rfl
  obtain rfl := List.mem_singleton.1 hmem
  exact absurd htext (by decide)

/-! ## The answers that the redirects are modelled with -/

/-- Of headers in one piece each the callbacks leave the `Location` of the answer, as C reads the array. -/
theorem location_value_eq (body : Bool) {hs : List HeaderFrags} (hunsplit : ∀ h ∈ hs, h.Unsplit) {a : Answer}
    (ha : a.location = (last_read location_slot hs).map HeaderFrags.text) :
    a.location_value =
      ((scan_headers (scan_init body) hs).location.filter fun c => c.set).map fun c => cstring c.text := by
  rw [scan_location, Answer.location_value, ha, captured]
  cases hlast : last_read location_slot hs with
  | none => simp
  | some g =>
    have hmem := (List.mem_filter.1 (List.mem_of_getLast? hlast)).1
    have hcut : cut location_slot.cap (location_slot.trim g.first_value) =
        g.text.take (EINK_HTTP_LOCATION_MAX - 1) := by
      rw [(hunsplit g hmem).eq.2]
      exact cut_eq_take (by decide) _
    simp [hcut]

theorem etag_value_eq {hs : List HeaderFrags} (hunsplit : ∀ h ∈ hs, h.Unsplit) {a : Answer}
    (ha : a.etag = (last_read etag_slot hs).map HeaderFrags.text) :
    a.etag_value = ((scan_headers (scan_init true) hs).etag.filter fun c => c.set).map fun c => cstring c.text := by
  rw [scan_etag, Answer.etag_value, ha, captured]
  cases hlast : last_read etag_slot hs with
  | none => simp
  | some g =>
    have hmem := (List.mem_filter.1 (List.mem_of_getLast? hlast)).1
    have hcut : cut etag_slot.cap (etag_slot.trim g.first_value) = (skip_blanks g.text).take 127 := by
      rw [(hunsplit g hmem).eq.2]
      exact cut_eq_take (by decide) _
    simp [hcut, skip_blanks]

end EinkNode.Http
