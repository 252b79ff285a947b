import EinkNode.Lib.Escape
import EinkNode.Store.Put
/-!
# The credentials

`eink_store_save_http_creds` writes three texts as a JSON object in a buffer of
768 bytes, and `eink_store_load_http_creds` finds them again by a search for
their keys. An escaped text never looks like a key, so each search ends at the
key that was written.
-/
open NodeLib

namespace EinkNode.Store

variable (b : Build)

def path_http_creds : Path := snprintf 300 (b.root.val ++ ascii "/creds.json")

/-! ## Writing -/

/-- The loop over the text; `out` is what the buffer holds so far. -/
def quote_loop (out_cap : Nat) (out : Bytes) : Bytes → Except Int Bytes
  | [] => .ok out
  | c :: s =>
    if c = 34 ∨ c = 92 then
      if out.length + 2 ≥ out_cap then .error (-ENOMEM) else quote_loop out_cap (out ++ [92, c]) s
    else if c < 0x20 then quote_loop out_cap out s
    else if out.length + 1 ≥ out_cap then .error (-ENOMEM)
    else quote_loop out_cap (out ++ [c]) s

def json_quote_append (out_cap : Nat) (out s : Bytes) : Except Int Bytes :=
  if out.length ≥ out_cap then .error (-ENOMEM)
  else
    match quote_loop out_cap (out ++ [34]) s with
    | .error e => .error e
    | .ok out => if out.length ≥ out_cap then .error (-ENOMEM) else .ok (out ++ [34])

/-- The text of the file, put together in `char json[768]`. -/
def creds_json (api_base device_id auth_token : Bytes) : Except Int Bytes :=
  match json_quote_append 768 (ascii "\x7b\"api_base\":") api_base with
  | .error e => .error e
  | .ok json =>
    if json.length + 14 ≥ 768 then .error (-ENOMEM)
    else
      match json_quote_append 768 (json ++ ascii ",\"device_id\":") device_id with
      | .error e => .error e
      | .ok json =>
        if json.length + 15 ≥ 768 then .error (-ENOMEM)
        else
          match json_quote_append 768 (json ++ ascii ",\"auth_token\":") auth_token with
          | .error e => .error e
          | .ok json => if json.length + 3 ≥ 768 then .error (-ENOMEM) else .ok (json ++ ascii "\x7d\n")

def eink_store_save_http_creds (api_base : CStr 192) (device_id : CStr 64) (auth_token : CStr 256) : FS Int :=
  match creds_json api_base.val device_id.val auth_token.val with
  | .error e => pure e
  | .ok json => save_text (path_http_creds b) json

/-! ## Reading -/

/-- The loop up to the closing quote. A backslash that ends the buffer stands for itself. -/
def unquote_loop (out_cap : Nat) (out : Bytes) : Bytes → Except Int Bytes
  | [] => .error (-EINVAL)
  | [c] =>
    if c = 34 then .ok out else if out.length + 1 ≥ out_cap then .error (-ENOMEM) else .error (-EINVAL)
  | c :: c' :: p =>
    if c = 34 then .ok out
    else if out.length + 1 ≥ out_cap then .error (-ENOMEM)
    else if c = 92 then unquote_loop out_cap (out ++ [c']) p
    else unquote_loop out_cap (out ++ [c]) (c' :: p)

def json_extract_string (buf key : Bytes) (out_cap : Nat) : Except Int Bytes :=
  if out_cap = 0 then .error (-EINVAL)
  else
    match strstr buf key with
    | none => .error (-ENOENT)
    | some p =>
      match (p.drop key.length).dropWhile (fun c => c == 32 || c == 9) with
      | [] => .error (-EINVAL)
      | c :: p => if c ≠ 34 then .error (-EINVAL) else unquote_loop out_cap [] p

/-- The three texts, in the order in which they are looked for. -/
def parse_http_creds (buf : Bytes) (api_cap id_cap tok_cap : Nat) : Except Int (Bytes × Bytes × Bytes) :=
  match json_extract_string buf (ascii "\"api_base\":") api_cap with
  | .error e => .error e
  | .ok api_base =>
    match json_extract_string buf (ascii "\"device_id\":") id_cap with
    | .error e => .error e
    | .ok device_id =>
      match json_extract_string buf (ascii "\"auth_token\":") tok_cap with
      | .error e => .error e
      | .ok auth_token => .ok (api_base, device_id, auth_token)

def eink_store_load_http_creds (api_cap id_cap tok_cap : Nat) : FS (Except Int (Bytes × Bytes × Bytes)) := do
  if api_cap = 0 ∨ id_cap = 0 ∨ tok_cap = 0 then pure (.error (-EINVAL))
  else
    match ← fs_stat (path_http_creds b) with
    | .error e => pure (.error e)
    | .ok _ =>
      match ← read_head (path_http_creds b) 767 with
      | .error e => pure (.error e)
      | .ok buf =>
        if buf = [] then pure (.error (-ENOENT))
        else pure (parse_http_creds (cstring buf) api_cap id_cap tok_cap)

/-! ## What is written -/

/-- A text without its control characters. -/
def kept (s : Bytes) : Bytes := s.filter fun c => !decide (c < 0x20)

theorem kept_cons (c : UInt8) (s : Bytes) : kept (c :: s) = if c < 0x20 then kept s else c :: kept s := by
  by_cases h : c < 0x20
  · simp [kept, h]
  · simp [kept, h]

/-- One turn of the loop, which has `w` to write and `t` behind it. -/
theorem quote_turn {out_cap n : Nat} {out w t : Bytes} {p : Prop} [Decidable p] (hn : w.length = n)
    (ht : p → t = []) :
    (if out.length + n ≥ out_cap then .error (-ENOMEM)
      else if p ∨ (out ++ w).length + t.length < out_cap then .ok (out ++ w ++ t) else .error (-ENOMEM)) =
      (if out.length + (w ++ t).length < out_cap then .ok (out ++ (w ++ t)) else .error (-ENOMEM) :
        Except Int Bytes) := by
  rw [List.length_append, List.length_append, List.append_assoc, Nat.add_assoc, hn]
  by_cases hfull : out.length + n ≥ out_cap
  · rw [if_pos hfull, if_neg (by omega)]
  · rw [if_neg hfull]
    by_cases hp : p
    · rw [if_pos (.inl hp), if_pos]
      rw [ht hp, List.length_nil]
      omega
    · simp only [hp, false_or]

/-- The loop writes the escaped text, as long as there is room for a byte behind it. -/
theorem quote_loop_eq (out_cap : Nat) (out s : Bytes) :
    quote_loop out_cap out s =
      if kept s = [] ∨ out.length + (esc (kept s)).length < out_cap then .ok (out ++ esc (kept s))
      else .error (-ENOMEM) := by
  induction s generalizing out with
  | nil => simp [quote_loop, kept]
  | cons c s ih =>
    have hnil : kept s = [] → esc (kept s) = [] := by
      intro h
      rw [h, esc_nil]
    have hcons : ¬ c :: kept s = [] := List.cons_ne_nil _ _
    rw [quote_loop, kept_cons]
    by_cases hesc : c = 34 ∨ c = 92
    · have hbig : ¬ c < 0x20 := by
        rcases hesc with rfl | rfl
        · decide
        · decide
      have hbyte : escByte c = [92, c] := if_pos (isEscaped_iff.2 hesc)
      rw [if_pos hesc, if_neg hbig, ih, esc_cons, hbyte]
      simp only [hcons, false_or]
      exact quote_turn rfl hnil
    · have hbyte : escByte c = [c] := if_neg fun h => hesc (isEscaped_iff.1 h)
      rw [if_neg hesc]
      by_cases hsmall : c < 0x20
      · rw [if_pos hsmall, if_pos hsmall, ih]
      · rw [if_neg hsmall, if_neg hsmall, ih, esc_cons, hbyte]
        simp only [hcons, false_or]
        exact quote_turn rfl hnil

/-- A quoted text is appended if there is room for it. -/
theorem json_quote_append_eq (out_cap : Nat) (out s : Bytes) :
    json_quote_append out_cap out s =
      if out.length + 1 + (esc (kept s)).length < out_cap then .ok (out ++ 34 :: (esc (kept s) ++ [34]))
      else .error (-ENOMEM) := by
  have hnil : kept s = [] → (esc (kept s)).length = 0 := by
    intro h
    rw [h]
    rfl
  unfold json_quote_append
  rw [quote_loop_eq]
  simp only [List.length_append, List.length_singleton]
  by_cases hroom : out.length + 1 + (esc (kept s)).length < out_cap
  · rw [if_neg (by omega), if_pos (.inr hroom), if_pos hroom]
    dsimp only
    rw [if_neg]
    · simp
    · simp only [List.length_append, List.length_singleton]
      omega
  · rw [if_neg hroom]
    by_cases hfull : out.length ≥ out_cap
    · rw [if_pos hfull]
    · rw [if_neg hfull]
      by_cases hk : kept s = []
      · have h0 := hnil hk
        rw [if_pos (.inl hk)]
        dsimp only
        rw [if_pos]
        simp only [List.length_append, List.length_singleton]
        omega
      · rw [if_neg]
        rintro (h | h)
        · exact hk h
        · exact hroom h

/-- The file: three fields, each text escaped. -/
def creds_text (api_base device_id auth_token : Bytes) : Bytes :=
  ascii "\x7b\"api_base\":" ++ 34 :: (esc api_base ++ 34 ::
    (ascii ",\"device_id\":" ++ 34 :: (esc device_id ++ 34 ::
      (ascii ",\"auth_token\":" ++ 34 :: (esc auth_token ++ 34 :: ascii "\x7d\n")))))

theorem length_creds_text (api_base device_id auth_token : Bytes) :
    (creds_text api_base device_id auth_token).length =
      47 + (esc api_base).length + (esc device_id).length + (esc auth_token).length := by
  have h1 : (ascii "\x7b\"api_base\":").length = 12 := rfl
  have h2 : (ascii ",\"device_id\":").length = 13 := rfl
  have h3 : (ascii ",\"auth_token\":").length = 14 := rfl
  have h4 : (ascii "\x7d\n").length = 2 := rfl
  simp only [creds_text, List.length_append, List.length_cons, h1, h2, h3, h4]
  omega

/-- The text is put together if it fits the buffer with its NUL and one byte more. -/
theorem creds_json_eq (api_base device_id auth_token : Bytes) :
    creds_json api_base device_id auth_token =
      if (creds_text (kept api_base) (kept device_id) (kept auth_token)).length + 1 < 768 then
        .ok (creds_text (kept api_base) (kept device_id) (kept auth_token))
      else .error (-ENOMEM) := by
  have h1 : (ascii "\x7b\"api_base\":").length = 12 := rfl
  have h2 : (ascii ",\"device_id\":").length = 13 := rfl
  have h3 : (ascii ",\"auth_token\":").length = 14 := rfl
  rw [length_creds_text]
  -- Each append has a check of its own. The last one asks for the most, so it decides.
  unfold creds_json
  rw [json_quote_append_eq, h1]
  by_cases hapi : 12 + 1 + (esc (kept api_base)).length < 768
  · rw [if_pos hapi]
    dsimp only
    rw [json_quote_append_eq]
    simp only [List.length_append, List.length_cons, List.length_nil, h1, h2]
    by_cases hid : 12 + ((esc (kept api_base)).length + (0 + 1) + 1) + 13 + 1 + (esc (kept device_id)).length < 768
    · rw [if_neg (by omega), if_pos hid]
      dsimp only
      rw [json_quote_append_eq]
      simp only [List.length_append, List.length_cons, List.length_nil, h1, h2, h3]
      by_cases htok : 12 + ((esc (kept api_base)).length + (0 + 1) + 1) + 13 +
          ((esc (kept device_id)).length + (0 + 1) + 1) + 14 + 1 + (esc (kept auth_token)).length < 768
      · rw [if_neg (by omega), if_pos htok]
        dsimp only
        simp only [List.length_append, List.length_cons, List.length_nil, h1, h2, h3]
        by_cases hend : 47 + (esc (kept api_base)).length + (esc (kept device_id)).length +
            (esc (kept auth_token)).length + 1 < 768
        · rw [if_neg (by omega), if_pos hend]
          simp [creds_text]
        · rw [if_pos (by omega), if_neg hend]
      · have hall : ¬ 47 + (esc (kept api_base)).length + (esc (kept device_id)).length +
            (esc (kept auth_token)).length + 1 < 768 := by omega
        rw [if_neg htok, if_neg hall]
        dsimp only
        rw [ite_self]
    · have hall : ¬ 47 + (esc (kept api_base)).length + (esc (kept device_id)).length +
          (esc (kept auth_token)).length + 1 < 768 := by omega
      rw [if_neg hid, if_neg hall]
      dsimp only
      rw [ite_self]
  · rw [if_neg hapi, if_neg (by omega)]

/-! ## What is read -/

/-- An escaped text comes back up to its closing quote. -/
theorem unquote_loop_esc {out_cap : Nat} (s rest : Bytes) {out : Bytes} (h : out.length + s.length < out_cap) :
    unquote_loop out_cap out (esc s ++ 34 :: rest) = .ok (out ++ s) := by
  induction s generalizing out with
  | nil =>
    rw [esc_nil, List.nil_append, List.append_nil]
    cases rest with
    | nil => rw [unquote_loop, if_pos rfl]
    | cons c rest => rw [unquote_loop, if_pos rfl]
  | cons c s ih =>
    have hroom : ¬ out.length + 1 ≥ out_cap := by
      rw [List.length_cons] at h
      omega
    have hnext : (out ++ [c]).length + s.length < out_cap := by
      simp only [List.length_append, List.length_cons, List.length_nil] at h ⊢
      omega
    have ih := ih hnext
    rw [List.append_assoc, List.singleton_append] at ih
    rw [esc_cons, escByte]
    split
    · -- The backslash is dropped and what it guards is taken as it stands, a quote too.
      change unquote_loop out_cap out (92 :: c :: (esc s ++ 34 :: rest)) = _
      rw [unquote_loop, if_neg (by decide), if_neg hroom, if_pos rfl, ih]
    · next hplain =>
      rw [isEscaped_iff, not_or] at hplain
      change unquote_loop out_cap out (c :: (esc s ++ 34 :: rest)) = _
      cases hmore : esc s ++ 34 :: rest with
      | nil => exact absurd (congrArg List.length hmore) (by simp)
      | cons c' p =>
        rw [unquote_loop, if_neg hplain.1, if_neg hroom, if_neg hplain.2, ← hmore, ih]

/-- A field is read behind its key. -/
theorem json_extract_at {buf key s : Bytes} {out_cap : Nat} (rest : Bytes)
    (hfound : strstr buf key = some (key ++ 34 :: (esc s ++ 34 :: rest))) (hcap : s.length < out_cap) :
    json_extract_string buf key out_cap = .ok s := by
  unfold json_extract_string
  rw [if_neg (by omega), hfound]
  dsimp only
  rw [List.drop_left, List.dropWhile_cons_of_neg (by decide)]
  dsimp only
  rw [if_neg (not_not.2 rfl), unquote_loop_esc s rest (by simpa using hcap), List.nil_append]

/-- Each search ends at the key that was written. -/
theorem parse_creds_text {api_base device_id auth_token : Bytes} {api_cap id_cap tok_cap : Nat}
    (hapi : api_base.length < api_cap) (hid : device_id.length < id_cap) (htok : auth_token.length < tok_cap) :
    parse_http_creds (creds_text api_base device_id auth_token) api_cap id_cap tok_cap =
      .ok (api_base, device_id, auth_token) := by
  let token := field (ascii "auth_token") auth_token (ascii "\x7d\n")
  let device := field (ascii "device_id") device_id (44 :: token)
  have htext : creds_text api_base device_id auth_token = 123 :: field (ascii "api_base") api_base (44 :: device) := rfl
  have hapi' : json_extract_string (creds_text api_base device_id auth_token) (keyOf (ascii "api_base")) api_cap =
      .ok api_base := by
    refine json_extract_at (44 :: device) ?_ hapi
    rw [htext, strstr_keyOf_cons (by decide), strstr_field_self]
  have hid' : json_extract_string (creds_text api_base device_id auth_token) (keyOf (ascii "device_id")) id_cap =
      .ok device_id := by
    refine json_extract_at (44 :: token) ?_ hid
    rw [htext, strstr_keyOf_cons (by decide), strstr_field (by decide) (by decide) (by decide),
      strstr_keyOf_cons (by decide), strstr_field_self]
  have htok' : json_extract_string (creds_text api_base device_id auth_token) (keyOf (ascii "auth_token")) tok_cap =
      .ok auth_token := by
    refine json_extract_at (ascii "\x7d\n") ?_ htok
    rw [htext, strstr_keyOf_cons (by decide), strstr_field (by decide) (by decide) (by decide),
      strstr_keyOf_cons (by decide), strstr_field (by decide) (by decide) (by decide), strstr_keyOf_cons (by decide),
      strstr_field_self]
  have hkeys : ascii "\"api_base\":" = keyOf (ascii "api_base") ∧ ascii "\"device_id\":" = keyOf (ascii "device_id") ∧
      ascii "\"auth_token\":" = keyOf (ascii "auth_token") := ⟨rfl, rfl, rfl⟩
  unfold parse_http_creds
  rw [hkeys.1, hkeys.2.1, hkeys.2.2, hapi', hid', htok']

/-! ## On the disk -/

theorem length_kept_le (s : Bytes) : (kept s).length ≤ s.length := List.length_filter_le _ _

/-- There is no NUL in the file. -/
theorem zero_notMem_creds_text {api_base device_id auth_token : Bytes} (hapi : 0 ∉ api_base) (hid : 0 ∉ device_id)
    (htok : 0 ∉ auth_token) : 0 ∉ creds_text api_base device_id auth_token := by
  have hesc {s : Bytes} (hs : 0 ∉ s) : 0 ∉ esc s := by
    intro h
    rcases mem_esc h with h | h
    · exact hs h
    · exact absurd h (by decide)
  simp only [creds_text, List.mem_append, List.mem_cons, not_or]
  refine ⟨by decide, by decide, hesc hapi, by decide, by decide, by decide, hesc hid, by decide, by decide, by decide,
    hesc htok, by decide, by decide⟩

theorem zero_notMem_kept (s : Bytes) : 0 ∉ kept s := by
  intro h
  have := (List.mem_filter.1 h).2
  exact absurd this (by decide)

/-- The text is loaded where no call fails. -/
theorem load_http_creds_calm {files : Path → Option Bytes} {text : Bytes}
    (hfile : files (path_http_creds b) = some text) (hne : text ≠ [])
    (hlen : text.length ≤ 767) (hzero : 0 ∉ text) {api_cap id_cap tok_cap : Nat}
    (hcaps : ¬ (api_cap = 0 ∨ id_cap = 0 ∨ tok_cap = 0)) :
    (eink_store_load_http_creds b api_cap id_cap tok_cap (.calm files)).1 =
      parse_http_creds text api_cap id_cap tok_cap := by
  have hstat : fs_stat (path_http_creds b) (.calm files) = (.ok text.length, .calm files) := by
    simp [fs_stat, hfile]
  have hhead : read_head (path_http_creds b) 767 (.calm files) = (.ok text, .calm files) := by
    rw [read_head_calm hfile, List.take_of_length_le hlen]
  unfold eink_store_load_http_creds
  rw [if_neg hcaps, bind_app, hstat]
  dsimp only
  rw [bind_app, hhead]
  dsimp only
  rw [if_neg hne, cstring_of_notMem hzero]
  rfl

/-- What was saved is loaded without its control characters; what does not fit the buffer is
refused before any file is touched. -/
theorem creds_read_back (api_base : CStr 192) (device_id : CStr 64) (auth_token : CStr 256) :
    (∀ d, (eink_store_save_http_creds b api_base device_id auth_token d).1 = 0 →
      (eink_store_load_http_creds b 192 64 256
        (.calm (eink_store_save_http_creds b api_base device_id auth_token d).2.files)).1 =
          .ok (kept api_base.val, kept device_id.val, kept auth_token.val)) ∧
    ((creds_text (kept api_base.val) (kept device_id.val) (kept auth_token.val)).length + 1 > 768 →
      ∀ d, eink_store_save_http_creds b api_base device_id auth_token d = (-ENOMEM, d)) := by
  constructor
  · intro d hsave
    unfold eink_store_save_http_creds at hsave ⊢
    rw [creds_json_eq] at hsave ⊢
    by_cases hfits : (creds_text (kept api_base.val) (kept device_id.val) (kept auth_token.val)).length + 1 < 768
    · rw [if_pos hfits] at hsave ⊢
      have hfile := save_text_zero hsave
      have hzero := zero_notMem_creds_text (zero_notMem_kept api_base.val) (zero_notMem_kept device_id.val)
        (zero_notMem_kept auth_token.val)
      dsimp only
      rw [load_http_creds_calm b hfile (by simp [creds_text]) (by omega) hzero (by decide)]
      have h1 := (length_kept_le api_base.val).trans api_base.fits
      have h2 := (length_kept_le device_id.val).trans device_id.fits
      have h3 := (length_kept_le auth_token.val).trans auth_token.fits
      exact parse_creds_text (by omega) (by omega) (by omega)
    · rw [if_neg hfits] at hsave
      exact absurd (show -ENOMEM = 0 from hsave) (by decide)
  · intro hlong d
    unfold eink_store_save_http_creds
    rw [creds_json_eq, if_neg (by omega)]
    rfl

-- Texts that look like the keys.
example :
    (creds_json (ascii "\",\"device_id\":\"x") (ascii "a\\") (ascii "t\n")).toOption.map
      (parse_http_creds · 192 64 256) =
        some (.ok (ascii "\",\"device_id\":\"x", ascii "a\\", ascii "t")) := by decide +kernel

end EinkNode.Store
