import EinkNode.Lib.Errno
import EinkNode.Log.Secrets
/-!
# The uploaded log

`eink_http_upload_debug_log` sends a redacted snapshot of the ring. The bytes of
a secret show in it unless the wrap has dropped all of them or the redactor
still finds what marks them.
-/
open NodeLib

namespace EinkNode.Log

/-- What the upload looks at of the configuration. -/
structure NodeConfig where
  inited : Bool
  api_base : Bytes
  device_id : Bytes

inductive Target
  | fixture
  | post (url : Bytes)

variable (b : LogBuild)

/-- The `n` bytes of `debug_log_snap`. -/
def debug_log_body (r : LogRing) : Bytes :=
  let debug_log_snap := eink_log_ring_snapshot b r b.RING_SIZE
  eink_log_ring_redact_inplace (if debug_log_snap = [] then ascii "(empty debug log ring)\n" else debug_log_snap)

def eink_http_upload_debug_log (cfg : NodeConfig) (r : LogRing) : Except Int (Target × Bytes) :=
  if !cfg.inited || cfg.api_base = [] || cfg.device_id = [] then .error (-EINVAL)
  else if (ascii "file://").isPrefixOf cfg.api_base then .ok (.fixture, debug_log_body b r)
  else
    let url := snprintf 320 (cfg.api_base ++ ascii "/node/v0/device/" ++ cfg.device_id ++ ascii "/debug-log")
    .ok (.post url, debug_log_body b r)

/-! ## What the upload has of a part of the log -/

/-- Of a log of `size` bytes, what is uploaded of the part that stands at `pos`. -/
def seen (size pos : Nat) (part : Bytes) : Bytes :=
  (part.drop (size - b.RING_SIZE - pos)).take (b.RING_SIZE - 1 - (pos - (size - b.RING_SIZE)))

theorem uploadWindow_eq_seen (s : Bytes) : uploadWindow b s = seen b s.length 0 s := by
  rw [uploadWindow, seen, Nat.sub_zero, Nat.zero_sub, Nat.sub_zero]

theorem seen_append (size pos : Nat) (x y : Bytes) :
    seen b size pos (x ++ y) = seen b size pos x ++ seen b size (pos + x.length) y := by
  have hdrop : size - b.RING_SIZE - pos - x.length = size - b.RING_SIZE - (pos + x.length) := by omega
  have htake : b.RING_SIZE - 1 - (pos - (size - b.RING_SIZE)) - (x.length - (size - b.RING_SIZE - pos))
      = b.RING_SIZE - 1 - (pos + x.length - (size - b.RING_SIZE)) := by omega
  rw [seen, List.drop_append, List.take_append, List.length_drop, hdrop, htake, seen, seen]

/-! ## Logs that differ in a secret -/

/-- A log around a secret of `len` bytes. -/
structure LogText (kind : Secret) where
  head : Bytes
  len : Nat
  post : Bytes
  post_over : kind.Over post

namespace LogText

variable {kind : Secret} (t : LogText kind)

def text (secret : Bytes) : Bytes := t.head ++ kind.marker ++ (secret ++ t.post)

/-- Where the secret stands. -/
def start : Nat := (t.head ++ kind.marker).length

def size : Nat := t.start + (t.len + t.post.length)

/-- What the upload has of the text before the secret. -/
def before : Bytes := seen b t.size 0 (t.head ++ kind.marker)

/-- How many bytes of the secret the wrap leaves in the upload. -/
def shown : Nat :=
  min (t.len - (t.size - b.RING_SIZE - t.start)) (b.RING_SIZE - 1 - (t.start - (t.size - b.RING_SIZE)))

/-- What the upload has of the text behind the secret. -/
def after : Bytes := seen b t.size (t.start + t.len) t.post

/-- The writes log the text, with some secret. -/
def Logged (writes : List Bytes) : Prop := ∃ secret, kind.Fits t.len secret ∧ writes.flatten = t.text secret

/-- The upload is the same whatever the secret is. -/
def Hidden : Prop := ∀ cfg writes₁ writes₂, t.Logged writes₁ → t.Logged writes₂ →
  eink_http_upload_debug_log b cfg (writes₁.foldl (char_out b) .empty)
    = eink_http_upload_debug_log b cfg (writes₂.foldl (char_out b) .empty)

variable {b t} {secret : Bytes}

theorem length_text (h : kind.Fits t.len secret) : (t.text secret).length = t.size := by
  have hpost : (secret ++ t.post).length = t.len + t.post.length := by rw [List.length_append, h.length]
  rw [size, start, ← hpost]
  exact List.length_append

theorem window_text (h : kind.Fits t.len secret) :
    uploadWindow b (t.text secret) = t.before b ++ (seen b t.size t.start secret ++ t.after b) := by
  rw [uploadWindow_eq_seen, length_text h, text, seen_append b t.size 0 (t.head ++ kind.marker), Nat.zero_add,
    seen_append b t.size _ secret, h.length]
  rfl

theorem fits_seen (h : kind.Fits t.len secret) : kind.Fits (t.shown b) (seen b t.size t.start secret) := by
  refine ⟨?_, fun c hc => h.allowed c (List.mem_of_mem_drop (List.mem_of_mem_take hc))⟩
  rw [seen, List.length_take, List.length_drop, h.length, Nat.min_comm]
  rfl

/-- Every text of that length can be what is left of a secret. -/
theorem seen_onto {v : Bytes} (h : kind.Fits (t.shown b) v) (hpos : 0 < t.shown b) :
    ∃ secret, kind.Fits t.len secret ∧ seen b t.size t.start secret = v := by
  have h48 : kind.allows 48 = true := by cases kind <;> decide
  obtain ⟨gone, hgone⟩ : ∃ gone, gone = t.size - b.RING_SIZE - t.start := ⟨_, rfl⟩
  obtain ⟨room, hroom⟩ : ∃ room, room = b.RING_SIZE - 1 - (t.start - (t.size - b.RING_SIZE)) := ⟨_, rfl⟩
  have hshown : t.shown b = min (t.len - gone) room := by rw [hgone, hroom, shown]
  have hlen := h.length
  -- What is lost of the secret on both sides is filled up.
  refine ⟨List.replicate gone 48 ++ (v ++ List.replicate (t.len - gone - v.length) 48), ⟨?_, fun c hc => ?_⟩, ?_⟩
  · simp only [List.length_append, List.length_replicate]
    omega
  · rcases List.mem_append.1 hc with hc | hc
    · exact List.eq_of_mem_replicate hc ▸ h48
    · rcases List.mem_append.1 hc with hc | hc
      · exact h.allowed c hc
      · exact List.eq_of_mem_replicate hc ▸ h48
  · rw [seen, ← hgone, ← hroom, List.drop_left' List.length_replicate]
    rcases Nat.le_total room (t.len - gone) with hle | hle
    · rw [List.take_left' (by omega)]
    · rw [show t.len - gone - v.length = 0 by omega, List.replicate_zero, List.append_nil,
        List.take_of_length_le (by omega)]

theorem body_text (hpos : 0 < t.shown b) (h : kind.Fits t.len secret) {writes : List Bytes}
    (hw : writes.flatten = t.text secret) :
    debug_log_body b (writes.foldl (char_out b) .empty)
      = eink_log_ring_redact_inplace (t.before b ++ (seen b t.size t.start secret ++ t.after b)) := by
  have hlen := (fits_seen (b := b) h).length
  have hne : t.before b ++ (seen b t.size t.start secret ++ t.after b) ≠ [] := by
    intro hnil
    rw [(List.append_eq_nil_iff.1 (List.append_eq_nil_iff.1 hnil).2).1] at hlen
    exact absurd hlen (Nat.ne_of_lt hpos)
  simp only [debug_log_body, snapshot_eq, hw, window_text h, if_neg hne]

theorem upload_congr (cfg : NodeConfig) {r₁ r₂ : LogRing} (h : debug_log_body b r₁ = debug_log_body b r₂) :
    eink_http_upload_debug_log b cfg r₁ = eink_http_upload_debug_log b cfg r₂ := by
  simp only [eink_http_upload_debug_log, h]

theorem hidden_of_not_shown (h : t.shown b = 0) : t.Hidden b := by
  have hwindow {secret : Bytes} (hfits : kind.Fits t.len secret) :
      uploadWindow b (t.text secret) = t.before b ++ t.after b := by
    have hlen := (fits_seen (b := b) hfits).length
    rw [h] at hlen
    rw [window_text hfits, List.length_eq_zero_iff.1 hlen, List.nil_append]
  rintro cfg writes₁ writes₂ ⟨secret₁, hfits₁, hw₁⟩ ⟨secret₂, hfits₂, hw₂⟩
  refine upload_congr cfg ?_
  simp only [debug_log_body, snapshot_eq, hw₁, hw₂, hwindow hfits₁, hwindow hfits₂]

/-- The uploads agree exactly if the redacted windows do. -/
theorem hidden_iff (hpos : 0 < t.shown b) :
    t.Hidden b ↔ ∀ v w, kind.Fits (t.shown b) v → kind.Fits (t.shown b) w →
      eink_log_ring_redact_inplace (t.before b ++ (v ++ t.after b))
        = eink_log_ring_redact_inplace (t.before b ++ (w ++ t.after b)) := by
  constructor
  · intro hidden v w hv hw
    have hflat (secret : Bytes) : [t.text secret].flatten = t.text secret := List.append_nil _
    obtain ⟨secret₁, hfits₁, rfl⟩ := seen_onto hv hpos
    obtain ⟨secret₂, hfits₂, rfl⟩ := seen_onto hw hpos
    have heq := hidden ⟨true, ascii "file://", ascii "node"⟩ [t.text secret₁] [t.text secret₂]
      ⟨secret₁, hfits₁, hflat secret₁⟩ ⟨secret₂, hfits₂, hflat secret₂⟩
    rw [← body_text hpos hfits₁ (hflat secret₁), ← body_text hpos hfits₂ (hflat secret₂)]
    exact congrArg Prod.snd (Except.ok.inj heq)
  · rintro hsame cfg writes₁ writes₂ ⟨secret₁, hfits₁, hw₁⟩ ⟨secret₂, hfits₂, hw₂⟩
    refine upload_congr cfg ?_
    rw [body_text hpos hfits₁ hw₁, body_text hpos hfits₂ hw₂]
    exact hsame _ _ (fits_seen hfits₁) (fits_seen hfits₂)

/-- Of a secret that shows, the whole text before it that the wrap has left is uploaded. -/
theorem before_suffix (hpos : 0 < t.shown b) : t.before b <:+ t.head ++ kind.marker := by
  have hroom : 0 < b.RING_SIZE - 1 - (t.start - (t.size - b.RING_SIZE)) :=
    Nat.lt_of_lt_of_le hpos (Nat.min_le_right _ _)
  have hlen : (t.head ++ kind.marker).length = t.start := rfl
  rw [before, seen, List.take_of_length_le]
  · exact List.drop_suffix _ _
  · rw [List.length_drop, hlen]
    omega

theorem over_after (hpos : 0 < t.shown b) : kind.Over (t.after b) := by
  have hleft : 0 < t.len - (t.size - b.RING_SIZE - t.start) := Nat.lt_of_lt_of_le hpos (Nat.min_le_left _ _)
  intro c hc
  refine t.post_over c ?_
  rw [after, seen, show t.size - b.RING_SIZE - (t.start + t.len) = 0 by omega, List.drop_zero,
    List.head?_take] at hc
  split at hc
  · cases hc
  · exact hc

end LogText

/-- The bytes of a secret do not show in the upload exactly if the wrap has dropped all of
them or the redactor covers them. -/
theorem secret_hidden_iff {kind : Secret} (t : LogText kind) :
    t.Hidden b ↔ t.shown b = 0 ∨ Covered (t.before b) (t.shown b) (t.after b) := by
  rcases Nat.eq_zero_or_pos (t.shown b) with hzero | hpos
  · exact ⟨fun _ => .inl hzero, fun _ => LogText.hidden_of_not_shown hzero⟩
  · rw [LogText.hidden_iff hpos, covered_iff hpos (LogText.before_suffix hpos) (LogText.over_after hpos)]
    exact ⟨.inr, fun h => h.resolve_left (Nat.ne_of_gt hpos)⟩

def smallRing : LogBuild := ⟨4096, by decide⟩

/-- A token in the oldest line, of which the wrap has dropped the first seven bytes. -/
def wrappedToken : LogText .token := ⟨[], 1, List.replicate 4095 newline, by
  intro c hc
  rw [List.replicate_succ] at hc
  cases hc
  decide⟩

/-- The wrap cuts the marker off a token. -/
theorem wrapped_token_shows : ¬wrappedToken.Hidden smallRing := by
  have hsize : wrappedToken.size = 4103 := by
    have hpost : wrappedToken.post.length = 4095 := List.length_replicate
    rw [LogText.size, hpost]
    rfl
  have hshown : wrappedToken.shown smallRing = 1 := by
    rw [LogText.shown, hsize]
    rfl
  have hbefore : wrappedToken.before smallRing = [] := by
    rw [LogText.before, hsize]
    rfl
  have hafter : wrappedToken.after smallRing = newline :: List.replicate 4093 newline := by
    rw [LogText.after, hsize, seen]
    exact List.take_replicate
  rw [LogText.hidden_iff (by rw [hshown]; decide),
    covered_iff (by rw [hshown]; decide) (LogText.before_suffix (by rw [hshown]; decide))
      (LogText.over_after (by rw [hshown]; decide)), hbefore, hafter]
  rintro ⟨-, -, hcaught⟩
  have hline : line_at (newline :: List.replicate 4093 newline) = [] := line_at_mem (l := []) (by simp)
  rw [hline] at hcaught
  simp [open_line, kill_nil, in_token] at hcaught

end EinkNode.Log
