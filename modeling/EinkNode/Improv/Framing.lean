import EinkNode.Lib.Chunks
import EinkNode.Lib.CString
import Mathlib.Data.List.Basic
/-!
# Frames of the serial handshake

The host side of the handshake: how the provisioning script puts a frame on the
wire, and how its reader finds the frames again between the device's log text,
from whatever pieces the port hands over.
-/

namespace EinkNode

open NodeLib

namespace Improv

/-! ## Writing -/

/-- `b"IMPROV"`. -/
def IMPROV_HEADER : Bytes := [73, 77, 80, 82, 79, 86]

def IMPROV_VERSION : Nat := 1

def TYPE_RPC : Nat := 3

def CMD_WIFI_SETTINGS : Nat := 1

/-- `bytes([...])`, which raises `ValueError` for a value that is no byte. -/
def bytes (vs : List Nat) : Option Bytes := vs.mapM fun v => if v < 256 then some (UInt8.ofNat v) else none

def checksum (data : Bytes) : Nat := data.foldl (fun sum b => sum + b.toNat) 0 &&& 0xFF

def wrap (frame_type : Nat) (payload : Bytes) : Option Bytes := do
  let head ← bytes [IMPROV_VERSION, frame_type, payload.length]
  let body := IMPROV_HEADER ++ head ++ payload
  let sum ← bytes [checksum body]
  return body ++ sum

def rpc_body (command : Nat) (payload : Bytes) : Option Bytes := do
  let head ← bytes [command, payload.length]
  return head ++ payload

/-- The name and the key, as they are encoded. -/
def wifi_settings_body (s p : Bytes) : Option Bytes := do
  let ls ← bytes [s.length]
  let lp ← bytes [p.length]
  rpc_body CMD_WIFI_SETTINGS (ls ++ s ++ lp ++ p)

/-! ## Reading -/

structure Frame where
  frame_type : Nat
  payload : Bytes
  deriving DecidableEq, Repr

/-- What the reader comes to: a frame, or a byte that goes to `_emit_text`. -/
inductive Event where
  | frame (f : Frame)
  | text (b : UInt8)
  deriving DecidableEq, Repr

def Event.frame? : Event → Option Frame
  | .frame f => some f
  | .text _ => none

def Event.text? : Event → Option UInt8
  | .frame _ => none
  | .text b => some b

def emit_text (data : Bytes) : List Event := data.map .text

/-- A frame of which every byte is there: it is given out, or it is noise after all. -/
def checked (frame : Bytes) (length : Nat) : List Event :=
  if checksum frame.dropLast = (frame.getLastD 0).toNat ∧ (frame.getD 6 0).toNat = IMPROV_VERSION then
    [.frame ⟨(frame.getD 7 0).toNat, (frame.take (9 + length)).drop 9⟩]
  else emit_text frame

/-- The rest of the loop body, once the buffer begins with a header. -/
def at_header (buf : Bytes) : Turn UInt8 Event :=
  -- header(6) + ver + type + len, before the size is known
  if buf.length < 9 then .wait [] buf
  else
    let length := (buf.getD 8 0).toNat
    let total := 9 + length + 1
    if buf.length < total then .wait [] buf
    else .took (checked (buf.take total) length) (buf.drop total)

/-- The body of the `while True` of `feed`. -/
def turn (buf : Bytes) : Turn UInt8 Event :=
  match find IMPROV_HEADER buf with
  | none =>
    -- a header may be split across reads, so a tail is kept
    if IMPROV_HEADER.length < buf.length then
      .wait (emit_text (buf.take (buf.length - IMPROV_HEADER.length))) (buf.drop (buf.length - IMPROV_HEADER.length))
    else .wait [] buf
  | some idx => if 0 < idx then (at_header (buf.drop idx)).after (emit_text (buf.take idx)) else at_header buf

theorem turn_of_none {buf : Bytes} (h : find IMPROV_HEADER buf = none) :
    turn buf = .wait (emit_text (buf.take (buf.length - IMPROV_HEADER.length)))
      (buf.drop (buf.length - IMPROV_HEADER.length)) := by
  rw [turn, h]
  dsimp only
  split
  · rfl
  · next hlen =>
    rw [Nat.sub_eq_zero_of_le (Nat.le_of_not_lt hlen)]
    rfl

theorem turn_of_some {buf : Bytes} {idx : Nat} (h : find IMPROV_HEADER buf = some idx) :
    turn buf = (at_header (buf.drop idx)).after (emit_text (buf.take idx)) := by
  rw [turn, h]
  dsimp only
  split
  · rfl
  · next hidx =>
    obtain rfl : idx = 0 := by omega
    exact (Turn.after_nil _).symm

/-- The size that the length byte asks for. -/
def total (buf : Bytes) : Nat := 9 + (buf.getD 8 0).toNat + 1

theorem at_header_wait {buf : Bytes} (h : buf.length < 9 ∨ buf.length < total buf) : at_header buf = .wait [] buf := by
  rw [at_header]
  split
  · rfl
  · next h9 => exact if_pos (h.resolve_left h9)

theorem at_header_took {buf : Bytes} (h9 : 9 ≤ buf.length) (h : total buf ≤ buf.length) :
    at_header buf = .took (checked (buf.take (total buf)) (buf.getD 8 0).toNat) (buf.drop (total buf)) := by
  rw [at_header, if_neg (by omega)]
  exact if_neg (Nat.not_lt.2 h)

theorem getD_eight_append {buf : Bytes} (h9 : 9 ≤ buf.length) (c : Bytes) : (buf ++ c).getD 8 0 = buf.getD 8 0 := by
  rw [List.getD_eq_getElem?_getD, List.getD_eq_getElem?_getD, List.getElem?_append_left h9]

theorem total_append {buf : Bytes} (h9 : 9 ≤ buf.length) (c : Bytes) : total (buf ++ c) = total buf := by
  rw [total, total, getD_eight_append h9]

/-- From a header on, a turn waits with the whole buffer, or takes the same from a longer one. -/
theorem at_header_cases (buf : Bytes) :
    at_header buf = .wait [] buf ∨
      ∃ out rest, rest.length < buf.length ∧ ∀ c, at_header (buf ++ c) = .took out (rest ++ c) := by
  by_cases h9 : 9 ≤ buf.length
  · by_cases htotal : total buf ≤ buf.length
    · refine .inr ⟨checked (buf.take (total buf)) (buf.getD 8 0).toNat, buf.drop (total buf), ?_, fun c => ?_⟩
      · rw [List.length_drop, total]
        omega
      · have hlen : buf.length ≤ (buf ++ c).length := by
          rw [List.length_append]
          omega
        rw [at_header_took (h9.trans hlen) (total_append h9 c ▸ htotal.trans hlen), total_append h9,
          getD_eight_append h9, List.take_append_of_le_length htotal, List.drop_append_of_le_length htotal]
    · exact .inl (at_header_wait (.inr (by omega)))
  · exact .inl (at_header_wait (.inl (by omega)))

theorem turn_shorter {buf rest : Bytes} {out : List Event} (h : turn buf = .took out rest) :
    rest.length < buf.length := by
  cases hfind : find IMPROV_HEADER buf with
  | none =>
    rw [turn_of_none hfind] at h
    cases h
  | some idx =>
    rw [turn_of_some hfind] at h
    rcases at_header_cases (buf.drop idx) with hwait | ⟨out', rest', hlt, htook⟩
    · rw [hwait] at h
      cases h
    · have htook' := htook []
      rw [List.append_nil, List.append_nil] at htook'
      rw [htook'] at h
      cases h
      rw [List.length_drop] at hlt
      omega

/-- The `while True` of `feed`, over whatever the buffer holds. -/
def scanner : NodeLib.Reader UInt8 Event where
  turn := turn
  shorter := turn_shorter

structure FrameReader where
  buf : Bytes
  deriving DecidableEq, Repr

/-- What a call of `feed` returns, what it prints, and what it leaves. -/
structure Fed where
  frames : List Frame
  text : Bytes
  reader : FrameReader
  deriving DecidableEq, Repr

namespace FrameReader

/-- `__init__`. -/
def init : FrameReader := ⟨[]⟩

def feed (r : FrameReader) (data : Bytes) : Fed where
  frames := (scanner.drain (r.buf ++ data)).1.filterMap Event.frame?
  text := (scanner.drain (r.buf ++ data)).1.filterMap Event.text?
  reader := ⟨(scanner.drain (r.buf ++ data)).2⟩

/-- One call of `feed` after the other. -/
def feeds (r : FrameReader) : List Bytes → Fed
  | [] => ⟨[], [], r⟩
  | data :: chunks =>
    let first := r.feed data
    let others := first.reader.feeds chunks
    ⟨first.frames ++ others.frames, first.text ++ others.text, others.reader⟩

end FrameReader

/-! ## Where the stream is cut -/

theorem emit_text_append (a b : Bytes) : emit_text (a ++ b) = emit_text a ++ emit_text b := List.map_append

/-- Text in front of a tail that can hold a split header is printed now or later. -/
theorem turn_append_text {p t : Bytes} (hnone : ¬ IMPROV_HEADER <:+: p ++ t) (ht : t.length = IMPROV_HEADER.length)
    (c : Bytes) : turn (p ++ t ++ c) = (turn (t ++ c)).after (emit_text p) := by
  have hfind := find_tail hnone (by omega) c
  cases htail : find IMPROV_HEADER (t ++ c) with
  | none =>
    rw [htail] at hfind
    have hlen : (p ++ t ++ c).length - IMPROV_HEADER.length =
        p.length + ((t ++ c).length - IMPROV_HEADER.length) := by
      rw [List.append_assoc, List.length_append, List.length_append, ht]
      omega
    rw [turn_of_none hfind, turn_of_none htail, hlen, List.append_assoc, List.take_length_add_append,
      List.drop_length_add_append, emit_text_append]
    rfl
  | some idx =>
    rw [htail] at hfind
    rw [turn_of_some hfind, turn_of_some htail, List.append_assoc, List.take_length_add_append,
      List.drop_length_add_append, emit_text_append, Turn.after_after]

theorem turn_wait_of_none {buf : Bytes} (h : find IMPROV_HEADER buf = none) (c : Bytes) :
    turn (buf ++ c) =
      (turn (buf.drop (buf.length - IMPROV_HEADER.length) ++ c)).after
        (emit_text (buf.take (buf.length - IMPROV_HEADER.length))) := by
  by_cases hshort : buf.length ≤ IMPROV_HEADER.length
  · rw [Nat.sub_eq_zero_of_le hshort]
    exact (Turn.after_nil _).symm
  · have hsplit := List.take_append_drop (buf.length - IMPROV_HEADER.length) buf
    have hnone : ¬ IMPROV_HEADER <:+: buf := find_eq_none.1 h
    rw [← hsplit] at hnone
    have hkeep := turn_append_text hnone (by rw [List.length_drop]; omega) c
    rwa [hsplit] at hkeep

theorem turn_wait_of_some {buf : Bytes} {idx : Nat} (h : find IMPROV_HEADER buf = some idx) (c : Bytes) :
    turn (buf ++ c) = (turn (buf.drop idx ++ c)).after (emit_text (buf.take idx)) := by
  obtain ⟨hidx, hat, -⟩ := find_eq_some.1 h
  have hzero : find IMPROV_HEADER (buf.drop idx ++ c) = some 0 := by
    rw [find_eq_some]
    exact ⟨Nat.zero_le _, hat.trans (List.prefix_append _ _), fun j hj => absurd hj (Nat.not_lt_zero j)⟩
  rw [turn_of_some (find_append h c), turn_of_some hzero, List.take_append_of_le_length hidx,
    List.drop_append_of_le_length hidx]
  exact congrArg _ (Turn.after_nil _).symm

/-- The reader keeps all that a later turn may ask for. -/
theorem scanner_steady : scanner.Steady where
  took := by
    intro buf out rest h c
    change turn buf = .took out rest at h
    change turn (buf ++ c) = .took out (rest ++ c)
    cases hfind : find IMPROV_HEADER buf with
    | none =>
      rw [turn_of_none hfind] at h
      cases h
    | some idx =>
      have hidx := (find_eq_some.1 hfind).1
      rw [turn_of_some hfind] at h
      rw [turn_of_some (find_append hfind c), List.take_append_of_le_length hidx, List.drop_append_of_le_length hidx]
      rcases at_header_cases (buf.drop idx) with hwait | ⟨out', rest', -, htook⟩
      · rw [hwait] at h
        cases h
      · have hnow := htook []
        rw [List.append_nil, List.append_nil] at hnow
        rw [hnow] at h
        rw [htook c]
        cases h
        rfl
  wait := by
    intro buf out rest h c
    change turn buf = .wait out rest at h
    change turn (buf ++ c) = (turn (rest ++ c)).after out
    cases hfind : find IMPROV_HEADER buf with
    | none =>
      rw [turn_of_none hfind] at h
      cases h
      exact turn_wait_of_none hfind c
    | some idx =>
      rw [turn_of_some hfind] at h
      rcases at_header_cases (buf.drop idx) with hwait | ⟨out', rest', -, htook⟩
      · rw [hwait] at h
        cases h
        rw [List.append_nil]
        exact turn_wait_of_some hfind c
      · have hnow := htook []
        rw [List.append_nil, List.append_nil] at hnow
        rw [hnow] at h
        cases h

/-- All calls of `feed`, as one pass of the scanner over the pieces. -/
theorem feeds_eq (r : FrameReader) (chunks : List Bytes) :
    r.feeds chunks =
      ⟨(scanner.feeds r.buf chunks).1.filterMap Event.frame?, (scanner.feeds r.buf chunks).1.filterMap Event.text?,
        ⟨(scanner.feeds r.buf chunks).2⟩⟩ := by
  induction chunks generalizing r with
  | nil => rfl
  | cons data chunks ih =>
    rw [FrameReader.feeds, ih]
    simp only [FrameReader.feed, Reader.feeds, List.filterMap_append]

theorem drain_nil : scanner.drain [] = ([], []) := Reader.drain_of_wait rfl

/-- From the start, the calls give what one call with the whole stream gives. -/
theorem feeds_eq_feed (chunks : List Bytes) : FrameReader.init.feeds chunks = FrameReader.init.feed chunks.flatten := by
  have h := scanner_steady.feeds_eq chunks drain_nil
  rw [feeds_eq]
  simp only [FrameReader.init, FrameReader.feed, h]

/-! ## There and back -/

/-- Text between frames. -/
abbrev Noise := { s : Bytes // ¬ IMPROV_HEADER <:+: s }

/-- A frame that `wrap` takes. -/
abbrev Sendable := { f : Frame // f.frame_type < 256 ∧ f.payload.length ≤ 255 }

theorem checksum_lt (data : Bytes) : checksum data < 256 := Nat.lt_succ_of_le Nat.and_le_right

/-- All but the checksum. -/
def body (f : Frame) : Bytes :=
  IMPROV_HEADER ++ [1, UInt8.ofNat f.frame_type, UInt8.ofNat f.payload.length] ++ f.payload

/-- The frame as it stands on the wire. -/
def wrapped (f : Frame) : Bytes := body f ++ [UInt8.ofNat (checksum (body f))]

theorem bytes_cons {v : Nat} (hv : v < 256) {vs : List Nat} {bs : Bytes} (h : bytes vs = some bs) :
    bytes (v :: vs) = some (UInt8.ofNat v :: bs) := by
  rw [bytes] at h
  rw [bytes, List.mapM_cons, if_pos hv, h]
  rfl

theorem wrap_eq (f : Sendable) : wrap f.1.frame_type f.1.payload = some (wrapped f.1) := by
  obtain ⟨f, htype, hlen⟩ := f
  have hhead : bytes [IMPROV_VERSION, f.frame_type, f.payload.length] =
      some [1, UInt8.ofNat f.frame_type, UInt8.ofNat f.payload.length] :=
    bytes_cons (by decide) (bytes_cons htype (bytes_cons (Nat.lt_succ_of_le hlen) rfl))
  have hsum : bytes [checksum (body f)] = some [UInt8.ofNat (checksum (body f))] :=
    bytes_cons (checksum_lt _) rfl
  rw [wrap, hhead]
  change (bytes [checksum (body f)]).bind (fun sum => some (body f ++ sum)) = some (wrapped f)
  rw [hsum]
  rfl

example : wrap TYPE_RPC [2, 0] = some [73, 77, 80, 82, 79, 86, 1, 3, 2, 2, 0, 229] := by decide

theorem length_body (f : Frame) : (body f).length = 9 + f.payload.length := by
  rw [body, List.length_append]
  rfl

theorem length_wrapped (f : Frame) : (wrapped f).length = 9 + f.payload.length + 1 := by
  rw [wrapped, List.length_append, length_body]
  rfl

theorem toNat_ofNat_of_lt {n : Nat} (h : n < 256) : (UInt8.ofNat n).toNat = n := by
  rw [UInt8.toNat_ofNat']
  exact Nat.mod_eq_of_lt h

/-- The reader's check of a frame is one that `wrap` passes. -/
theorem checked_wrapped (f : Sendable) : checked (wrapped f.1) f.1.payload.length = [.frame f.1] := by
  obtain ⟨f, htype, hlen⟩ := f
  have hsum : checksum (wrapped f).dropLast = ((wrapped f).getLastD 0).toNat := by
    rw [wrapped, List.dropLast_concat, List.getLastD_concat, toNat_ofNat_of_lt (checksum_lt _)]
  have hpayload : ((wrapped f).take (9 + f.payload.length)).drop 9 = f.payload := by
    rw [wrapped, List.take_left' (length_body f), body]
    rfl
  rw [checked, if_pos ⟨hsum, rfl⟩, hpayload]
  change [Event.frame ⟨(UInt8.ofNat f.frame_type).toNat, f.payload⟩] = [Event.frame f]
  rw [toNat_ofNat_of_lt htype]

theorem at_header_wrapped (f : Sendable) (rest : Bytes) :
    at_header (wrapped f.1 ++ rest) = .took [.frame f.1] rest := by
  have hlength : ((wrapped f.1 ++ rest).getD 8 0).toNat = f.1.payload.length :=
    toNat_ofNat_of_lt (Nat.lt_succ_of_le f.2.2)
  have htotal : total (wrapped f.1 ++ rest) = (wrapped f.1).length := by
    rw [total, hlength, length_wrapped]
  have h9 : 9 ≤ (wrapped f.1 ++ rest).length := by
    rw [List.length_append, length_wrapped]
    omega
  have hfits : total (wrapped f.1 ++ rest) ≤ (wrapped f.1 ++ rest).length := by
    rw [htotal, List.length_append]
    exact Nat.le_add_right _ _
  rw [at_header_took h9 hfits, htotal, hlength, List.take_left, List.drop_left, checked_wrapped]

theorem find_header {s : Bytes} (hs : ¬ IMPROV_HEADER <:+: s) (f : Frame) (rest : Bytes) :
    find IMPROV_HEADER (s ++ (wrapped f ++ rest)) = some s.length :=
  find_key (by decide) hs _

/-- Noise and a frame in front of the rest of the stream. -/
theorem drain_wrapped (n : Noise) (f : Sendable) (rest : Bytes) :
    scanner.drain (n.1 ++ (wrapped f.1 ++ rest)) =
      (emit_text n.1 ++ .frame f.1 :: (scanner.drain rest).1, (scanner.drain rest).2) := by
  have hturn : scanner.turn (n.1 ++ (wrapped f.1 ++ rest)) = .took (emit_text n.1 ++ [.frame f.1]) rest := by
    change turn _ = _
    rw [turn_of_some (find_header n.2 f.1 rest), List.drop_left, List.take_left, at_header_wrapped]
    rfl
  rw [Reader.drain_of_took hturn, List.append_assoc]
  rfl

theorem drain_noise (n : Noise) :
    scanner.drain n.1 =
      (emit_text (n.1.take (n.1.length - IMPROV_HEADER.length)), n.1.drop (n.1.length - IMPROV_HEADER.length)) :=
  Reader.drain_of_wait (turn_of_none (find_eq_none.2 n.2))

/-- The stream of frames, each behind the noise before it, and the noise behind them. -/
def stream : List (Noise × Sendable) → Noise → Option Bytes
  | [], last => some last.1
  | (n, f) :: items, last => do
    let front ← wrap f.1.frame_type f.1.payload
    let rest ← stream items last
    return n.1 ++ (front ++ rest)

/-- What the reader gives for noise and a frame. -/
def events (item : Noise × Sendable) : List Event := emit_text item.1.1 ++ [.frame item.2.1]

/-- `wrap` takes all of the frames, and one pass over the stream finds them and the noise again. -/
theorem drain_stream (items : List (Noise × Sendable)) (last : Noise) :
    ∃ s, stream items last = some s ∧
      scanner.drain s =
        (items.flatMap events ++ emit_text (last.1.take (last.1.length - IMPROV_HEADER.length)),
          last.1.drop (last.1.length - IMPROV_HEADER.length)) := by
  induction items with
  | nil => exact ⟨last.1, rfl, drain_noise last⟩
  | cons item items ih =>
    obtain ⟨n, f⟩ := item
    obtain ⟨rest, hrest, hdrain⟩ := ih
    refine ⟨n.1 ++ (wrapped f.1 ++ rest), ?_, ?_⟩
    · rw [stream, wrap_eq, hrest]
      rfl
    · rw [drain_wrapped, hdrain, List.flatMap_cons, events, List.append_assoc, List.append_assoc]
      rfl

theorem frames_emit_text (data : Bytes) : (emit_text data).filterMap Event.frame? = [] := by
  rw [emit_text, List.filterMap_map]
  exact List.filterMap_eq_nil_iff.2 fun _ _ => rfl

theorem text_emit_text (data : Bytes) : (emit_text data).filterMap Event.text? = data := by
  rw [emit_text, List.filterMap_map]
  exact List.filterMap_some

theorem frames_events (items : List (Noise × Sendable)) :
    (items.flatMap events).filterMap Event.frame? = items.map fun item => item.2.1 := by
  induction items with
  | nil => rfl
  | cons item items ih =>
    rw [List.flatMap_cons, List.filterMap_append, ih, events, List.filterMap_append, frames_emit_text]
    rfl

theorem text_events (items : List (Noise × Sendable)) :
    (items.flatMap events).filterMap Event.text? = items.flatMap fun item => item.1.1 := by
  induction items with
  | nil => rfl
  | cons item items ih =>
    rw [List.flatMap_cons, List.filterMap_append, ih, events, List.filterMap_append, text_emit_text,
      List.flatMap_cons]
    exact congrArg (· ++ _) (List.append_nil _)

/-- All of the noise is printed, but for the tail that the reader still holds. -/
theorem noise_passes_through (items : List (Noise × Sendable)) (last : Noise) {chunks : List Bytes}
    (h : stream items last = some chunks.flatten) :
    (FrameReader.init.feeds chunks).text ++ (FrameReader.init.feeds chunks).reader.buf =
      (items.flatMap fun item => item.1.1) ++ last.1 := by
  obtain ⟨s, hs, hdrain⟩ := drain_stream items last
  obtain rfl := Option.some.inj (h.symm.trans hs)
  rw [feeds_eq_feed]
  change (scanner.drain chunks.flatten).1.filterMap Event.text? ++ (scanner.drain chunks.flatten).2 = _
  rw [hdrain, List.filterMap_append, text_events, text_emit_text, List.append_assoc, List.take_append_drop]

/-- A name and a key of at most 251 bytes together fit into one frame. -/
theorem wifi_settings_sendable {s p : Bytes} (h : s.length + p.length ≤ 251) :
    ∃ f : Sendable, f.1.frame_type = TYPE_RPC ∧ wifi_settings_body s p = some f.1.payload := by
  have hs : bytes [s.length] = some [UInt8.ofNat s.length] := bytes_cons (by omega) rfl
  have hp : bytes [p.length] = some [UInt8.ofNat p.length] := bytes_cons (by omega) rfl
  have hlen : ([UInt8.ofNat s.length] ++ s ++ [UInt8.ofNat p.length] ++ p).length = s.length + p.length + 2 := by
    simp only [List.length_append, List.length_singleton]
    omega
  obtain ⟨settings, hsettings⟩ : ∃ settings, settings = [UInt8.ofNat s.length] ++ s ++ [UInt8.ofNat p.length] ++ p :=
    ⟨_, rfl⟩
  rw [← hsettings] at hlen
  have hhead : bytes [CMD_WIFI_SETTINGS, settings.length] = some [1, UInt8.ofNat settings.length] :=
    bytes_cons (by decide) (bytes_cons (by omega) rfl)
  refine ⟨⟨⟨TYPE_RPC, [1, UInt8.ofNat settings.length] ++ settings⟩, (by decide : TYPE_RPC < 256), ?_⟩, rfl, ?_⟩
  · rw [List.length_append, hlen]
    change 2 + (s.length + p.length + 2) ≤ 255
    omega
  · rw [wifi_settings_body, hs, hp]
    change rpc_body CMD_WIFI_SETTINGS ([UInt8.ofNat s.length] ++ s ++ [UInt8.ofNat p.length] ++ p) = _
    rw [← hsettings, rpc_body, hhead]
    rfl

/-- The frames come back in order, wherever the stream is cut; and where an arbitrary stream is cut
makes no difference to the frames, the text and what is kept. -/
theorem framing_round_trips :
    (∀ (items : List (Noise × Sendable)) (last : Noise), ∃ s, stream items last = some s ∧
      ∀ chunks : List Bytes, chunks.flatten = s →
        (FrameReader.init.feeds chunks).frames = items.map fun item => item.2.1) ∧
      ∀ chunks chunks' : List Bytes, chunks.flatten = chunks'.flatten →
        FrameReader.init.feeds chunks = FrameReader.init.feeds chunks' := by
  constructor
  · intro items last
    obtain ⟨s, hs, hdrain⟩ := drain_stream items last
    refine ⟨s, hs, ?_⟩
    rintro chunks rfl
    rw [feeds_eq_feed]
    change (scanner.drain chunks.flatten).1.filterMap Event.frame? = _
    rw [hdrain, List.filterMap_append, frames_events, frames_emit_text, List.append_nil]
  · intro chunks chunks' h
    rw [feeds_eq_feed, feeds_eq_feed, h]

end Improv

end EinkNode
