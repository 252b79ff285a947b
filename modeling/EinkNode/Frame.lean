import EinkNode.Lib.Errno
import EinkNode.Lib.Wire
import EinkNode.Lib.Wp
/-!
# ES6F frames

`eink_frame.c`: the 32-byte header, and the check of a whole frame that is read
in chunks through callbacks. A frame passes when its header parses and the
CRC32 over exactly the payload is the one the header gives.
-/
open NodeLib

namespace EinkNode

def EINK_FRAME_MAGIC : UInt32 := 0x46365345
def EINK_FRAME_VERSION : UInt16 := 1
def EINK_PANEL_WIDTH : UInt16 := 1200
def EINK_PANEL_HEIGHT : UInt16 := 1600
def EINK_PIXEL_FORMAT_L4_S6 : UInt8 := 1
def EINK_BYTES_PER_HALF : Nat := 480000
def EINK_PAYLOAD_LEN : Nat := 960000
def EINK_FRAME_HEADER_SIZE : Nat := 32
def EINK_FRAME_FILE_SIZE : Nat := EINK_FRAME_HEADER_SIZE + EINK_PAYLOAD_LEN
def EINK_STREAM_CHUNK_SIZE : Nat := 4096

structure Header where
  magic : UInt32
  version : UInt16
  width : UInt16
  height : UInt16
  pixel_format : UInt8
  orientation : UInt8
  flags : UInt16
  payload_len : UInt32
  crc32 : UInt32
  reserved : Bytes
deriving DecidableEq

/-- The packed structure that the 32 bytes hold. -/
def Header.unpack (buf : Bytes) : Header :=
  { magic := le32 buf 0, version := le16 buf 4, width := le16 buf 6, height := le16 buf 8
    pixel_format := buf.getD 10 0, orientation := buf.getD 11 0, flags := le16 buf 12
    payload_len := le32 buf 14, crc32 := le32 buf 18, reserved := (buf.drop 22).take 10 }

def eink_frame_header_parse (buf : Bytes) : Except Int Header :=
  let hdr := Header.unpack buf
  if buf.length < EINK_FRAME_HEADER_SIZE then .error (-EINVAL)
  else if hdr.magic ≠ EINK_FRAME_MAGIC then .error (-EINVAL)
  else if hdr.version ≠ EINK_FRAME_VERSION then .error (-ENOTSUP)
  else if hdr.width ≠ EINK_PANEL_WIDTH ∨ hdr.height ≠ EINK_PANEL_HEIGHT then .error (-EINVAL)
  else if hdr.pixel_format ≠ EINK_PIXEL_FORMAT_L4_S6 then .error (-ENOTSUP)
  else if hdr.payload_len ≠ .ofNat EINK_PAYLOAD_LEN then .error (-EINVAL)
  else .ok hdr

/-- `struct eink_frame_stream_ctx`, between `begin` and `finish`. -/
structure StreamCtx where
  hdr : Header
  crc : UInt32
  payload_seen : Nat

def eink_frame_stream_begin (hdr : Header) : StreamCtx := ⟨hdr, 0, 0⟩

def eink_frame_stream_update (ctx : StreamCtx) (data : Bytes) : Except Int StreamCtx :=
  if ctx.payload_seen + data.length > ctx.hdr.payload_len.toNat then .error (-EFBIG)
  else .ok { ctx with crc := crc32_ieee_update ctx.crc data, payload_seen := ctx.payload_seen + data.length }

def eink_frame_stream_finish (ctx : StreamCtx) : Int :=
  if ctx.payload_seen ≠ ctx.hdr.payload_len.toNat then -EINVAL
  else if ctx.crc ≠ ctx.hdr.crc32 then -EILSEQ
  else 0

theorem stream_update_ok {ctx ctx' : StreamCtx} {data : Bytes} (h : eink_frame_stream_update ctx data = .ok ctx') :
    ctx.payload_seen + data.length ≤ ctx.hdr.payload_len.toNat ∧
      ctx' = { ctx with crc := crc32_ieee_update ctx.crc data, payload_seen := ctx.payload_seen + data.length } := by
  unfold eink_frame_stream_update at h
  split at h
  · cases h
  · cases h; exact ⟨by omega, rfl⟩

section
variable {σ : Type} (read_cb : Nat → StateM σ (Except Int Bytes))

/-- The loop of `eink_frame_validate_stream`; it ends because `update` bounds what it has seen. -/
def validate_loop (ctx : StreamCtx) (s : σ) : Except Int StreamCtx × σ :=
  match read_cb EINK_STREAM_CHUNK_SIZE s with
  | (.error e, s) => (.error e, s)
  | (.ok chunk, s) =>
    if _hc : chunk = [] then (.ok ctx, s)
    else
      match _hu : eink_frame_stream_update ctx chunk with
      | .error e => (.error e, s)
      | .ok ctx' => validate_loop ctx' s
termination_by ctx.hdr.payload_len.toNat - ctx.payload_seen
decreasing_by
  obtain ⟨hle, rfl⟩ := stream_update_ok _hu
  have := List.length_pos_iff.2 _hc
  dsimp only
  omega

def eink_frame_validate_stream (seek_cb : Option (Nat → StateM σ Int)) : StateM σ (Except Int Header) := do
  let ret ← seek_cb.elim (pure 0) fun seek => seek 0
  if ret < 0 then pure (.error ret)
  else
    match ← read_cb EINK_FRAME_HEADER_SIZE with
    | .error e => pure (.error e)
    | .ok hdr_raw =>
      if hdr_raw.length < EINK_FRAME_HEADER_SIZE then pure (.error (-EINVAL))
      else
        match eink_frame_header_parse hdr_raw with
        | .error e => pure (.error e)
        | .ok hdr =>
          match ← validate_loop read_cb (eink_frame_stream_begin hdr) with
          | .error e => pure (.error e)
          | .ok ctx =>
            let ret := eink_frame_stream_finish ctx
            if ret < 0 then pure (.error ret) else pure (.ok hdr)

variable {read_cb} {R : σ → σ → Prop} [IsPreorder σ R]

theorem keeps_validate_loop (hread : ∀ len, Keeps R (read_cb len)) (ctx : StreamCtx) :
    Keeps R (validate_loop read_cb ctx) := by
  intro s
  fun_induction validate_loop read_cb ctx s with
  | case1 ctx s e s' h => simpa [h] using hread EINK_STREAM_CHUNK_SIZE s
  | case2 ctx s s' h => simpa [h] using hread EINK_STREAM_CHUNK_SIZE s
  | case3 ctx s chunk s' h hne e hu => simpa [h] using hread EINK_STREAM_CHUNK_SIZE s
  | case4 ctx s chunk s' h hne ctx' hu ih =>
    exact trans_of R (by simpa [h] using hread EINK_STREAM_CHUNK_SIZE s) ih

/-- Validation moves the state only as its callbacks do. -/
theorem keeps_validate_stream {seek_cb : Option (Nat → StateM σ Int)} (hread : ∀ len, Keeps R (read_cb len))
    (hseek : ∀ f ∈ seek_cb, Keeps R (f 0)) : Keeps R (eink_frame_validate_stream read_cb seek_cb) := by
  unfold eink_frame_validate_stream
  apply keeps_bind
  · cases seek_cb with
    | none => exact keeps_pure _
    | some f => exact hseek f rfl
  intro ret
  refine keeps_ite (keeps_pure _) ?_
  refine keeps_bind (hread _) ?_
  rintro (e | hdr_raw)
  · exact keeps_pure _
  refine keeps_ite (keeps_pure _) ?_
  split
  · exact keeps_pure _
  refine keeps_bind (keeps_validate_loop hread _) ?_
  rintro (e | ctx)
  · exact keeps_pure _
  · exact keeps_ite (keeps_pure _) (keeps_pure _)

end

/-! ## What validation has seen -/

/-- The bytes after the header. -/
def frame_payload (file : Bytes) : Bytes := (file.drop EINK_FRAME_HEADER_SIZE).take EINK_PAYLOAD_LEN

/-- The file starts with a frame: the header parses, and gives the CRC32 of the payload. -/
structure IsFrame (file : Bytes) (hdr : Header) : Prop where
  header : eink_frame_header_parse (file.take EINK_FRAME_HEADER_SIZE) = .ok hdr
  length : (frame_payload file).length = EINK_PAYLOAD_LEN
  crc : crc32_ieee (frame_payload file) = hdr.crc32

theorem payload_len_of_parse {buf : Bytes} {hdr : Header} (h : eink_frame_header_parse buf = .ok hdr) :
    hdr.payload_len.toNat = EINK_PAYLOAD_LEN := by
  unfold eink_frame_header_parse at h
  dsimp only at h
  repeat' split at h
  all_goals cases h
  next hlen => rw [not_not.1 hlen]; rfl

theorem stream_finish_ok {ctx : StreamCtx} (h : ¬ eink_frame_stream_finish ctx < 0) :
    ctx.payload_seen = ctx.hdr.payload_len.toNat ∧ ctx.crc = ctx.hdr.crc32 := by
  unfold eink_frame_stream_finish at h
  split at h
  · exact absurd (show -EINVAL < 0 by decide) h
  · next hsize =>
    split at h
    · exact absurd (show -EILSEQ < 0 by decide) h
    · next hsum => exact ⟨not_not.1 hsize, not_not.1 hsum⟩

section
variable {σ : Type} {read_cb : Nat → StateM σ (Except Int Bytes)}

/-- Reading goes through the bytes `rest s` in order, at most `len` at a time. -/
def ReadsFrom (rest : σ → Bytes) (read_cb : Nat → StateM σ (Except Int Bytes)) : Prop :=
  ∀ len s chunk, (read_cb len s).1 = .ok chunk → chunk.length ≤ len ∧ rest s = chunk ++ rest (read_cb len s).2

variable {rest : σ → Bytes} (hread : ReadsFrom rest read_cb)
include hread

/-- The loop feeds a first part of what it reads to the CRC. -/
theorem validate_loop_ok {ctx ctx' : StreamCtx} {s : σ} {seen : Bytes}
    (h : (validate_loop read_cb ctx s).1 = .ok ctx') (hcrc : ctx.crc = crc32_ieee seen)
    (hseen : ctx.payload_seen = seen.length) :
    ∃ data, data <+: rest s ∧ ctx'.hdr = ctx.hdr ∧ ctx'.crc = crc32_ieee (seen ++ data) ∧
      ctx'.payload_seen = (seen ++ data).length := by
  fun_induction validate_loop read_cb ctx s generalizing seen with
  | case1 ctx s e s' hr => cases h
  | case2 ctx s s' hr =>
    cases h
    exact ⟨[], List.nil_prefix, rfl, by rw [List.append_nil, hcrc], by rw [List.append_nil, hseen]⟩
  | case3 ctx s chunk s' hr hne e hu => cases h
  | case4 ctx s chunk s' hr hne ctx1 hu ih =>
    obtain ⟨-, rfl⟩ := stream_update_ok hu
    obtain ⟨-, hrest⟩ := hread EINK_STREAM_CHUNK_SIZE s chunk (by rw [hr])
    rw [hr] at hrest
    have hc : crc32_ieee_update ctx.crc chunk = crc32_ieee (seen ++ chunk) := by rw [crc32_ieee_append, ← hcrc]
    have hs : ctx.payload_seen + chunk.length = (seen ++ chunk).length := by rw [List.length_append, ← hseen]
    obtain ⟨data, hdata, hhdr, hcrc', hseen'⟩ := ih h hc hs
    refine ⟨chunk ++ data, ?_, hhdr, ?_, ?_⟩
    · rw [hrest]
      exact (List.prefix_append_right_inj chunk).2 hdata
    · rw [← List.append_assoc, hcrc']
    · rw [← List.append_assoc, hseen']

/-- What validation accepts starts with a frame. -/
theorem validate_stream_ok {seek : Nat → StateM σ Int} {s : σ} {hdr : Header} {file : Bytes}
    (hseek : 0 ≤ (seek 0 s).1 → rest (seek 0 s).2 = file)
    (h : (eink_frame_validate_stream read_cb (some seek) s).1 = .ok hdr) : IsFrame file hdr := by
  unfold eink_frame_validate_stream at h
  simp only [bind_app, Option.elim_some] at h
  generalize seek 0 s = r at h hseek
  obtain ⟨ret, s1⟩ := r
  dsimp only at h hseek
  split at h
  · cases h
  · next hret =>
    have hfile := hseek (by omega)
    simp only [bind_app] at h
    cases hhdr : (read_cb EINK_FRAME_HEADER_SIZE s1).1 with
    | error e => rw [hhdr] at h; cases h
    | ok hdr_raw =>
      obtain ⟨hlen, hsplit⟩ := hread EINK_FRAME_HEADER_SIZE s1 hdr_raw hhdr
      rw [hfile] at hsplit
      rw [hhdr] at h
      dsimp only at h
      split at h
      · cases h
      · next hshort =>
        have hraw : file.take EINK_FRAME_HEADER_SIZE = hdr_raw := by
          rw [hsplit, List.take_append_of_le_length (by omega), List.take_of_length_le hlen]
        have htail : file.drop EINK_FRAME_HEADER_SIZE = rest (read_cb EINK_FRAME_HEADER_SIZE s1).2 := by
          have hlen' : hdr_raw.length = EINK_FRAME_HEADER_SIZE := by omega
          rw [hsplit, ← hlen', List.drop_left]
        cases hparse : eink_frame_header_parse hdr_raw with
        | error e => rw [hparse] at h; cases h
        | ok hdr' =>
          rw [hparse] at h
          simp only [bind_app] at h
          cases hloop : (validate_loop read_cb (eink_frame_stream_begin hdr')
            (read_cb EINK_FRAME_HEADER_SIZE s1).2).1 with
          | error e => rw [hloop] at h; cases h
          | ok ctx =>
            rw [hloop] at h
            dsimp only at h
            split at h
            · cases h
            · next hfinish =>
              cases h
              have hstart : (eink_frame_stream_begin hdr).crc = crc32_ieee [] := by simp [eink_frame_stream_begin]
              obtain ⟨data, hdata, hhdr', hcrc, hseen⟩ := validate_loop_ok hread hloop hstart rfl
              rw [← htail] at hdata
              rw [List.nil_append] at hcrc hseen
              obtain ⟨hsize, hsum⟩ := stream_finish_ok hfinish
              have hdlen : data.length = EINK_PAYLOAD_LEN := by
                rw [← hseen, hsize, hhdr']
                exact payload_len_of_parse hparse
              have hpayload : frame_payload file = data := by
                rw [frame_payload, ← hdlen]
                exact (List.prefix_iff_eq_take.1 hdata).symm
              refine ⟨by rw [hraw]; exact hparse, by rw [hpayload, hdlen], ?_⟩
              rw [hpayload, ← hcrc, hsum, hhdr']
              rfl

end

/-! ## Errors -/

theorem negErr_header_parse (buf : Bytes) : NegErr (eink_frame_header_parse buf) := by
  unfold eink_frame_header_parse
  dsimp only
  repeat' split
  all_goals simp [EINVAL, ENOTSUP]

section
variable {σ : Type} {read_cb : Nat → StateM σ (Except Int Bytes)} (hread : ∀ len, Always NegErr (read_cb len))
include hread

theorem negErr_validate_loop (ctx : StreamCtx) : Always NegErr (validate_loop read_cb ctx) := by
  intro s
  fun_induction validate_loop read_cb ctx s with
  | case1 ctx s e s' h => simpa [h] using hread EINK_STREAM_CHUNK_SIZE s
  | case2 ctx s s' h => trivial
  | case3 ctx s chunk s' h hne e hu =>
    unfold eink_frame_stream_update at hu
    split at hu <;> cases hu
    simp [EFBIG]
  | case4 ctx s chunk s' h hne ctx' hu ih => exact ih

theorem negErr_validate_stream (seek_cb : Option (Nat → StateM σ Int)) :
    Always NegErr (eink_frame_validate_stream read_cb seek_cb) := by
  refine always_then fun ret => always_ite (fun h => always_pure h) fun _ => ?_
  refine always_bind (hread _) ?_
  rintro (e | hdr_raw) he
  · exact always_pure he
  refine always_ite (fun _ => always_pure (show -EINVAL < 0 by decide)) fun _ => ?_
  have hp := negErr_header_parse hdr_raw
  split
  · next e h => exact always_pure (by rwa [h] at hp)
  · refine always_bind (negErr_validate_loop hread _) ?_
    rintro (e | ctx) he
    · exact always_pure he
    · exact always_ite (fun h => always_pure h) fun _ => always_pure trivial

end

end EinkNode
