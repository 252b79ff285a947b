import EinkNode.Frame.Validate
/-!
# Building a frame

`eink_frame_build` and the generator `build` of `scripts/gen-eink-frame.py`
put the same header in front of a payload, and the validators take it off
again.
-/
open NodeLib

namespace EinkNode

/-- The 960000 bytes of a picture. -/
structure Payload where
  bytes : Bytes
  length : bytes.length = EINK_PAYLOAD_LEN

/-- The structure as it lies in memory once its fields are little-endian. -/
def Header.pack (hdr : Header) : Bytes :=
  leBytes 4 hdr.magic.toNat ++ (leBytes 2 hdr.version.toNat ++ (leBytes 2 hdr.width.toNat ++
    (leBytes 2 hdr.height.toNat ++ (hdr.pixel_format :: hdr.orientation :: (leBytes 2 hdr.flags.toNat ++
      (leBytes 4 hdr.payload_len.toNat ++ (leBytes 4 hdr.crc32.toNat ++ hdr.reserved)))))))

/-- The header that `eink_frame_build` fills in. -/
def build_header (payload : Bytes) (orientation : UInt8) : Header :=
  { magic := EINK_FRAME_MAGIC, version := EINK_FRAME_VERSION, width := EINK_PANEL_WIDTH
    height := EINK_PANEL_HEIGHT, pixel_format := EINK_PIXEL_FORMAT_L4_S6, orientation := orientation, flags := 0
    payload_len := .ofNat EINK_PAYLOAD_LEN, crc32 := crc32_ieee payload, reserved := List.replicate 10 0 }

/-- The bytes that are written to a buffer of `out_cap` bytes. -/
def eink_frame_build (out_cap : Nat) (payload : Payload) (orientation : UInt8) : Except Int Bytes :=
  if out_cap < EINK_FRAME_HEADER_SIZE + EINK_PAYLOAD_LEN then .error (-ENOMEM)
  else .ok (Header.pack (build_header payload.bytes orientation) ++ payload.bytes)

/-! ## The generator -/

namespace GenEinkFrame

def WIDTH : Nat := 1200
def HEIGHT : Nat := 1600
def HALF : Nat := 480000
def PAYLOAD : Nat := 960000
def MAGIC : Bytes := ascii "ES6F"

/-- `zlib.crc32`: the IEEE CRC32, as an unbounded integer. -/
def zlib_crc32 (data : Bytes) : Nat := (crc32_ieee data).toNat

/-- The bytes of the frame; an assertion or a value out of range ends the script. -/
def build (payload : Bytes) (orientation : Nat) : Option Bytes :=
  if payload.length ≠ PAYLOAD then none
  else
    let crc := zlib_crc32 payload &&& 0xFFFFFFFF
    match struct_pack [.I (leNat MAGIC), .H 1, .H WIDTH, .H HEIGHT, .B 1, .B orientation, .H 0, .I PAYLOAD, .I crc,
      .x 10] with
    | none => none
    | some hdr => if hdr.length ≠ 32 then none else some (hdr ++ payload)

end GenEinkFrame

/-! ## Reading what was built -/

/-- A header is read back from the bytes it was packed into. -/
theorem unpack_pack {hdr : Header} (hres : hdr.reserved.length = 10) (rest : Bytes) :
    Header.unpack (hdr.pack ++ rest) = hdr := by
  unfold Header.unpack
  have hmagic : le32 (hdr.pack ++ rest) 0 = hdr.magic := le32_of_drop rfl
  have hversion : le16 (hdr.pack ++ rest) 4 = hdr.version := le16_of_drop rfl
  have hwidth : le16 (hdr.pack ++ rest) 6 = hdr.width := le16_of_drop rfl
  have hheight : le16 (hdr.pack ++ rest) 8 = hdr.height := le16_of_drop rfl
  have hflags : le16 (hdr.pack ++ rest) 12 = hdr.flags := le16_of_drop rfl
  have hlen : le32 (hdr.pack ++ rest) 14 = hdr.payload_len := le32_of_drop rfl
  have hcrc : le32 (hdr.pack ++ rest) 18 = hdr.crc32 := le32_of_drop rfl
  have hreserved : ((hdr.pack ++ rest).drop 22).take 10 = hdr.reserved := List.take_left' hres
  rw [hmagic, hversion, hwidth, hheight, hflags, hlen, hcrc, hreserved]
  rfl

theorem length_pack {hdr : Header} (hres : hdr.reserved.length = 10) : hdr.pack.length = EINK_FRAME_HEADER_SIZE := by
  simp only [Header.pack, List.length_append, length_leBytes, List.length_cons, hres]
  rfl

/-- What is built is a file of the format, with the header that was filled in. -/
theorem verdict_build (payload : Payload) (orientation : UInt8) :
    frame_verdict (Header.pack (build_header payload.bytes orientation) ++ payload.bytes) =
      .ok (build_header payload.bytes orientation) := by
  generalize hhdr : build_header payload.bytes orientation = hdr
  have hres : hdr.reserved.length = 10 := by rw [← hhdr]; rfl
  have hlen := length_pack hres
  have hhead : (hdr.pack ++ payload.bytes).take EINK_FRAME_HEADER_SIZE = hdr.pack ++ [] := by
    rw [List.take_left' hlen, List.append_nil]
  have htail : (hdr.pack ++ payload.bytes).drop EINK_FRAME_HEADER_SIZE = payload.bytes := List.drop_left' hlen
  rw [verdict_ok_iff, hhead, htail, header_parse_iff, unpack_pack hres]
  refine ⟨⟨?_, rfl, ?_⟩, ?_, ?_⟩
  · rw [List.append_nil, hlen]
  · subst hhdr
    exact ⟨rfl, rfl, rfl, rfl, rfl, rfl⟩
  · rw [List.length_append, hlen, payload.length]
    rfl
  · subst hhdr
    rfl

/-- The two generators write the same header. -/
theorem struct_pack_header (payload : Bytes) (orientation : UInt8) :
    struct_pack [.I (leNat GenEinkFrame.MAGIC), .H 1, .H GenEinkFrame.WIDTH, .H GenEinkFrame.HEIGHT, .B 1,
        .B orientation.toNat, .H 0, .I GenEinkFrame.PAYLOAD,
        .I (GenEinkFrame.zlib_crc32 payload &&& 0xFFFFFFFF), .x 10] =
      some (build_header payload orientation).pack := by
  have hcrc : GenEinkFrame.zlib_crc32 payload &&& 0xFFFFFFFF = (crc32_ieee payload).toNat :=
    (Nat.and_two_pow_sub_one_eq_mod _ 32).trans (Nat.mod_eq_of_lt (crc32_ieee payload).toNat_lt)
  have hmagic : leNat GenEinkFrame.MAGIC = EINK_FRAME_MAGIC.toNat := by decide
  have hbyte (o : UInt8) : leBytes 1 o.toNat = [o] := by
    rw [leBytes, leBytes, UInt8.ofNat_toNat]
  rw [hcrc, hmagic]
  simp only [struct_pack, PackItem.pack]
  -- Every value fits its field, so that `struct.pack` does not raise.
  rw [if_pos (show EINK_FRAME_MAGIC.toNat < 4294967296 by decide), if_pos (show 1 < 65536 by decide),
    if_pos (show GenEinkFrame.WIDTH < 65536 by decide), if_pos (show GenEinkFrame.HEIGHT < 65536 by decide),
    if_pos (show 1 < 256 by decide), if_pos (show orientation.toNat < 256 from orientation.toNat_lt),
    if_pos (show 0 < 65536 by decide), if_pos (show GenEinkFrame.PAYLOAD < 4294967296 by decide),
    if_pos (show (crc32_ieee payload).toNat < 4294967296 from (crc32_ieee payload).toNat_lt), hbyte orientation]
  rfl

/-- The script's frame is the one the C code builds. -/
theorem gen_build_eq {payload : Bytes} (hlength : payload.length = GenEinkFrame.PAYLOAD) (orientation : UInt8) :
    GenEinkFrame.build payload orientation.toNat =
      some (Header.pack (build_header payload orientation) ++ payload) := by
  have hlen : (build_header payload orientation).pack.length = 32 := length_pack rfl
  unfold GenEinkFrame.build
  rw [if_neg (not_not.2 hlength)]
  dsimp only
  rw [struct_pack_header]
  exact if_neg (not_not.2 hlen)

/-- Building and validating are inverse, and the generator writes the same bytes. -/
theorem build_inverse (payload : Payload) (orientation : UInt8) {out_cap : Nat}
    (hcap : EINK_FRAME_FILE_SIZE ≤ out_cap) :
    ∃ out hdr, eink_frame_build out_cap payload orientation = .ok out ∧ out.length = EINK_FRAME_FILE_SIZE ∧
      hdr.orientation = orientation ∧ hdr.flags = 0 ∧
      eink_frame_validate out = .ok ⟨hdr, payload.bytes⟩ ∧
      (∀ (σ : Type) (r : FrameReader σ out), (eink_frame_validate_stream r.read_cb r.seek_cb r.start).1 = .ok hdr) ∧
      out.drop EINK_FRAME_HEADER_SIZE = payload.bytes ∧
      GenEinkFrame.build payload.bytes orientation.toNat = some out := by
  have hres : (build_header payload.bytes orientation).reserved.length = 10 := rfl
  have hlen := length_pack hres
  have hsize : (Header.pack (build_header payload.bytes orientation) ++ payload.bytes).length =
      EINK_FRAME_FILE_SIZE := by
    rw [List.length_append, hlen, payload.length]
    rfl
  have hdrop : (Header.pack (build_header payload.bytes orientation) ++ payload.bytes).drop EINK_FRAME_HEADER_SIZE =
      payload.bytes := List.drop_left' hlen
  have hverdict := verdict_build payload orientation
  refine ⟨_, build_header payload.bytes orientation, if_neg (Nat.not_lt.2 hcap), hsize, rfl, rfl, ?_, ?_, hdrop, ?_⟩
  · apply frame_validate_ok_iff.2
    rw [List.take_of_length_le (Nat.le_of_eq hsize)]
    refine ⟨hverdict, ?_⟩
    rw [frame_payload, hdrop, List.take_of_length_le (Nat.le_of_eq payload.length)]
  · intro σ r
    rw [r.validate_stream_eq, hverdict]
  · exact gen_build_eq payload.length orientation

/-- The white picture, in a buffer that it just fits. -/
theorem build_inverse_white : ∃ out hdr,
    eink_frame_build EINK_FRAME_FILE_SIZE ⟨List.replicate EINK_PAYLOAD_LEN 0x11, List.length_replicate⟩ 2 = .ok out ∧
      out.length = EINK_FRAME_FILE_SIZE ∧ hdr.orientation = 2 ∧ hdr.flags = 0 ∧
      eink_frame_validate out = .ok ⟨hdr, List.replicate EINK_PAYLOAD_LEN 0x11⟩ ∧
      (∀ (σ : Type) (r : FrameReader σ out), (eink_frame_validate_stream r.read_cb r.seek_cb r.start).1 = .ok hdr) ∧
      out.drop EINK_FRAME_HEADER_SIZE = List.replicate EINK_PAYLOAD_LEN 0x11 ∧
      GenEinkFrame.build (List.replicate EINK_PAYLOAD_LEN 0x11) (2 : UInt8).toNat = some out :=
  build_inverse ⟨List.replicate EINK_PAYLOAD_LEN 0x11, List.length_replicate⟩ 2 (Nat.le_refl _)

end EinkNode
