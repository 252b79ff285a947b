import EinkNode.Frame.Verdict
/-!
# A frame in a buffer

`eink_frame_validate` looks at a frame that is in memory as a whole. It asks
for enough bytes and leaves what follows the payload alone.
-/
open NodeLib

namespace EinkNode

/-- `struct eink_frame_view`; the payload that the pointer leads to. -/
structure FrameView where
  hdr : Header
  payload : Bytes
deriving DecidableEq

def eink_frame_validate (buf : Bytes) : Except Int FrameView :=
  match eink_frame_header_parse buf with
  | .error e => .error e
  | .ok hdr =>
    let payload := (buf.drop EINK_FRAME_HEADER_SIZE).take hdr.payload_len.toNat
    if buf.length < EINK_FRAME_HEADER_SIZE + hdr.payload_len.toNat then .error (-EINVAL)
    else if crc32_ieee payload ≠ hdr.crc32 then .error (-EILSEQ)
    else .ok ⟨hdr, payload⟩

/-- Only the first 32 bytes count for the header. -/
theorem unpack_take (buf : Bytes) {n : Nat} (h : EINK_FRAME_HEADER_SIZE ≤ n) :
    Header.unpack (buf.take n) = Header.unpack buf := by
  have hn : 32 ≤ n := h
  have hget (i : Nat) (hi : i < n) : (buf.take n).getD i 0 = buf.getD i 0 := by
    rw [List.getD_eq_getElem?_getD, List.getD_eq_getElem?_getD, List.getElem?_take_of_lt hi]
  unfold Header.unpack
  rw [le32_take (by omega), le16_take (by omega), le16_take (by omega), le16_take (by omega), hget 10 (by omega),
    hget 11 (by omega), le16_take (by omega), le32_take (by omega), le32_take (by omega), List.drop_take,
    List.take_take, Nat.min_eq_left (by omega)]

theorem header_parse_take (buf : Bytes) {n : Nat} (h : EINK_FRAME_HEADER_SIZE ≤ n) :
    eink_frame_header_parse (buf.take n) = eink_frame_header_parse buf := by
  have hlen : (buf.take n).length < EINK_FRAME_HEADER_SIZE ↔ buf.length < EINK_FRAME_HEADER_SIZE := by
    rw [List.length_take]
    omega
  simp only [eink_frame_header_parse, unpack_take buf h, hlen]

/-- What is accepted is the frame that the buffer begins with. -/
theorem frame_validate_ok_iff {buf : Bytes} {view : FrameView} :
    eink_frame_validate buf = .ok view ↔
      frame_verdict (buf.take EINK_FRAME_FILE_SIZE) = .ok view.hdr ∧ view.payload = frame_payload buf := by
  have hrange : EINK_FRAME_FILE_SIZE = EINK_FRAME_HEADER_SIZE + EINK_PAYLOAD_LEN := rfl
  have hpayload : (buf.take EINK_FRAME_FILE_SIZE).drop EINK_FRAME_HEADER_SIZE = frame_payload buf := by
    rw [List.drop_take]
    rfl
  have hsize : (buf.take EINK_FRAME_FILE_SIZE).length = EINK_FRAME_FILE_SIZE ↔ EINK_FRAME_FILE_SIZE ≤ buf.length := by
    rw [List.length_take]
    omega
  rw [verdict_ok_iff, header_parse_take _ (Nat.le_refl _), header_parse_take _ (by decide), hpayload, hsize]
  unfold eink_frame_validate
  cases hparse : eink_frame_header_parse buf with
  | error e => simp
  | ok hdr =>
    have hlen := payload_len_of_parse hparse
    have hview : (buf.drop EINK_FRAME_HEADER_SIZE).take EINK_PAYLOAD_LEN = frame_payload buf := rfl
    simp only [hlen, hview]
    -- A buffer may be longer than the file; only its beginning counts on both sides.
    constructor
    · intro h
      split at h
      · cases h
      · split at h
        · cases h
        · next hshort hcrc =>
          cases h
          exact ⟨⟨rfl, by omega, not_not.1 hcrc⟩, rfl⟩
    · rintro ⟨⟨hhdr, hfile, hcrc⟩, hview⟩
      cases hhdr
      cases view
      cases hview
      rw [if_neg (by omega), if_neg (not_not.2 hcrc)]
      rfl

/-- The buffer validator accepts what begins with a file of the format. -/
theorem frame_validate_iff_es6f (buf : Bytes) :
    (∃ view, eink_frame_validate buf = .ok view) ↔ IsES6F (buf.take EINK_FRAME_FILE_SIZE) := by
  rw [← verdict_iff_es6f]
  constructor
  · rintro ⟨view, h⟩
    exact ⟨view.hdr, (frame_validate_ok_iff.1 h).1⟩
  · rintro ⟨hdr, h⟩
    exact ⟨⟨hdr, frame_payload buf⟩, frame_validate_ok_iff.2 ⟨h, rfl⟩⟩

theorem negErr_frame_validate (buf : Bytes) : NegErr (eink_frame_validate buf) := by
  have hparse := negErr_header_parse buf
  unfold eink_frame_validate
  cases h : eink_frame_header_parse buf with
  | error e => rwa [h] at hparse
  | ok hdr =>
    dsimp only
    repeat' split
    all_goals simp [EINVAL, EILSEQ]

end EinkNode
