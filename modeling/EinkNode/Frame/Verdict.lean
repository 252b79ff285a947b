import EinkNode.Frame
/-!
# What the stream validator accepts

A reader may cut the bytes behind the header into chunks as it likes. The
checksum and the length of the chunks are those of the bytes they make up, so
that the answer is one about the file: it is 0 for the files of exactly 960032
bytes that hold one ES6F frame of version 1.
-/
open NodeLib

namespace EinkNode

/-! ## The file format -/

/-- The file is one ES6F frame of version 1 and nothing else. -/
structure IsES6F (file : Bytes) : Prop where
  size : file.length = 960032
  magic : file.take 4 = ascii "ES6F"
  version : le16 file 4 = 1
  width : le16 file 6 = 1200
  height : le16 file 8 = 1600
  pixel_format : file[10]? = some 1
  payload_len : le32 file 14 = 960000
  crc : crc32_ieee (file.drop 32) = le32 file 18

/-- The answer about a file whose bytes behind the header come as one chunk. -/
def frame_verdict (file : Bytes) : Except Int Header :=
  if file.length < EINK_FRAME_HEADER_SIZE then .error (-EINVAL)
  else
    match eink_frame_header_parse (file.take EINK_FRAME_HEADER_SIZE) with
    | .error e => .error e
    | .ok hdr =>
      match eink_frame_stream_update (eink_frame_stream_begin hdr) (file.drop EINK_FRAME_HEADER_SIZE) with
      | .error e => .error e
      | .ok ctx => if eink_frame_stream_finish ctx < 0 then .error (eink_frame_stream_finish ctx) else .ok hdr

/-- The magic number is the one the four letters stand for. -/
theorem magic_iff {file : Bytes} (h : 4 ≤ file.length) :
    le32 file 0 = EINK_FRAME_MAGIC ↔ file.take 4 = ascii "ES6F" := by
  have hfour : (file.take 4).length = 4 := by rw [List.length_take]; omega
  constructor
  · intro hm
    apply leNat_inj hfour
    have hlt := leNat_lt (file.take 4)
    rw [hfour] at hlt
    have hn := congrArg UInt32.toNat hm
    rw [le32, List.drop_zero, UInt32.toNat_ofNat', Nat.mod_eq_of_lt (by simpa using hlt)] at hn
    exact hn
  · intro hm
    rw [le32, List.drop_zero, hm]
    decide

/-! ## The verdict -/

/-- The header passes when its fields are those of version 1. -/
theorem header_parse_iff {buf : Bytes} {hdr : Header} :
    eink_frame_header_parse buf = .ok hdr ↔ EINK_FRAME_HEADER_SIZE ≤ buf.length ∧ hdr = Header.unpack buf ∧
      hdr.magic = EINK_FRAME_MAGIC ∧ hdr.version = EINK_FRAME_VERSION ∧ hdr.width = EINK_PANEL_WIDTH ∧
      hdr.height = EINK_PANEL_HEIGHT ∧ hdr.pixel_format = EINK_PIXEL_FORMAT_L4_S6 ∧
      hdr.payload_len = .ofNat EINK_PAYLOAD_LEN := by
  unfold eink_frame_header_parse
  dsimp only
  constructor
  · intro h
    repeat' split at h
    all_goals cases h
    next hlen hmagic hversion hsize hpf hpl =>
      rw [not_or, not_not, not_not] at hsize
      exact ⟨by omega, rfl, not_not.1 hmagic, not_not.1 hversion, hsize.1, hsize.2, not_not.1 hpf, not_not.1 hpl⟩
  · rintro ⟨hlen, rfl, hmagic, hversion, hwidth, hheight, hpf, hpl⟩
    rw [if_neg (by omega), if_neg (not_not.2 hmagic), if_neg (not_not.2 hversion),
      if_neg (not_or.2 ⟨not_not.2 hwidth, not_not.2 hheight⟩), if_neg (not_not.2 hpf), if_neg (not_not.2 hpl)]

theorem stream_finish_nonneg {ctx : StreamCtx} : ¬ eink_frame_stream_finish ctx < 0 ↔
    ctx.payload_seen = ctx.hdr.payload_len.toNat ∧ ctx.crc = ctx.hdr.crc32 := by
  constructor
  · exact stream_finish_ok
  · rintro ⟨hsize, hsum⟩
    rw [eink_frame_stream_finish, if_neg (not_not.2 hsize), if_neg (not_not.2 hsum)]
    decide

theorem verdict_ok_iff {file : Bytes} {hdr : Header} :
    frame_verdict file = .ok hdr ↔ eink_frame_header_parse (file.take EINK_FRAME_HEADER_SIZE) = .ok hdr ∧
      file.length = EINK_FRAME_FILE_SIZE ∧ crc32_ieee (file.drop EINK_FRAME_HEADER_SIZE) = hdr.crc32 := by
  unfold frame_verdict
  by_cases hshort : file.length < EINK_FRAME_HEADER_SIZE
  · have hsize : EINK_FRAME_FILE_SIZE = EINK_FRAME_HEADER_SIZE + EINK_PAYLOAD_LEN := rfl
    rw [if_pos hshort]
    constructor
    · intro h
      cases h
    · intro h
      omega
  · rw [if_neg hshort]
    cases hparse : eink_frame_header_parse (file.take EINK_FRAME_HEADER_SIZE) with
    | error e => simp
    | ok hdr' =>
      have hlen := payload_len_of_parse hparse
      have hdrop : (file.drop EINK_FRAME_HEADER_SIZE).length = file.length - EINK_FRAME_HEADER_SIZE :=
        List.length_drop
      have hsize : EINK_FRAME_FILE_SIZE = EINK_FRAME_HEADER_SIZE + EINK_PAYLOAD_LEN := rfl
      simp only [eink_frame_stream_update, eink_frame_stream_begin, Nat.zero_add, hlen, hdrop]
      by_cases hlong : EINK_PAYLOAD_LEN < file.length - EINK_FRAME_HEADER_SIZE
      · -- Too many bytes are refused before the length and the sum are compared.
        rw [if_pos hlong]
        constructor
        · intro h
          cases h
        · intro h
          omega
      · rw [if_neg hlong]
        dsimp only
        constructor
        · intro h
          split at h
          · cases h
          · next hfin =>
            cases h
            obtain ⟨hseen, hsum⟩ := stream_finish_nonneg.1 hfin
            exact ⟨rfl, by dsimp only at hseen; omega, hsum⟩
        · rintro ⟨hhdr, hfile, hsum⟩
          cases hhdr
          rw [if_neg (stream_finish_nonneg.2 ⟨by dsimp only; omega, hsum⟩)]

/-- The verdict is 0 for the files of the format. -/
theorem verdict_iff_es6f (file : Bytes) : (∃ hdr, frame_verdict file = .ok hdr) ↔ IsES6F file := by
  have hrange : EINK_FRAME_FILE_SIZE = 960032 := rfl
  simp only [verdict_ok_iff, header_parse_iff]
  constructor
  · rintro ⟨hdr, ⟨hlen, rfl, hmagic, hversion, hwidth, hheight, hpf, hpl⟩, hsize, hcrc⟩
    rw [hrange] at hsize
    simp only [Header.unpack] at hmagic hversion hwidth hheight hpf hpl hcrc
    rw [le32_take (by decide)] at hmagic hpl hcrc
    rw [le16_take (by decide)] at hversion hwidth hheight
    refine ⟨hsize, (magic_iff (by omega)).1 hmagic, hversion, hwidth, hheight, ?_, hpl, hcrc⟩
    have hget : 10 < file.length := by omega
    rw [List.getD_eq_getElem?_getD, List.getElem?_take_of_lt (by decide), List.getElem?_eq_getElem hget] at hpf
    rw [List.getElem?_eq_getElem hget]
    exact congrArg some hpf
  · intro h
    have hsize := h.size
    refine ⟨Header.unpack (file.take EINK_FRAME_HEADER_SIZE), ⟨?_, rfl, ?_, ?_, ?_, ?_, ?_, ?_⟩, by omega, ?_⟩
    · rw [List.length_take, EINK_FRAME_HEADER_SIZE]
      omega
    · exact (le32_take (by decide)).trans ((magic_iff (by omega)).2 h.magic)
    · exact (le16_take (by decide)).trans h.version
    · exact (le16_take (by decide)).trans h.width
    · exact (le16_take (by decide)).trans h.height
    · simp [Header.unpack, EINK_FRAME_HEADER_SIZE, h.pixel_format, EINK_PIXEL_FORMAT_L4_S6]
    · exact (le32_take (by decide)).trans h.payload_len
    · exact h.crc.trans (le32_take (by decide)).symm

/-! ## Readers -/

/-- A read callback over the bytes of `file`: from the start it gives the header in one read, and then
the other bytes in order, cut into chunks of at most the size asked for, until there are none. -/
structure FrameReader (σ : Type) (file : Bytes) where
  read_cb : Nat → StateM σ (Except Int Bytes)
  seek_cb : Option (Nat → StateM σ Int)
  start : σ
  /-- The bytes that are still to be read. -/
  rest : σ → Bytes
  /-- The states that reading comes through. -/
  live : σ → Prop
  rewinds : ∀ seek ∈ seek_cb, 0 ≤ (seek 0 start).1
  opened : live (seek_cb.elim start fun seek => (seek 0 start).2) ∧
    rest (seek_cb.elim start fun seek => (seek 0 start).2) = file
  header : (read_cb EINK_FRAME_HEADER_SIZE (seek_cb.elim start fun seek => (seek 0 start).2)).1 =
    .ok (file.take EINK_FRAME_HEADER_SIZE)
  splits : ∀ len s, live s → 0 < len → live (read_cb len s).2 ∧ ∃ chunk, (read_cb len s).1 = .ok chunk ∧
    chunk.length ≤ len ∧ rest s = chunk ++ rest (read_cb len s).2 ∧ (chunk = [] → rest s = [])

/-- Two chunks are fed as their concatenation is. -/
theorem stream_update_append {ctx ctx' : StreamCtx} {a c : Bytes} (h : eink_frame_stream_update ctx a = .ok ctx') :
    eink_frame_stream_update ctx' c = eink_frame_stream_update ctx (a ++ c) := by
  obtain ⟨-, rfl⟩ := stream_update_ok h
  simp only [eink_frame_stream_update, List.length_append, Nat.add_assoc, crc32_ieee_update_append]

theorem stream_update_too_big {ctx : StreamCtx} {a c : Bytes} {e : Int}
    (h : eink_frame_stream_update ctx a = .error e) :
    eink_frame_stream_update ctx (a ++ c) = .error e := by
  unfold eink_frame_stream_update at h ⊢
  split at h
  · cases h
    rw [if_pos (by rw [List.length_append]; omega)]
  · cases h

namespace FrameReader

variable {σ : Type} {file : Bytes} (r : FrameReader σ file)

/-- Where reading starts. -/
def first : σ := r.seek_cb.elim r.start fun seek => (seek 0 r.start).2

/-- The loop answers as one update with all that is left. -/
theorem validate_loop_eq {ctx : StreamCtx} {s : σ} (hlive : r.live s)
    (hseen : ctx.payload_seen ≤ ctx.hdr.payload_len.toNat) :
    (validate_loop r.read_cb ctx s).1 = eink_frame_stream_update ctx (r.rest s) := by
  fun_induction validate_loop r.read_cb ctx s with
  | case1 ctx s e s' h =>
    obtain ⟨-, chunk, hok, -⟩ := r.splits EINK_STREAM_CHUNK_SIZE s hlive (by decide)
    rw [h] at hok
    cases hok
  | case2 ctx s s' h =>
    obtain ⟨-, chunk, hok, -, -, hend⟩ := r.splits EINK_STREAM_CHUNK_SIZE s hlive (by decide)
    rw [h] at hok
    cases hok
    rw [hend rfl, eink_frame_stream_update, if_neg (by rw [List.length_nil]; omega)]
    simp [crc32_ieee_update]
  | case3 ctx s chunk s' h hne e hu =>
    obtain ⟨-, chunk', hok, -, hrest, -⟩ := r.splits EINK_STREAM_CHUNK_SIZE s hlive (by decide)
    rw [h] at hok
    cases hok
    rw [hrest, stream_update_too_big hu]
  | case4 ctx s chunk s' h hne ctx' hu ih =>
    obtain ⟨hnext, chunk', hok, -, hrest, -⟩ := r.splits EINK_STREAM_CHUNK_SIZE s hlive (by decide)
    rw [h] at hok hnext
    cases hok
    obtain ⟨hle, hctx⟩ := stream_update_ok hu
    -- The bound on the bytes seen is the one the update has checked.
    rw [ih hnext (by rw [hctx]; exact hle), hrest, h, stream_update_append hu]

/-- Validation answers what the bytes of the file say, whatever the chunks. -/
theorem validate_stream_eq : (eink_frame_validate_stream r.read_cb r.seek_cb r.start).1 = frame_verdict file := by
  have hret : ¬ (r.seek_cb.elim (pure 0) (fun seek => seek 0) r.start).1 < 0 := by
    cases hseek : r.seek_cb with
    | none => exact Int.lt_irrefl 0
    | some seek =>
      have := r.rewinds seek hseek
      exact Int.not_lt.2 this
  have hfirst : (r.seek_cb.elim (pure 0) (fun seek => seek 0) r.start).2 = r.first := by
    rw [first]
    cases r.seek_cb <;> rfl
  unfold eink_frame_validate_stream
  simp only [bind_app, hfirst]
  rw [if_neg hret]
  simp only [bind_app]
  have hhdr : (r.read_cb EINK_FRAME_HEADER_SIZE r.first).1 = .ok (file.take EINK_FRAME_HEADER_SIZE) := r.header
  obtain ⟨hlive, hopened⟩ : r.live r.first ∧ r.rest r.first = file := r.opened
  obtain ⟨hnext, chunk, hok, -, hrest, -⟩ := r.splits EINK_FRAME_HEADER_SIZE r.first hlive (by decide)
  -- The first chunk is the header, so that what is left is the rest of the file.
  rw [hhdr] at hok
  cases hok
  have hleft : r.rest (r.read_cb EINK_FRAME_HEADER_SIZE r.first).2 = file.drop EINK_FRAME_HEADER_SIZE := by
    rw [hopened] at hrest
    exact (List.append_cancel_left ((List.take_append_drop EINK_FRAME_HEADER_SIZE file).trans hrest)).symm
  rw [hhdr]
  dsimp only
  unfold frame_verdict
  have hshort : (file.take EINK_FRAME_HEADER_SIZE).length < EINK_FRAME_HEADER_SIZE ↔
      file.length < EINK_FRAME_HEADER_SIZE := by
    rw [List.length_take]
    omega
  simp only [hshort]
  split
  · rfl
  · cases hparse : eink_frame_header_parse (file.take EINK_FRAME_HEADER_SIZE) with
    | error e => rfl
    | ok hdr =>
      simp only [bind_app]
      rw [r.validate_loop_eq hnext (Nat.zero_le _), hleft]
      cases eink_frame_stream_update (eink_frame_stream_begin hdr) (file.drop EINK_FRAME_HEADER_SIZE) with
      | error e => rfl
      | ok ctx =>
        dsimp only
        split <;> rfl

end FrameReader

/-- The stream validator accepts exactly the files of the format, and says the same for every reader. -/
theorem validate_stream_exact {σ τ : Type} {file : Bytes} (r : FrameReader σ file) (r' : FrameReader τ file) :
    ((∃ hdr, (eink_frame_validate_stream r.read_cb r.seek_cb r.start).1 = .ok hdr) ↔ IsES6F file) ∧
      (eink_frame_validate_stream r.read_cb r.seek_cb r.start).1 =
        (eink_frame_validate_stream r'.read_cb r'.seek_cb r'.start).1 := by
  rw [r.validate_stream_eq, r'.validate_stream_eq]
  exact ⟨verdict_iff_es6f file, rfl⟩

/-! ## Every cut -/

/-- How much of a read of `len` bytes comes when `sizes` are the sizes to come. -/
def cut_size (sizes : List Nat) (len : Nat) : Nat := min len (max 1 (sizes.headD len))

def cut_read (len : Nat) : StateM (Bytes × List Nat) (Except Int Bytes) := fun s =>
  (.ok (s.1.take (cut_size s.2 len)), (s.1.drop (cut_size s.2 len), s.2.tail))

theorem cut_read_header (file : Bytes) (sizes : List Nat) :
    (cut_read EINK_FRAME_HEADER_SIZE (file, EINK_FRAME_HEADER_SIZE :: sizes)).1 =
      .ok (file.take EINK_FRAME_HEADER_SIZE) := rfl

theorem cut_read_splits (len : Nat) (s : Bytes × List Nat) (_ : True) (hlen : 0 < len) :
    True ∧ ∃ chunk, (cut_read len s).1 = .ok chunk ∧ chunk.length ≤ len ∧ s.1 = chunk ++ (cut_read len s).2.1 ∧
      (chunk = [] → s.1 = []) := by
  refine ⟨trivial, s.1.take (cut_size s.2 len), rfl, ?_, (List.take_append_drop _ _).symm, ?_⟩
  · rw [List.length_take, cut_size]
    omega
  · intro h
    rw [List.take_eq_nil_iff] at h
    rcases h with h | h
    · rw [cut_size] at h
      omega
    · exact h

theorem cut_opened (file : Bytes) : True ∧ file = file := ⟨trivial, rfl⟩

theorem cut_rewinds {σ : Type} {s : σ} : ∀ seek ∈ (none : Option (Nat → StateM σ Int)), 0 ≤ (seek 0 s).1 := by
  intro seek h
  cases h

/-- The reader that cuts the payload into chunks of the given sizes. -/
def FrameReader.cut (file : Bytes) (sizes : List Nat) : FrameReader (Bytes × List Nat) file :=
  { read_cb := cut_read, seek_cb := none, start := (file, EINK_FRAME_HEADER_SIZE :: sizes), rest := Prod.fst
    live := fun _ => True, rewinds := cut_rewinds, opened := cut_opened file, header := cut_read_header file sizes
    splits := cut_read_splits }

end EinkNode
