import EinkNode.Display.Panel
/-!
# Frames from a buffer

`el133_write` has the frame in memory and sends it with a load loop of its own.
`el133uf1_stream_write` asks a callback for every chunk. As long as the callback
delivers what it is asked for, a driver does the same in both.
-/
open NodeLib

namespace EinkNode.El133

/-- The loop of `load_dtm`, once the command is out. -/
def load_loop (src : Bytes) (len off : Nat) (d : Driver) : Int × Driver :=
  if _h : off < len then
    let n := min EL133_CHUNK (len - off)
    match spi_write ((src.drop off).take n) d with
    | (ret, d) => if ret < 0 then (ret, d) else load_loop src len (off + n) d
  else (0, d)
termination_by len - off
decreasing_by
  have : 0 < EL133_CHUNK := by decide
  omega

def load_dtm (which : Cs) (src : Bytes) (len : Nat) : StateM Driver Int := do
  cs_set which true
  put (.dc false)
  let ret ← spi_write [EL133_DTM]
  if ret < 0 then
    cs_set which false
    pure ret
  else
    put (.dc true)
    let ret ← load_loop src len 0
    cs_set which false
    pure ret

/-- `none` is a missing buffer or descriptor; the length of the buffer is its `buf_size`. -/
def el133_write (buf : Option Bytes) : StateM Driver Int :=
  match buf with
  | none => pure (-EINVAL)
  | some payload =>
    if payload.length < EL133_PAYLOAD_BYTES then pure (-EINVAL)
    else do
      let ret ← load_dtm .EL133_CS0 payload EL133_HALF_BYTES
      if ret < 0 then pure ret
      else
        let ret ← load_dtm .EL133_CS1 (payload.drop EL133_HALF_BYTES) EL133_HALF_BYTES
        if ret < 0 then pure ret else loaded

section
variable {σ : Type} {fill : Nat → StateM σ (Except Int Bytes)} {left : σ → Bytes}

/-- Asked for a chunk, the callback delivers that many of the bytes that it has left. -/
structure Delivers (left : σ → Bytes) (fill : Nat → StateM σ (Except Int Bytes)) : Prop where
  chunk : ∀ want u, 0 < want → want ≤ EL133_CHUNK → want ≤ (left u).length →
    (fill want u).1 = .ok ((left u).take want)
  rest : ∀ want u, 0 < want → want ≤ EL133_CHUNK → want ≤ (left u).length →
    left (fill want u).2 = (left u).drop want

/-- The two loops do the same to the driver. -/
theorem stream_loop_eq (h : Delivers left fill) {src : Bytes} (hlen : EL133_HALF_BYTES ≤ src.length) {filled : Nat}
    {s : Driver × σ} (hf : filled ≤ EL133_HALF_BYTES) (hleft : left s.2 = src.drop filled) :
    (stream_loop fill filled s).1 = (load_loop src EL133_HALF_BYTES filled s.1).1 ∧
      (stream_loop fill filled s).2.1 = (load_loop src EL133_HALF_BYTES filled s.1).2 ∧
      ((stream_loop fill filled s).1 < 0 ∨ left (stream_loop fill filled s).2.2 = src.drop EL133_HALF_BYTES) := by
  -- In every turn the callback has the chunk that the buffer has at this offset.
  have hfill (filled want : Nat) (u : σ) (hwant : want = min EL133_CHUNK (EL133_HALF_BYTES - filled))
      (hlt : filled < EL133_HALF_BYTES) (hu : left u = src.drop filled) :
      (fill want u).1 = .ok ((src.drop filled).take want) ∧ left (fill want u).2 = src.drop (filled + want) := by
    have hchunk : 0 < EL133_CHUNK := by decide
    have hle : want ≤ (left u).length := by
      rw [hu, List.length_drop]
      omega
    rw [h.chunk want u (by omega) (by omega) hle, h.rest want u (by omega) (by omega) hle, hu, List.drop_drop]
    exact ⟨rfl, rfl⟩
  fun_induction stream_loop fill filled s with
  | case1 filled s hlt want e u hcall =>
    have hchunk := (hfill filled want s.2 rfl hlt hleft).1
    rw [hcall] at hchunk
    cases hchunk
  | case2 filled s hlt want chunk u hcall hn =>
    have hchunk := (hfill filled want s.2 rfl hlt hleft).1
    rw [hcall] at hchunk
    cases hchunk
    refine absurd ?_ hn
    rw [List.length_take, List.length_drop]
    omega
  | case3 filled s hlt want chunk u hcall hn ret d hspi hneg =>
    have hchunk := (hfill filled want s.2 rfl hlt hleft).1
    rw [hcall] at hchunk
    cases hchunk
    rw [load_loop, dif_pos hlt]
    simp only [show min EL133_CHUNK (EL133_HALF_BYTES - filled) = want from rfl, hspi, if_pos hneg]
    exact ⟨trivial, trivial, .inl hneg⟩
  | case4 filled s hlt want chunk u hcall hn ret d hspi hneg ih =>
    obtain ⟨hchunk, hrest⟩ := hfill filled want s.2 rfl hlt hleft
    rw [hcall] at hchunk hrest
    cases hchunk
    rw [not_not.1 hn] at ih ⊢
    rw [load_loop, dif_pos hlt]
    simp only [show min EL133_CHUNK (EL133_HALF_BYTES - filled) = want from rfl, hspi, if_neg hneg]
    exact ih (by omega) hrest
  | case5 filled s hge =>
    rw [load_loop, dif_neg hge]
    rw [show filled = EL133_HALF_BYTES by omega] at hleft
    exact ⟨rfl, rfl, .inr hleft⟩

/-- The data of a load from a buffer, as `load_data` has it for a stream. -/
theorem load_dtm_data (loop : StateM Driver Int) (which : Cs) (d : Driver) :
    (do
      put (.dc true)
      let ret ← loop
      cs_set which false
      pure ret : StateM Driver Int) d =
    ((loop (put (.dc true) d).2).1, (cs_set which false (loop (put (.dc true) d).2).2).2) := rfl

theorem stream_half_eq (h : Delivers left fill) (which : Cs) (src : Bytes) (hlen : EL133_HALF_BYTES ≤ src.length)
    {s : Driver × σ} (hleft : left s.2 = src) :
    (stream_half fill which s).1 = (load_dtm which src EL133_HALF_BYTES s.1).1 ∧
      (stream_half fill which s).2.1 = (load_dtm which src EL133_HALF_BYTES s.1).2 ∧
      ((stream_half fill which s).1 < 0 ∨ left (stream_half fill which s).2.2 = src.drop EL133_HALF_BYTES) := by
  obtain ⟨d, u⟩ := s
  obtain ⟨r, hr⟩ : ∃ r, spi_write [EL133_DTM] (put (.dc false) (cs_set which true d).2).2 = r := ⟨_, rfl⟩
  rw [stream_half_app fill which d u hr]
  unfold load_dtm
  simp only [bind_app]
  rw [hr]
  obtain ⟨ret, d1⟩ := r
  dsimp only
  by_cases hneg : ret < 0
  · rw [if_pos hneg, if_pos hneg]
    exact ⟨rfl, rfl, .inl hneg⟩
  · rw [if_neg hneg, if_neg hneg]
    have hleft' : left ((put (.dc true) d1).2, u).2 = src.drop 0 := hleft
    obtain ⟨hret, hdriver, hrest⟩ := stream_loop_eq h hlen (s := ((put (.dc true) d1).2, u)) (Nat.zero_le _) hleft'
    rw [load_dtm_data, ← hret, ← hdriver]
    exact ⟨rfl, rfl, hrest⟩

/-- A buffered write is a streaming write from a callback that delivers the buffer. -/
theorem stream_write_eq (h : Delivers left fill) {payload : Bytes} (hlen : EL133_PAYLOAD_BYTES ≤ payload.length)
    {s : Driver × σ} (hleft : left s.2 = payload) :
    (el133uf1_stream_write fill s).1 = (el133_write (some payload) s.1).1 ∧
      (el133uf1_stream_write fill s).2.1 = (el133_write (some payload) s.1).2 := by
  have htwo : EL133_PAYLOAD_BYTES = EL133_HALF_BYTES + EL133_HALF_BYTES := by decide
  obtain ⟨hret0, hdriver0, hrest0⟩ := stream_half_eq h .EL133_CS0 payload (by omega) hleft
  unfold el133uf1_stream_write el133_write
  simp only [if_neg (Nat.not_lt.2 hlen), bind_app]
  rw [← hret0, ← hdriver0]
  by_cases hneg : (stream_half fill .EL133_CS0 s).1 < 0
  · rw [if_pos hneg, if_pos hneg]
    exact ⟨rfl, rfl⟩
  · obtain ⟨hret1, hdriver1, -⟩ := stream_half_eq h .EL133_CS1 (payload.drop EL133_HALF_BYTES)
      (by rw [List.length_drop]; omega) (hrest0.resolve_left hneg)
    rw [if_neg hneg, if_neg hneg]
    simp only [bind_app]
    rw [← hret1, ← hdriver1]
    split
    · exact ⟨rfl, rfl⟩
    · exact ⟨rfl, rfl⟩

end

/-- A callback that cuts chunks off a buffer. -/
def from_buffer (want : Nat) : StateM Bytes (Except Int Bytes) := fun u => (.ok (u.take want), u.drop want)

theorem delivers_from_buffer : Delivers id from_buffer where
  chunk _ _ _ _ _ := rfl
  rest _ _ _ _ _ := rfl

theorem feeds_from_buffer : Feeds id from_buffer where
  ok want u chunk h _ := by
    cases h
    exact (List.take_append_drop want u).symm
  err _ _ := trivial

/-- Streaming and buffered writes drive the panel identically: the result, all that
goes over the wires, the flags, and what the bus and the panel have yet to answer. -/
theorem streaming_as_buffered {σ : Type} {fill : Nat → StateM σ (Except Int Bytes)} {left : σ → Bytes}
    (h : Delivers left fill) (payload : Bytes) (hlen : payload.length = EL133_PAYLOAD_BYTES) (u : σ)
    (hu : left u = payload) (d : Driver) :
    let streamed := el133uf1_stream_write fill (d, u)
    let written := el133_write (some payload) d
    streamed.1 = written.1 ∧ streamed.2.1.wire = written.2.wire ∧
      streamed.2.1.blanking_on = written.2.blanking_on ∧ streamed.2.1.dirty = written.2.dirty ∧
      streamed.2.1 = written.2 := by
  obtain ⟨hret, hdriver⟩ := stream_write_eq h (Nat.le_of_eq hlen.symm) (s := (d, u)) hu
  refine ⟨hret, ?_, ?_, ?_, hdriver⟩
  · exact congrArg Driver.wire hdriver
  · exact congrArg Driver.blanking_on hdriver
  · exact congrArg Driver.dirty hdriver

/-- A white frame, with the third transfer failing. -/
theorem streaming_as_buffered_white :
    let payload := List.replicate EL133_PAYLOAD_BYTES 0x11
    let d : Driver := ⟨false, false, [], [none, none, some (4, 100)], []⟩
    let streamed := el133uf1_stream_write from_buffer (d, payload)
    let written := el133_write (some payload) d
    streamed.1 = written.1 ∧ streamed.2.1.wire = written.2.wire ∧
      streamed.2.1.blanking_on = written.2.blanking_on ∧ streamed.2.1.dirty = written.2.dirty ∧
      streamed.2.1 = written.2 :=
  streaming_as_buffered delivers_from_buffer _ List.length_replicate _ rfl _

/-! ## The entry points -/

/-- A fill callback with its state, and the bytes that it will hand out. -/
structure Source where
  State : Type
  fill : Nat → StateM State (Except Int Bytes)
  left : State → Bytes
  feeds : Feeds left fill
  user : State

inductive Entry where
  | blanking_on
  | blanking_off
  | write (buf : Option Bytes)
  | stream_write (src : Source)

/-- A call of the driver, with how its transfers and waits will end. -/
structure Call where
  entry : Entry
  spi : List (Option (Nat × Nat))
  busy : List Bool

def Entry.enter : Entry → StateM Driver Int
  | .blanking_on => el133_blanking_on
  | .blanking_off => el133_blanking_off
  | .write buf => el133_write buf
  | .stream_write src => fun d =>
    let (ret, d, _) := el133uf1_stream_write src.fill (d, src.user)
    (ret, d)

def Call.apply (d : Driver) (c : Call) : Driver := (c.entry.enter { d with spi := c.spi, busy := c.busy }).2

/-- The source that a load reads; a load from a buffer reads what a callback would deliver. -/
def Entry.source : Entry → Option Source
  | .blanking_on | .blanking_off | .write none => none
  | .write (some payload) =>
    if payload.length < EL133_PAYLOAD_BYTES then none
    else some ⟨Bytes, from_buffer, id, feeds_from_buffer, payload⟩
  | .stream_write src => some src

/-- The frame of the load that a call starts. -/
def Entry.frame (e : Entry) : Option Bytes := e.source.map fun src => (src.left src.user).take EL133_PAYLOAD_BYTES

/-- Every load is a load from its source. -/
theorem enter_of_source {e : Entry} {src : Source} (h : e.source = some src) (d : Driver) :
    (e.enter d).1 = (el133uf1_stream_write src.fill (d, src.user)).1 ∧
      (e.enter d).2 = (el133uf1_stream_write src.fill (d, src.user)).2.1 := by
  cases e with
  | blanking_on => cases h
  | blanking_off => cases h
  | stream_write =>
    cases h
    exact ⟨rfl, rfl⟩
  | write buf =>
    cases buf with
    | none => cases h
    | some payload =>
      simp only [Entry.source] at h
      split at h
      · cases h
      · next hlen =>
        cases h
        obtain ⟨hret, hdriver⟩ := stream_write_eq delivers_from_buffer (Nat.not_lt.1 hlen) (s := (d, payload)) rfl
        exact ⟨hret.symm, hdriver.symm⟩

end EinkNode.El133
