import EinkNode.Lib.Cleanup
import EinkNode.Store.Expand
/-!
# The pumping loop of the expander

`eink_lz4_decompress_file` with the LZ4 library as a machine that answers each
call from its own state and the bytes that it is given. Nothing bounds the
loop, so it runs on a number of turns and has no result when they are used up.
-/
open NodeLib EinkNode.Store

namespace EinkNode.Lz4

def EINK_LZ4_IO_CHUNK : Nat := 8192

/-- The LZ4 library: a context, and a call with the rest of the source and the room for the output. -/
structure Lz4F (σ : Type) where
  create : Option σ
  decompress : σ → Bytes → Nat → Lz4Call × σ

variable {σ : Type}

/-- The variables of the loop, the answers so far and the bytes that were handed to `fs_write`. -/
structure Pump (σ : Type) where
  dctx : σ
  src_off : Nat
  total_out : Nat
  answers : List Lz4Call
  handed : Bytes

def Pump.start (dctx : σ) : Pump σ := ⟨dctx, 0, 0, [], []⟩

/-- How a turn ends: with an error, with the frame, or with another turn. -/
inductive Turned (σ : Type) where
  | out (ret : Int) (p : Pump σ)
  | stop (p : Pump σ)
  | go (p : Pump σ)

variable (O : Lz4F σ) (src : Bytes) (dst_path : Path)

def pump_turn (p : Pump σ) : FS (Turned σ) := do
  let (call, dctx) := O.decompress p.dctx (src.drop p.src_off) EINK_LZ4_IO_CHUNK
  let p := { p with dctx := dctx, src_off := p.src_off + call.consumed, answers := p.answers ++ [call] }
  if call.lret = .error then pure (.out (-EIOERR) p)
  else if call.out ≠ [] ∧ p.total_out + call.out.length > EINK_FRAME_FILE_SIZE then pure (.out (-EFBIG) p)
  else
    let nw ← write_out dst_path p.total_out call.out
    let p := { p with handed := p.handed ++ call.out }
    if nw ≠ call.out.length then pure (.out (if nw < 0 then nw else -EIOERR) p)
    else
      let p := { p with total_out := p.total_out + call.out.length }
      if call.lret = .done then pure (.stop p)
      else if call.consumed = 0 ∧ call.out = [] ∧ p.src_off ≥ src.length then pure (.out (-EIOERR) p)
      else pure (.go p)

/-- There is input left, or output missing. -/
def Pump.Open (p : Pump σ) : Prop := p.src_off < src.length ∨ p.total_out < EINK_FRAME_FILE_SIZE

instance (p : Pump σ) : Decidable (p.Open src) := inferInstanceAs (Decidable (_ ∨ _))

/-- The loop, for a number of turns. -/
def pump : Nat → Pump σ → FS (Option (Except Int Unit × Pump σ))
  | 0, _ => pure none
  | turns + 1, p => do
    if p.Open src then
      match ← pump_turn O src dst_path p with
      | .out ret p => pure (some (.error ret, p))
      | .stop p => pure (some (.ok (), p))
      | .go p => pump turns p
    else pure (some (.ok (), p))

/-- What is returned, and whether the destination was opened, the answers, and what was handed to `fs_write`. -/
structure Expanded where
  ret : Int
  opened : Bool
  answers : List Lz4Call
  handed : Bytes

/-- From the open destination on. -/
def expand_into (turns : Nat) : FS (Option Expanded) := do
  match O.create with
  | none => pure (some ⟨-ENOMEM, true, [], []⟩)
  | some dctx =>
    match ← pump O src dst_path turns (.start dctx) with
    | none => pure none
    | some (.error ret, p) => pure (some ⟨ret, true, p.answers, p.handed⟩)
    | some (.ok (), p) =>
      let ret ← fs_sync dst_path
      if ret < 0 then pure (some ⟨ret, true, p.answers, p.handed⟩)
      else
        pure (some ⟨if p.total_out ≠ EINK_FRAME_FILE_SIZE then -EINVAL else 0, true, p.answers, p.handed⟩)

def eink_lz4_decompress_file (malloc : Nat → Bool) (src_path : Path) (turns : Nat) : FS (Option Expanded) := do
  match ← read_all ⟨malloc, fun _ => none⟩ src_path with
  | .error e => pure (some ⟨e, false, [], []⟩)
  | .ok src =>
    let ret ← fs_open dst_path true true
    if ret < 0 then pure (some ⟨ret, false, [], []⟩)
    else
      match ← expand_into O src dst_path turns with
      | none => pure none
      | some r =>
        if r.ret < 0 then
          let _ ← fs_unlink dst_path
          pure (some r)
        else pure (some r)

/-! ## One turn -/

section
variable {O src dst_path} {p : Pump σ} {d : Disk Path}

/-- The answer to the next call. -/
def Pump.call (O : Lz4F σ) (src : Bytes) (p : Pump σ) : Lz4Call :=
  (O.decompress p.dctx (src.drop p.src_off) EINK_LZ4_IO_CHUNK).1

/-- After a turn that writes all of its output. -/
def Pump.next (O : Lz4F σ) (src : Bytes) (p : Pump σ) : Pump σ where
  dctx := (O.decompress p.dctx (src.drop p.src_off) EINK_LZ4_IO_CHUNK).2
  src_off := p.src_off + (p.call O src).consumed
  total_out := p.total_out + (p.call O src).out.length
  answers := p.answers ++ [p.call O src]
  handed := p.handed ++ (p.call O src).out

/-- The output of the next call has room. -/
def Pump.HasRoom (O : Lz4F σ) (src : Bytes) (p : Pump σ) : Prop :=
  (p.call O src).out ≠ [] → p.total_out + (p.call O src).out.length ≤ EINK_FRAME_FILE_SIZE

/-- The library wants more, and there is no more. -/
def Pump.Stuck (O : Lz4F σ) (src : Bytes) (p : Pump σ) : Prop :=
  (p.call O src).consumed = 0 ∧ (p.call O src).out = [] ∧ src.length ≤ (p.next O src).src_off

/-- The end of a turn: an error and what it comes from, or all of the output is written. -/
theorem pump_turn_cases (O : Lz4F σ) (src : Bytes) (dst_path : Path) (p : Pump σ) (d : Disk Path) :
    (∃ ret p', (pump_turn O src dst_path p d).1 = .out ret p' ∧ ret < 0 ∧
      (p'.handed = p.handed ∨ p'.handed = p.handed ++ (p.call O src).out ∧ p.HasRoom O src) ∧
      p'.answers = p.answers ++ [p.call O src] ∧
      ((p.call O src).lret = .error ∨ ¬ p.HasRoom O src ∨
        (write_out dst_path p.total_out (p.call O src).out d).1 ≠ (p.call O src).out.length ∨ p.Stuck O src)) ∨
    (p.call O src).lret ≠ .error ∧ p.HasRoom O src ∧
      (write_out dst_path p.total_out (p.call O src).out d).1 = (p.call O src).out.length ∧
      (pump_turn O src dst_path p d).2 = (write_out dst_path p.total_out (p.call O src).out d).2 ∧
      ((p.call O src).lret = .done ∧ (pump_turn O src dst_path p d).1 = .stop (p.next O src) ∨
        (p.call O src).lret = .more ∧ ¬ p.Stuck O src ∧ (pump_turn O src dst_path p d).1 = .go (p.next O src)) := by
  rcases hr : O.decompress p.dctx (src.drop p.src_off) EINK_LZ4_IO_CHUNK with ⟨call, dctx⟩
  have hcall : p.call O src = call := by rw [Pump.call, hr]
  have hnext : p.next O src = ⟨dctx, p.src_off + call.consumed, p.total_out + call.out.length, p.answers ++ [call],
      p.handed ++ call.out⟩ := by rw [Pump.next, hcall, hr]
  unfold Pump.HasRoom Pump.Stuck
  rw [hnext, hcall]
  unfold pump_turn
  rw [hr]
  dsimp only
  by_cases herr : call.lret = .error
  · rw [if_pos herr]
    exact .inl ⟨_, _, rfl, by decide, .inl rfl, rfl, .inl herr⟩
  rw [if_neg herr]
  by_cases hbig : call.out ≠ [] ∧ p.total_out + call.out.length > EINK_FRAME_FILE_SIZE
  · rw [if_pos hbig]
    exact .inl ⟨_, _, rfl, by decide, .inl rfl, rfl, .inr (.inl fun hroom => not_lt.2 (hroom hbig.1) hbig.2)⟩
  have hroom : call.out ≠ [] → p.total_out + call.out.length ≤ EINK_FRAME_FILE_SIZE :=
    fun hne => not_lt.1 fun hlt => hbig ⟨hne, hlt⟩
  rw [if_neg hbig, bind_app]
  by_cases hnw : (write_out dst_path p.total_out call.out d).1 = call.out.length
  · rw [if_neg (not_not.2 hnw)]
    by_cases hdone : call.lret = .done
    · rw [if_pos hdone]
      exact .inr ⟨herr, hroom, hnw, rfl, .inl ⟨hdone, rfl⟩⟩
    rw [if_neg hdone]
    by_cases hstuck : call.consumed = 0 ∧ call.out = [] ∧ p.src_off + call.consumed ≥ src.length
    · rw [if_pos hstuck]
      exact .inl ⟨_, _, rfl, by decide, .inr ⟨rfl, hroom⟩, rfl, .inr (.inr (.inr hstuck))⟩
    · rw [if_neg hstuck]
      have hmore : call.lret = .more := by
        cases h : call.lret with
        | error => exact absurd h herr
        | done => exact absurd h hdone
        | more => rfl
      exact .inr ⟨herr, hroom, hnw, rfl, .inr ⟨hmore, hstuck, rfl⟩⟩
  · rw [if_pos hnw]
    refine .inl ⟨_, _, rfl, ?_, .inr ⟨rfl, hroom⟩, rfl, .inr (.inr (.inl hnw))⟩
    split
    · assumption
    · decide

/-- The counter is that of the output, which has room. -/
structure Pump.Inv (p : Pump σ) : Prop where
  total : p.total_out = p.handed.length
  handed : p.handed = (p.answers.map Lz4Call.out).flatten
  room : p.total_out ≤ EINK_FRAME_FILE_SIZE

theorem inv_start (dctx : σ) : (Pump.start dctx).Inv := ⟨rfl, rfl, Nat.zero_le _⟩

theorem Pump.Inv.next (hp : p.Inv) (hroom : p.HasRoom O src) : (p.next O src).Inv := by
  refine ⟨?_, ?_, ?_⟩
  · rw [Pump.next, List.length_append, ← hp.total]
  · rw [Pump.next, List.map_append, List.flatten_append, ← hp.handed]
    simp
  · show p.total_out + (p.call O src).out.length ≤ _
    by_cases hout : (p.call O src).out = []
    · rw [hout]
      exact hp.room
    · exact hroom hout

/-- What was handed over has room, also when the turn ends with an error. -/
theorem handed_le (hp : p.Inv) {handed : Bytes}
    (h : handed = p.handed ∨ handed = p.handed ++ (p.call O src).out ∧ p.HasRoom O src) :
    handed.length ≤ EINK_FRAME_FILE_SIZE := by
  rcases h with rfl | ⟨rfl, hroom⟩
  · rw [← hp.total]
    exact hp.room
  · have hnext := hp.next hroom
    have hlen := hnext.total
    rw [Pump.next] at hlen
    rw [← hlen]
    exact hnext.room

/-- A write of all of the output puts it behind what is there. -/
theorem write_out_whole {file out : Bytes} (hfile : d.files dst_path = some file)
    (h : (write_out dst_path file.length out d).1 = out.length) :
    (write_out dst_path file.length out d).2.files dst_path = some (file ++ out) := by
  unfold write_out at h ⊢
  by_cases hout : out = []
  · rw [if_neg (not_not.2 hout), hout, List.append_nil]
    exact hfile
  · rw [if_pos hout] at h ⊢
    obtain ⟨n, -, hn, hwritten⟩ := fs_write_at_end out hfile (by rw [h]; omega)
    obtain rfl : n = out.length := by omega
    rwa [List.take_length] at hwritten

/-! ## The loop -/

/-- What the loop leaves: an error, or all of the output in the file. -/
def PumpPost (dst_path : Path) : Option (Except Int Unit × Pump σ) → Disk Path → Prop
  | none, _ => True
  | some (.error ret, p), _ => ret < 0 ∧ p.handed.length ≤ EINK_FRAME_FILE_SIZE
  | some (.ok (), p), d => p.Inv ∧ d.files dst_path = some p.handed

theorem pump_post (turns : Nat) (hp : p.Inv) (hfile : d.files dst_path = some p.handed) :
    wp (pump O src dst_path turns p) (PumpPost dst_path) d := by
  induction turns generalizing p d with
  | zero => trivial
  | succ turns ih =>
    rw [pump]
    refine wp_ite (fun _ => ?_) fun _ => ⟨hp, hfile⟩
    rw [wp_bind, wp_iff]
    rcases pump_turn_cases O src dst_path p d with ⟨ret, p', hout, hneg, hhanded, -⟩ | ⟨-, hroom, hwhole, hdisk, hend⟩
    · rw [hout]
      exact ⟨hneg, handed_le hp hhanded⟩
    · have hnext := hp.next hroom
      have hfile' : (pump_turn O src dst_path p d).2.files dst_path = some (p.next O src).handed := by
        rw [hp.total] at hwhole hdisk
        rw [hdisk]
        exact write_out_whole hfile hwhole
      rcases hend with ⟨-, hstop⟩ | ⟨-, -, hgo⟩
      · rw [hstop]
        exact ⟨hnext, hfile'⟩
      · rw [hgo]
        exact ih hnext hfile'

/-- More turns do not change a result. -/
theorem pump_mono {turns : Nat} {r : Except Int Unit × Pump σ} {d' : Disk Path}
    (h : pump O src dst_path turns p d = (some r, d')) (more : Nat) :
    pump O src dst_path (turns + more) p d = (some r, d') := by
  induction turns generalizing p d with
  | zero => cases h
  | succ turns ih =>
    rw [Nat.succ_add]
    rw [pump] at h ⊢
    split at h
    · next hopen =>
      rw [if_pos hopen]
      rw [bind_app] at h ⊢
      cases hturn : (pump_turn O src dst_path p d).1 with
      | out ret p' => rwa [hturn] at h
      | stop p' => rwa [hturn] at h
      | go p' =>
        rw [hturn] at h
        exact ih h
    · next hopen => rwa [if_neg hopen]

end

/-! ## Termination -/

/-- A call consumes what it is given, has room for its output, and moves on where there is room. -/
structure Sane (O : Lz4F σ) : Prop where
  consumed_le : ∀ dctx input cap, (O.decompress dctx input cap).1.consumed ≤ input.length
  out_le : ∀ dctx input cap, (O.decompress dctx input cap).1.out.length ≤ cap
  progress : ∀ dctx input cap, input ≠ [] → 0 < cap → (O.decompress dctx input cap).1.lret = .more →
    (O.decompress dctx input cap).1.consumed ≠ 0 ∨ (O.decompress dctx input cap).1.out ≠ []

section
variable {O src dst_path} {p : Pump σ} (hO : Sane O)
include hO

/-- The offset stays in the source, and one of the counters grows. -/
theorem Sane.next (hoff : p.src_off ≤ src.length) (hmore : (p.call O src).lret = .more) (hstuck : ¬ p.Stuck O src) :
    (p.next O src).src_off ≤ src.length ∧
      p.src_off + p.total_out < (p.next O src).src_off + (p.next O src).total_out := by
  have hcons : (p.call O src).consumed ≤ src.length - p.src_off := by
    have h := hO.consumed_le p.dctx (src.drop p.src_off) EINK_LZ4_IO_CHUNK
    rwa [List.length_drop] at h
  have hmoves : (p.call O src).consumed ≠ 0 ∨ (p.call O src).out ≠ [] := by
    by_cases hleft : p.src_off < src.length
    · refine hO.progress p.dctx (src.drop p.src_off) EINK_LZ4_IO_CHUNK (fun hnil => ?_) (by decide) hmore
      rw [List.drop_eq_nil_iff] at hnil
      omega
    · by_contra hnone
      rw [not_or, not_not, not_not] at hnone
      refine hstuck ⟨hnone.1, hnone.2, ?_⟩
      show src.length ≤ p.src_off + _
      omega
  have hgrows : 0 < (p.call O src).consumed + (p.call O src).out.length := by
    rcases hmoves with h | h
    · omega
    · have := List.length_pos_iff.2 h
      omega
  constructor
  · show p.src_off + _ ≤ _
    omega
  · show _ < p.src_off + _ + (p.total_out + _)
    omega

/-- There are at most as many turns as there is input left and output missing. -/
theorem pump_enough (turns : Nat) (hp : p.Inv) (hoff : p.src_off ≤ src.length)
    (hturns : src.length + EINK_FRAME_FILE_SIZE < turns + (p.src_off + p.total_out)) (d : Disk Path) :
    ∃ r, (pump O src dst_path turns p d).1 = some r := by
  induction turns generalizing p d with
  | zero =>
    have := hp.room
    omega
  | succ turns ih =>
    rw [pump]
    split
    · rw [bind_app]
      rcases pump_turn_cases O src dst_path p d with ⟨ret, p', hout, -, -, -⟩ | ⟨-, hroom, -, -, hend⟩
      · rw [hout]
        exact ⟨_, rfl⟩
      · rcases hend with ⟨-, hstop⟩ | ⟨hmore, hstuck, hgo⟩
        · rw [hstop]
          exact ⟨_, rfl⟩
        · rw [hgo]
          obtain ⟨hoff', hgrows⟩ := hO.next hoff hmore hstuck
          exact ih (hp.next hroom) hoff' (by omega) _
    · exact ⟨_, rfl⟩

end

/-! ## The whole file -/

theorem negErr_read_all (lib : Lz4Lib) (path : Path) : Always NegErr (read_all lib path) := by
  have hloop (size turns : Nat) (buf : Bytes) : Always NegErr (read_all_loop path size turns buf) := by
    induction turns generalizing buf with
    | zero =>
      refine always_pure ?_
      split
      · show -EIOERR < 0
        decide
      · trivial
    | succ turns ih =>
      refine always_ite (fun _ => always_pure trivial) fun _ => always_bind (negErr_fs_read path _ _) ?_
      rintro (e | _ | ⟨c, chunk⟩) he
      · exact always_pure he
      · exact always_pure (show -EIOERR < 0 by decide)
      · exact ih _
  have hstat : Always NegErr (fs_stat path) := by
    intro d
    unfold fs_stat
    dsimp only
    split
    · next e _ h => exact d.err_neg h
    · show -ENOENT < 0
      decide
    · trivial
  refine always_bind hstat ?_
  rintro (e | size) he
  · exact always_pure he
  · refine always_ite (fun _ => always_pure (show -EFBIG < 0 by decide)) fun _ => ?_
    refine always_ite (fun _ => always_pure (show -ENOMEM < 0 by decide)) fun _ => always_then fun ret => ?_
    exact always_ite (fun h => always_pure h) fun _ => hloop size size []

/-- The reading loop needs no more turns than there are bytes. -/
theorem read_all_loop_turns (path : Path) {size turns : Nat} {buf : Bytes} (hle : buf.length ≤ size)
    (h : size ≤ buf.length + turns) (more : Nat) (d : Disk Path) :
    read_all_loop path size (turns + more) buf d = read_all_loop path size turns buf d := by
  induction turns generalizing buf d with
  | zero =>
    have hlen : buf.length = size := by omega
    cases more with
    | zero => rfl
    | succ more => simp [read_all_loop, hlen]
  | succ turns ih =>
    rw [Nat.succ_add, read_all_loop, read_all_loop]
    by_cases hfull : buf.length ≥ size
    · rw [if_pos hfull, if_pos hfull]
    · rw [if_neg hfull, if_neg hfull, bind_app, bind_app]
      rcases hread : (fs_read path buf.length (size - buf.length) d).1 with e | _ | ⟨c, chunk⟩
      · rfl
      · rfl
      · obtain ⟨hchunk, -⟩ := fs_read_ok hread
        rw [List.length_cons] at hchunk
        refine ih ?_ ?_ _
        · rw [List.length_append, List.length_cons]
          omega
        · rw [List.length_append, List.length_cons]
          omega

/-- What the loop has read is the beginning of the file, and at the end all of it. -/
theorem read_all_loop_ok {path : Path} {file buf bytes : Bytes} {turns : Nat} {d : Disk Path}
    (hfile : d.files path = some file) (hbuf : buf <+: file)
    (h : (read_all_loop path file.length turns buf d).1 = .ok bytes) : bytes = file := by
  induction turns generalizing buf d with
  | zero =>
    by_cases hlen : buf.length = file.length
    · rw [read_all_loop, if_neg (not_not.2 hlen)] at h
      cases h
      exact hbuf.eq_of_length hlen
    · rw [read_all_loop, if_pos hlen] at h
      cases h
  | succ turns ih =>
    rw [read_all_loop] at h
    by_cases hfull : buf.length ≥ file.length
    · rw [if_pos hfull] at h
      cases h
      exact hbuf.eq_of_length (Nat.le_antisymm hbuf.length_le hfull)
    · rw [if_neg hfull, bind_app] at h
      rcases hread : (fs_read path buf.length (file.length - buf.length) d).1 with e | _ | ⟨c, chunk⟩
      · rw [hread] at h
        cases h
      · rw [hread] at h
        cases h
      · rw [hread] at h
        obtain ⟨-, hchunk⟩ := fs_read_ok hread
        rw [hfile, Option.getD_some] at hchunk
        refine ih ?_ ?_ h
        · exact hfile
        · obtain ⟨tail, rfl⟩ := hbuf
          rw [List.drop_left] at hchunk
          exact (List.prefix_append_right_inj buf).2 hchunk

theorem fs_stat_ok {path : Path} {d : Disk Path} {size : Nat} (h : (fs_stat path d).1 = .ok size) :
    ∃ file, d.files path = some file ∧ size = file.length := by
  unfold fs_stat at h
  dsimp only at h
  split at h
  · cases h
  · cases h
  · next file _ hfile =>
    cases h
    exact ⟨file, hfile, rfl⟩

/-- What was read is the file, and it has a size that is let in. -/
theorem read_all_ok {lib : Lz4Lib} {path : Path} {d : Disk Path} {bytes : Bytes}
    (h : (read_all lib path d).1 = .ok bytes) :
    d.files path = some bytes ∧ 0 < bytes.length ∧ bytes.length ≤ EINK_LZ4_COMPRESSED_MAX := by
  unfold read_all at h
  rw [bind_app] at h
  cases hstat : (fs_stat path d).1 with
  | error e =>
    rw [hstat] at h
    cases h
  | ok size =>
    obtain ⟨file, hfile, rfl⟩ := fs_stat_ok hstat
    rw [hstat] at h
    dsimp only at h
    by_cases hsize : file.length = 0 ∨ file.length > EINK_LZ4_COMPRESSED_MAX
    · rw [if_pos hsize] at h
      cases h
    · rw [if_neg hsize] at h
      split at h
      · cases h
      · rw [bind_app] at h
        split at h
        · cases h
        · next hopen =>
          obtain ⟨file', hfile', hfiles⟩ := fs_open_read_ok hopen
          have hopened : (fs_open path false false (fs_stat path d).2).2.files path = some file := by
            rw [hfiles]
            exact hfile
          rw [read_all_loop_ok hopened List.nil_prefix h]
          exact ⟨hfile, by omega, by omega⟩

/-- What is expected of the expansion of a file. -/
structure ExpandPost (dst_path : Path) (r : Expanded) (d : Disk Path) : Prop where
  bounded : r.handed.length ≤ EINK_FRAME_FILE_SIZE
  nonpos : r.ret ≤ 0
  whole : r.ret = 0 → d.files dst_path = some r.handed ∧ r.handed.length = EINK_FRAME_FILE_SIZE ∧
    r.handed = (r.answers.map Lz4Call.out).flatten
  cleaned : r.ret < 0 → r.opened = true → d.files dst_path = none

section
variable {O : Lz4F σ} {src : Bytes} {dst_path : Path} {d : Disk Path}

/-- An expansion with a result: no context, a pump that fails, or one that ends and the sync behind it. -/
theorem expand_into_cases {turns : Nat} {r : Expanded} {d' : Disk Path}
    (h : expand_into O src dst_path turns d = (some r, d')) :
    (O.create = none ∧ r = ⟨-ENOMEM, true, [], []⟩ ∧ d' = d) ∨
      ∃ dctx p d1, O.create = some dctx ∧
        ((∃ ret, pump O src dst_path turns (.start dctx) d = (some (.error ret, p), d1) ∧
            r = ⟨ret, true, p.answers, p.handed⟩ ∧ d' = d1) ∨
          pump O src dst_path turns (.start dctx) d = (some (.ok (), p), d1) ∧ d' = (fs_sync dst_path d1).2 ∧
            r = ⟨if (fs_sync dst_path d1).1 < 0 then (fs_sync dst_path d1).1
              else if p.total_out ≠ EINK_FRAME_FILE_SIZE then -EINVAL else 0, true, p.answers, p.handed⟩) := by
  unfold expand_into at h
  cases hcreate : O.create with
  | none =>
    rw [hcreate] at h
    cases h
    exact .inl ⟨rfl, rfl, rfl⟩
  | some dctx =>
    rw [hcreate] at h
    dsimp only at h
    rw [bind_app] at h
    rcases hpump : pump O src dst_path turns (.start dctx) d with ⟨_ | ⟨ret | ⟨⟩, p⟩, d1⟩
    · rw [hpump] at h
      cases h
    · rw [hpump] at h
      cases h
      exact .inr ⟨dctx, p, d1, rfl, .inl ⟨ret, hpump, rfl, rfl⟩⟩
    · rw [hpump] at h
      dsimp only at h
      rw [bind_app] at h
      refine .inr ⟨dctx, p, d1, rfl, .inr ⟨hpump, ?_⟩⟩
      by_cases hsync : (fs_sync dst_path d1).1 < 0
      · rw [if_pos hsync] at h
        cases h
        rw [if_pos hsync]
        exact ⟨rfl, rfl⟩
      · rw [if_neg hsync] at h
        cases h
        rw [if_neg hsync]
        exact ⟨rfl, rfl⟩

/-- Before the unlink. -/
theorem expand_into_post (turns : Nat) (hfile : d.files dst_path = some []) {r : Expanded} {d' : Disk Path}
    (h : expand_into O src dst_path turns d = (some r, d')) :
    r.handed.length ≤ EINK_FRAME_FILE_SIZE ∧ r.ret ≤ 0 ∧
      (r.ret = 0 → d'.files dst_path = some r.handed ∧ r.handed.length = EINK_FRAME_FILE_SIZE ∧
        r.handed = (r.answers.map Lz4Call.out).flatten) := by
  rcases expand_into_cases h with ⟨-, rfl, -⟩ | ⟨dctx, p, d1, -, hres⟩
  · exact ⟨Nat.zero_le _, by decide, fun h0 => absurd h0 (by decide)⟩
  have hpost : wp (pump O src dst_path turns (.start dctx)) (PumpPost dst_path) d :=
    pump_post turns (inv_start dctx) hfile
  rw [wp_iff] at hpost
  rcases hres with ⟨ret, hpump, rfl, rfl⟩ | ⟨hpump, rfl, rfl⟩
  · rw [hpump] at hpost
    exact ⟨hpost.2, Int.le_of_lt hpost.1, fun h0 => absurd h0 (Int.ne_of_lt hpost.1)⟩
  · rw [hpump] at hpost
    obtain ⟨hinv, hwritten⟩ := hpost
    have hle : p.handed.length ≤ EINK_FRAME_FILE_SIZE := by
      rw [← hinv.total]
      exact hinv.room
    dsimp only
    by_cases hsync : (fs_sync dst_path d1).1 < 0
    · rw [if_pos hsync]
      exact ⟨hle, Int.le_of_lt hsync, fun h0 => absurd h0 (Int.ne_of_lt hsync)⟩
    · rw [if_neg hsync]
      refine ⟨hle, ?_, fun h0 => ⟨hwritten, ?_, hinv.handed⟩⟩
      · split
        · decide
        · exact Int.le_refl 0
      · by_contra hsize
        rw [← hinv.total] at hsize
        rw [if_pos hsize] at h0
        exact absurd h0 (by decide)

theorem expand_into_enough (hO : Sane O) {turns : Nat} (hturns : src.length + EINK_FRAME_FILE_SIZE < turns)
    (d : Disk Path) : ∃ r, (expand_into O src dst_path turns d).1 = some r := by
  unfold expand_into
  cases hcreate : O.create with
  | none => exact ⟨_, rfl⟩
  | some dctx =>
    obtain ⟨r, hr⟩ : ∃ r, (pump O src dst_path turns (.start dctx) d).1 = some r :=
      pump_enough hO turns (inv_start dctx) (Nat.zero_le src.length) hturns d
    dsimp only
    rw [bind_app, hr]
    obtain ⟨ret | ⟨⟩, p⟩ := r
    · exact ⟨_, rfl⟩
    · dsimp only
      rw [bind_app]
      split
      · exact ⟨_, rfl⟩
      · exact ⟨_, rfl⟩

theorem expand_into_mono {turns : Nat} {r : Expanded} {d' : Disk Path}
    (h : expand_into O src dst_path turns d = (some r, d')) (more : Nat) :
    expand_into O src dst_path (turns + more) d = (some r, d') := by
  unfold expand_into at h ⊢
  cases hcreate : O.create with
  | none => rwa [hcreate] at h
  | some dctx =>
    rw [hcreate] at h
    dsimp only at h ⊢
    rw [bind_app] at h ⊢
    rcases hpump : pump O src dst_path turns (.start dctx) d with ⟨_ | res, d1⟩
    · rw [hpump] at h
      cases h
    · rw [hpump] at h
      rw [pump_mono hpump more]
      exact h

end

section
variable {O : Lz4F σ} (malloc : Nat → Bool) (src_path dst_path : Path) {d : Disk Path}

theorem touches_pump_turn {W : Path → Prop} (hd : W dst_path) (src : Bytes) (p : Pump σ) :
    Keeps (Touches W) (pump_turn O src dst_path p) := by
  have hwrite (off : Nat) (out : Bytes) : Keeps (Touches W) (write_out dst_path off out) :=
    keeps_ite (touches_fs_write hd off out) (keeps_pure _)
  unfold pump_turn
  rcases O.decompress p.dctx (src.drop p.src_off) EINK_LZ4_IO_CHUNK with ⟨call, dctx⟩
  refine keeps_ite (keeps_pure _) (keeps_ite (keeps_pure _) (keeps_bind (hwrite _ _) fun nw => ?_))
  exact keeps_ite (keeps_pure _) (keeps_ite (keeps_pure _) (keeps_ite (keeps_pure _) (keeps_pure _)))

theorem touches_pump {W : Path → Prop} (hd : W dst_path) (src : Bytes) (turns : Nat) (p : Pump σ) :
    Keeps (Touches W) (pump O src dst_path turns p) := by
  induction turns generalizing p with
  | zero => exact keeps_pure _
  | succ turns ih =>
    refine keeps_ite (keeps_bind (touches_pump_turn dst_path hd src p) ?_) (keeps_pure _)
    rintro (⟨ret, p'⟩ | p' | p')
    · exact keeps_pure _
    · exact keeps_pure _
    · exact ih p'

theorem touches_into {W : Path → Prop} (hd : W dst_path) (src : Bytes) (turns : Nat) :
    Keeps (Touches W) (expand_into O src dst_path turns) := by
  unfold expand_into
  cases O.create with
  | none => exact keeps_pure _
  | some dctx =>
    refine keeps_bind (touches_pump dst_path hd src turns _) ?_
    rintro (_ | ⟨ret | ⟨⟩, p⟩)
    · exact keeps_pure _
    · exact keeps_pure _
    · exact keeps_bind touches_fs_sync fun ret => keeps_ite (keeps_pure _) (keeps_pure _)

/-- A run with a result was refused before the destination was open, or is one from there on. -/
theorem decompress_cases {turns : Nat} {r : Expanded} {d' : Disk Path}
    (h : eink_lz4_decompress_file O dst_path malloc src_path turns d = (some r, d')) :
    (∃ e, e < 0 ∧ r = ⟨e, false, [], []⟩) ∨
      ∃ src d₃, (read_all ⟨malloc, fun _ => none⟩ src_path d).1 = .ok src ∧
        ¬ (fs_open dst_path true true (read_all ⟨malloc, fun _ => none⟩ src_path d).2).1 < 0 ∧
        expand_into O src dst_path turns
          (fs_open dst_path true true (read_all ⟨malloc, fun _ => none⟩ src_path d).2).2 = (some r, d₃) ∧
        d' = if r.ret < 0 then (fs_unlink dst_path d₃).2 else d₃ := by
  have hneg := negErr_read_all ⟨malloc, fun _ => none⟩ src_path d
  unfold eink_lz4_decompress_file at h
  rw [bind_app] at h
  cases hread : (read_all ⟨malloc, fun _ => none⟩ src_path d).1 with
  | error e =>
    rw [hread] at h hneg
    cases h
    exact .inl ⟨e, hneg, rfl⟩
  | ok src =>
    rw [hread] at h
    dsimp only at h
    rw [bind_app] at h
    by_cases hopen : (fs_open dst_path true true (read_all ⟨malloc, fun _ => none⟩ src_path d).2).1 < 0
    · rw [if_pos hopen] at h
      cases h
      exact .inl ⟨_, hopen, rfl⟩
    · rw [if_neg hopen, bind_app] at h
      rcases hexpand : expand_into O src dst_path turns
        (fs_open dst_path true true (read_all ⟨malloc, fun _ => none⟩ src_path d).2).2 with ⟨_ | r', d₃⟩
      · rw [hexpand] at h
        cases h
      · rw [hexpand] at h
        dsimp only at h
        by_cases hneg : r'.ret < 0
        · rw [if_pos hneg] at h
          cases h
          exact .inr ⟨src, _, rfl, hopen, hexpand, (if_pos hneg).symm⟩
        · rw [if_neg hneg] at h
          cases h
          exact .inr ⟨src, _, rfl, hopen, hexpand, (if_neg hneg).symm⟩

theorem expand_post (hunlink : d.Deletes) {turns : Nat} {r : Expanded} {d' : Disk Path}
    (h : eink_lz4_decompress_file O dst_path malloc src_path turns d = (some r, d')) : ExpandPost dst_path r d' := by
  have hread := (touches_read_all (W := fun _ => True) ⟨malloc, fun _ => none⟩ src_path d).deletes hunlink
  rcases decompress_cases malloc src_path dst_path h with ⟨e, he, rfl⟩ | ⟨src, d₃, -, hopen, hexpand, hd'⟩
  · exact ⟨Nat.zero_le _, Int.le_of_lt he, fun h0 => absurd h0 (Int.ne_of_lt he), fun _ hopened => (nomatch hopened)⟩
  · generalize (read_all ⟨malloc, fun _ => none⟩ src_path d).2 = d₁ at hread hopen hexpand
    have hopened := (touches_fs_open (W := fun _ => True) (p := dst_path) trivial true true d₁).deletes hread
    have hinto := (touches_into (W := fun _ => True) (O := O) dst_path trivial src turns _).deletes hopened
    obtain ⟨hbounded, hnonpos, hwhole⟩ := expand_into_post turns (fs_open_trunc hopen) hexpand
    rw [hexpand] at hinto
    rw [hd']
    refine ⟨hbounded, hnonpos, fun h0 => ?_, fun hneg _ => ?_⟩
    · rw [if_neg (by omega)]
      exact hwhole h0
    · rw [if_pos hneg, fs_unlink_files, if_pos (hinto.err dst_path)]

/-- With as many turns as there can be bytes on both sides there is a result, and more turns do not change it. -/
theorem expand_enough (hO : Sane O) (d : Disk Path) :
    ∃ r d', ∀ more, eink_lz4_decompress_file O dst_path malloc src_path
      (EINK_LZ4_COMPRESSED_MAX + EINK_FRAME_FILE_SIZE + 1 + more) d = (some r, d') := by
  unfold eink_lz4_decompress_file
  rcases hread : read_all ⟨malloc, fun _ => none⟩ src_path d with ⟨e | src, d1⟩
  · exact ⟨_, _, fun more => by rw [bind_app, hread]; rfl⟩
  by_cases hopen : (fs_open dst_path true true d1).1 < 0
  · exact ⟨_, _, fun more => by rw [bind_app, hread]; dsimp only; rw [bind_app, if_pos hopen]; rfl⟩
  · have hsize := (read_all_ok (congrArg Prod.fst hread)).2.2
    obtain ⟨r, hr⟩ : ∃ r, (expand_into O src dst_path (EINK_LZ4_COMPRESSED_MAX + EINK_FRAME_FILE_SIZE + 1)
        (fs_open dst_path true true d1).2).1 = some r := expand_into_enough hO (by omega) _
    generalize hd2 : (fs_open dst_path true true d1).2 = d2 at hr
    rcases hexpand : expand_into O src dst_path (EINK_LZ4_COMPRESSED_MAX + EINK_FRAME_FILE_SIZE + 1) d2 with ⟨r', d3⟩
    rw [hexpand] at hr
    dsimp only at hr
    subst hr
    have hmore := expand_into_mono hexpand
    refine ⟨r, if r.ret < 0 then (fs_unlink dst_path d3).2 else d3, fun more => ?_⟩
    rw [bind_app, hread]
    dsimp only
    rw [bind_app, if_neg hopen, hd2, bind_app, hmore more]
    dsimp only
    split
    · rfl
    · rfl

/-- The expansion ends, writes no more than a frame, and leaves a whole frame or nothing. -/
theorem expansion_bounded (hO : Sane O) (hunlink : ∀ p, ∀ o ∈ d.faults .fs_unlink p, o.err = none) :
    ∃ r d', (∀ more, eink_lz4_decompress_file O dst_path malloc src_path
      (EINK_LZ4_COMPRESSED_MAX + EINK_FRAME_FILE_SIZE + 1 + more) d = (some r, d')) ∧ ExpandPost dst_path r d' := by
  obtain ⟨r, d', h⟩ := expand_enough malloc src_path dst_path hO d
  exact ⟨r, d', h, expand_post malloc src_path dst_path hunlink (h 0)⟩

end

/-- The library on one stored block: behind the headers of the frame and the block it copies. -/
def copying : Lz4F Bool where
  create := some false
  decompress headed input cap :=
    let skipped := if headed then 0 else min 11 input.length
    let out := (input.drop skipped).take cap
    (⟨skipped + out.length, out, .more⟩, true)

/-- The two headers, of a frame without checksums and of a stored block of 960032 bytes. -/
def storedHead : Bytes := [0x04, 0x22, 0x4D, 0x18, 0x60, 0x70, 0x73, 0x20, 0xA6, 0x0E, 0x80]

theorem sane_copying : Sane copying where
  consumed_le headed input cap := by
    rw [copying]
    dsimp only
    rw [List.length_take, List.length_drop]
    split
    · omega
    · omega
  out_le headed input cap := List.length_take_le _ _
  progress headed input cap hne hcap _ := by
    have hlen := List.length_pos_iff.2 hne
    left
    rw [copying]
    dsimp only
    rw [List.length_take, List.length_drop]
    split
    · omega
    · omega

/-- On a file that was cut off in its block: the first turn copies what is there, and the second finds nothing more. -/
theorem expansion_bounded_copying :
    ∃ r d', (∀ more, eink_lz4_decompress_file copying (ascii "d") (fun _ => true) (ascii "s")
      (EINK_LZ4_COMPRESSED_MAX + EINK_FRAME_FILE_SIZE + 1 + more)
      (.calm fun p => if p = ascii "s" then some (storedHead ++ [1, 2, 3]) else none) = (some r, d')) ∧
      ExpandPost (ascii "d") r d' ∧ r.ret = -EIOERR ∧ r.answers.length = 2 ∧ r.handed = [1, 2, 3] ∧
      d'.files (ascii "d") = none := by
  have hcalm (p : Path) : ∀ o ∈ (Disk.calm fun p : Path =>
      if p = ascii "s" then some (storedHead ++ [1, 2, 3]) else none).faults .fs_unlink p, o.err = none :=
    fun _ ho => (nomatch ho)
  obtain ⟨r, d', hrun, hpost⟩ := expansion_bounded (fun _ => true) (ascii "s") (ascii "d") sane_copying hcalm
  have hresult : (eink_lz4_decompress_file copying (ascii "d") (fun _ => true) (ascii "s")
      (EINK_LZ4_COMPRESSED_MAX + EINK_FRAME_FILE_SIZE + 1 + 0)
      (.calm fun p => if p = ascii "s" then some (storedHead ++ [1, 2, 3]) else none)).1.map
        (fun r => (r.ret, r.opened, r.answers.length, r.handed)) = some (-EIOERR, true, 2, [1, 2, 3]) := by
    decide +kernel
  rw [hrun 0] at hresult
  simp only [Option.map_some, Option.some.injEq, Prod.mk.injEq] at hresult
  obtain ⟨hret, hopened, hanswers, hhanded⟩ := hresult
  exact ⟨r, d', hrun, hpost, hret, hanswers, hhanded, hpost.cleaned (hret ▸ by decide) hopened⟩

/-! ## The loop over the calls of a run -/

section
variable {O : Lz4F σ} {src : Bytes} {dst_path : Path} {p : Pump σ} {d : Disk Path}

/-- A turn on the list of calls is one on the machine that gives the first of them. -/
theorem expand_loop_turn (hopen : p.Open src) (rest : List Lz4Call) :
    expand_loop dst_path src.length p.src_off p.total_out (p.call O src :: rest) d =
      match (pump_turn O src dst_path p d).1 with
      | .out ret _ => (.error ret, (pump_turn O src dst_path p d).2)
      | .stop p' => (.ok p'.total_out, (pump_turn O src dst_path p d).2)
      | .go p' =>
        expand_loop dst_path src.length p'.src_off p'.total_out rest (pump_turn O src dst_path p d).2 := by
  rcases hr : O.decompress p.dctx (src.drop p.src_off) EINK_LZ4_IO_CHUNK with ⟨call, dctx⟩
  have hcall : p.call O src = call := by rw [Pump.call, hr]
  have hopen' : p.src_off < src.length ∨ p.total_out < EINK_FRAME_FILE_SIZE := hopen
  rw [hcall, expand_loop, if_pos hopen', pump_turn, hr]
  dsimp only
  by_cases herr : call.lret = .error
  · rw [if_pos herr, if_pos herr]
    rfl
  rw [if_neg herr, if_neg herr]
  by_cases hbig : call.out ≠ [] ∧ p.total_out + call.out.length > EINK_FRAME_FILE_SIZE
  · rw [if_pos hbig, if_pos hbig]
    rfl
  rw [if_neg hbig, if_neg hbig, bind_app, bind_app]
  by_cases hnw : (write_out dst_path p.total_out call.out d).1 = call.out.length
  · rw [if_neg (not_not.2 hnw), if_neg (not_not.2 hnw)]
    by_cases hdone : call.lret = .done
    · rw [if_pos hdone, if_pos hdone]
      rfl
    · rw [if_neg hdone, if_neg hdone]
      -- Where nothing was consumed the offset is the same before and after.
      by_cases hstuck : call.consumed = 0 ∧ call.out = [] ∧ p.src_off ≥ src.length
      · rw [if_pos hstuck, if_pos ⟨hstuck.1, hstuck.2.1, Nat.le_add_right_of_le hstuck.2.2⟩]
        rfl
      · rw [if_neg hstuck, if_neg fun h => hstuck ⟨h.1, h.2.1, by rw [h.1] at h; exact h.2.2⟩]
        rfl
  · rw [if_pos hnw, if_pos hnw]
    rfl

/-- The answers of a run, as a list of calls, make the same run. -/
theorem expand_loop_of_pump {turns : Nat} {res : Except Int Unit} {p' : Pump σ} {d' : Disk Path}
    (h : pump O src dst_path turns p d = (some (res, p'), d')) :
    ∃ calls, p'.answers = p.answers ++ calls ∧
      expand_loop dst_path src.length p.src_off p.total_out calls d = (res.map fun _ => p'.total_out, d') := by
  induction turns generalizing p d with
  | zero => cases h
  | succ turns ih =>
    rw [pump] at h
    by_cases hopen : p.Open src
    · rw [if_pos hopen, bind_app] at h
      have hturn (rest : List Lz4Call) := @expand_loop_turn σ O src dst_path p d hopen rest
      rcases pump_turn_cases O src dst_path p d with ⟨ret, p1, hout, -, -, hanswers, -⟩ | ⟨-, -, -, -, hend⟩
      · rw [hout] at h
        cases h
        refine ⟨[p.call O src], hanswers, ?_⟩
        rw [hturn, hout]
        rfl
      · rcases hend with ⟨-, hstop⟩ | ⟨-, -, hgo⟩
        · rw [hstop] at h
          cases h
          refine ⟨[p.call O src], rfl, ?_⟩
          rw [hturn, hstop]
          rfl
        · rw [hgo] at h
          obtain ⟨calls, hcalls, hloop⟩ := ih h
          refine ⟨p.call O src :: calls, ?_, ?_⟩
          · rw [hcalls, Pump.next, List.append_assoc]
            rfl
          · rw [hturn, hgo]
            exact hloop
    · rw [if_neg hopen] at h
      cases h
      refine ⟨[], (List.append_nil _).symm, ?_⟩
      have hclosed : ¬ (p'.src_off < src.length ∨ p'.total_out < EINK_FRAME_FILE_SIZE) := hopen
      rw [expand_loop, if_neg hclosed]
      rfl

theorem expand_into_of_pump (malloc : Nat → Bool) {turns : Nat} {r : Expanded} {d' : Disk Path}
    (h : expand_into O src dst_path turns d = (some r, d')) :
    Store.expand_into ⟨malloc, fun _ => O.create.map fun _ => r.answers⟩ src dst_path d = (r.ret, d') := by
  unfold Store.expand_into
  rcases expand_into_cases h with ⟨hcreate, rfl, rfl⟩ | ⟨dctx, p, d1, hcreate, hres⟩
  · rw [hcreate]
    rfl
  · rw [hcreate]
    dsimp only [Option.map_some]
    rw [bind_app]
    rcases hres with ⟨ret, hpump, rfl, rfl⟩ | ⟨hpump, rfl, rfl⟩
    · obtain ⟨calls, hcalls, hloop⟩ := expand_loop_of_pump hpump
      have hanswers : p.answers = calls := hcalls
      have hloop : expand_loop dst_path src.length 0 0 calls d = (.error ret, d') := hloop
      dsimp only
      rw [hanswers, hloop]
      rfl
    · obtain ⟨calls, hcalls, hloop⟩ := expand_loop_of_pump hpump
      have hanswers : p.answers = calls := hcalls
      have hloop : expand_loop dst_path src.length 0 0 calls d = (.ok p.total_out, d1) := hloop
      dsimp only
      rw [hanswers, hloop]
      dsimp only
      rw [bind_app]
      split
      · rfl
      · rfl

/-- A run with a result is the expansion over its answers. -/
theorem refines_store {malloc : Nat → Bool} {src_path : Path} {turns : Nat} {r : Expanded} {d' : Disk Path}
    (h : eink_lz4_decompress_file O dst_path malloc src_path turns d = (some r, d')) :
    Store.eink_lz4_decompress_file ⟨malloc, fun _ => O.create.map fun _ => r.answers⟩ src_path dst_path d =
      (r.ret, d') := by
  unfold eink_lz4_decompress_file at h
  unfold Store.eink_lz4_decompress_file
  have hread : read_all ⟨malloc, fun _ => O.create.map fun _ => r.answers⟩ src_path d =
      read_all ⟨malloc, fun _ => none⟩ src_path d := rfl
  rw [bind_app] at h ⊢
  rw [hread]
  generalize read_all ⟨malloc, fun _ => none⟩ src_path d = res at h ⊢
  obtain ⟨e | src, d1⟩ := res
  · cases h
    rfl
  dsimp only at h ⊢
  rw [bind_app] at h ⊢
  by_cases hopen : (fs_open dst_path true true d1).1 < 0
  · rw [if_pos hopen] at h ⊢
    cases h
    rfl
  rw [if_neg hopen, bind_app] at h ⊢
  generalize (fs_open dst_path true true d1).2 = d2 at h ⊢
  rcases hexpand : expand_into O src dst_path turns d2 with ⟨_ | r', d3⟩
  · rw [hexpand] at h
    cases h
  rw [hexpand] at h
  dsimp only at h
  have hinto := expand_into_of_pump malloc hexpand
  by_cases hneg : r'.ret < 0
  · rw [if_pos hneg] at h
    cases h
    rw [hinto]
    dsimp only
    rw [if_pos hneg]
    rfl
  · rw [if_neg hneg] at h
    cases h
    rw [hinto]
    dsimp only
    rw [if_neg hneg]
    rfl

end

end EinkNode.Lz4
