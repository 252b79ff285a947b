import EinkNode.Store.Pump
/-!
# The end of the frame

The loop of the expander also ends when the source is used up and the output
has its size. Then nobody has seen the end mark, and a frame that was cut off
behind its last block is taken for a whole one.
-/
open NodeLib EinkNode.Store

namespace EinkNode.Lz4

variable {σ : Type}

/-! ## The library and a source -/

def consumed : List Lz4Call → Nat
  | [] => 0
  | call :: calls => call.consumed + consumed calls

def produced (calls : List Lz4Call) : Bytes := (calls.map Lz4Call.out).flatten

@[simp]
theorem consumed_concat (calls : List Lz4Call) (call : Lz4Call) :
    consumed (calls ++ [call]) = consumed calls + call.consumed := by
  induction calls with
  | nil => simp [consumed]
  | cons _ calls ih =>
    rw [List.cons_append, consumed, consumed, ih]
    omega

@[simp]
theorem produced_concat (calls : List Lz4Call) (call : Lz4Call) :
    produced (calls ++ [call]) = produced calls ++ call.out := by
  simp [produced]

/-- The context and the answers of a library that is called on, each time with what is left of the source, and
always wants more. Once the source is used up it still has output in every call. -/
inductive Hints (O : Lz4F σ) (src : Bytes) : σ → List Lz4Call → Prop
  | start {dctx : σ} (hcreate : O.create = some dctx) : Hints O src dctx []
  | more {dctx dctx' : σ} {calls : List Lz4Call} {call : Lz4Call} (h : Hints O src dctx calls)
      (hcall : O.decompress dctx (src.drop (consumed calls)) EINK_LZ4_IO_CHUNK = (call, dctx'))
      (hmore : call.lret = .more)
      (hout : call.consumed = 0 → call.out = [] → consumed calls < src.length) : Hints O src dctx' (calls ++ [call])

/-- The source is used up and the output has its size while the library wants more. -/
def EndsOpen (O : Lz4F σ) (src : Bytes) : Prop :=
  0 < src.length ∧ src.length ≤ EINK_LZ4_COMPRESSED_MAX ∧ ∃ dctx calls, Hints O src dctx calls ∧
    src.length ≤ consumed calls ∧ (produced calls).length = EINK_FRAME_FILE_SIZE

/-- The library has told of the end of the frame, and its output is a frame of the panel. -/
def Complete (r : Expanded) : Prop :=
  (∃ call, r.answers.getLast? = some call ∧ call.lret = .done) ∧ (produced r.answers).length = EINK_FRAME_FILE_SIZE

/-- The expansion of a file with these bytes succeeds on a complete frame only, whatever the heap and the disk do. -/
def ExpandsComplete (O : Lz4F σ) (src : Bytes) : Prop :=
  ∀ (malloc : Nat → Bool) (src_path dst_path : Path) (turns : Nat) (d d' : Disk Path) (r : Expanded),
    d.files src_path = some src → eink_lz4_decompress_file O dst_path malloc src_path turns d = (some r, d') →
    r.ret = 0 → Complete r

theorem Hints.lret {O : Lz4F σ} {src : Bytes} {dctx : σ} {calls : List Lz4Call} (h : Hints O src dctx calls) :
    ∀ call ∈ calls, call.lret = .more := by
  induction h with
  | start _ => exact fun _ hmem => (nomatch hmem)
  | more _ _ hmore _ ih =>
    intro call hmem
    rcases List.mem_append.1 hmem with hmem | hmem
    · exact ih call hmem
    · obtain rfl := List.mem_singleton.1 hmem
      exact hmore

section
variable {O : Lz4F σ} {src : Bytes} {dst_path : Path} {p : Pump σ} {d : Disk Path}

/-! ## Where the loop ends -/

/-- The loop has had hints only, and its variables are those of the answers. -/
structure Pump.Hinted (O : Lz4F σ) (src : Bytes) (p : Pump σ) : Prop where
  hints : Hints O src p.dctx p.answers
  off : p.src_off = consumed p.answers
  inv : p.Inv

theorem hinted_start {dctx : σ} (hcreate : O.create = some dctx) : (Pump.start dctx).Hinted O src :=
  ⟨.start hcreate, rfl, inv_start dctx⟩

theorem Pump.Hinted.next (hp : p.Hinted O src) (hmore : (p.call O src).lret = .more) (hroom : p.HasRoom O src)
    (hstuck : ¬ p.Stuck O src) : (p.next O src).Hinted O src := by
  refine ⟨hp.hints.more ?_ hmore fun hcons hout => ?_, ?_, hp.inv.next hroom⟩
  · rw [← hp.off]
    rfl
  · by_contra hleft
    rw [← hp.off] at hleft
    exact hstuck ⟨hcons, hout, Nat.le_add_right_of_le (not_lt.1 hleft)⟩
  · rw [Pump.next, consumed_concat, hp.off]

/-- The loop ends with an error, with the frame, or after hints only. -/
def PumpEnd (O : Lz4F σ) (src : Bytes) : Option (Except Int Unit × Pump σ) → Prop
  | none => True
  | some (.error ret, _) => ret < 0
  | some (.ok (), p) => (∃ call, p.answers.getLast? = some call ∧ call.lret = .done) ∨ p.Hinted O src ∧ ¬ p.Open src

theorem pump_end (turns : Nat) (hp : p.Hinted O src) (d : Disk Path) :
    PumpEnd O src (pump O src dst_path turns p d).1 := by
  induction turns generalizing p d with
  | zero => trivial
  | succ turns ih =>
    rw [pump]
    by_cases hopen : p.Open src
    · rw [if_pos hopen, bind_app]
      rcases pump_turn_cases O src dst_path p d with ⟨ret, p1, hout, hneg, -⟩ | ⟨-, hroom, -, -, hend⟩
      · rw [hout]
        exact hneg
      · rcases hend with ⟨hdone, hstop⟩ | ⟨hmore, hstuck, hgo⟩
        · rw [hstop]
          exact .inl ⟨p.call O src, List.getLast?_concat, hdone⟩
        · rw [hgo]
          exact ih (hp.next hmore hroom hstuck) _
    · rw [if_neg hopen]
      exact .inr ⟨hp, hopen⟩

/-- Without an error the frame has ended, or there were only hints until the source was used up. -/
theorem expand_into_end {turns : Nat} {r : Expanded} {d' : Disk Path}
    (h : expand_into O src dst_path turns d = (some r, d')) (h0 : r.ret = 0) :
    (∃ call, r.answers.getLast? = some call ∧ call.lret = .done) ∨
      ∃ dctx, Hints O src dctx r.answers ∧ src.length ≤ consumed r.answers := by
  rcases expand_into_cases h with ⟨-, rfl, -⟩ | ⟨dctx, p, d1, hcreate, hres⟩
  · exact absurd h0 (by decide)
  have hend : PumpEnd O src (pump O src dst_path turns (.start dctx) d).1 := pump_end turns (hinted_start hcreate) d
  rcases hres with ⟨ret, hpump, rfl, -⟩ | ⟨hpump, -, rfl⟩
  · rw [hpump] at hend
    exact absurd h0 (Int.ne_of_lt hend)
  · rw [hpump] at hend
    rcases hend with hdone | ⟨hp, hopen⟩
    · exact .inl hdone
    · rw [Pump.Open, not_or, not_lt] at hopen
      refine .inr ⟨p.dctx, hp.hints, ?_⟩
      rw [← hp.off]
      exact hopen.1

/-- A return of 0 comes from a complete frame, or from a library that wants more of a source that is used up. -/
theorem complete_or_open {malloc : Nat → Bool} {src_path : Path} {turns : Nat} {r : Expanded} {d' : Disk Path}
    (hsrc : d.files src_path = some src)
    (h : eink_lz4_decompress_file O dst_path malloc src_path turns d = (some r, d')) (h0 : r.ret = 0) :
    Complete r ∨ EndsOpen O src := by
  rcases decompress_cases malloc src_path dst_path h with ⟨e, he, rfl⟩ | ⟨src', d₃, hread, hopen, hexpand, -⟩
  · exact absurd h0 (Int.ne_of_lt he)
  obtain ⟨hsrc', hpos, hmax⟩ := read_all_ok hread
  obtain rfl : src' = src := Option.some.inj (hsrc'.symm.trans hsrc)
  obtain ⟨-, hsize, hproduced⟩ := (expand_into_post turns (fs_open_trunc hopen) hexpand).2.2 h0
  rw [hproduced] at hsize
  rcases expand_into_end hexpand h0 with hdone | ⟨dctx, hhints, hused⟩
  · exact .inl ⟨hdone, hsize⟩
  · exact .inr ⟨hpos, hmax, dctx, r.answers, hhints, hused, hsize⟩

/-! ## A run on hints -/

theorem write_out_calm (dst_path : Path) (off : Nat) (out : Bytes) (files : Path → Option Bytes) :
    ∃ files', write_out dst_path off out (.calm files) = ((out.length : Int), .calm files') := by
  unfold write_out
  by_cases hout : out = []
  · rw [if_neg (not_not.2 hout), hout]
    exact ⟨files, rfl⟩
  · rw [if_pos hout, fs_write_calm]
    exact ⟨_, rfl⟩

theorem pump_turn_more (dst_path : Path) (hmore : (p.call O src).lret = .more) (hroom : p.HasRoom O src)
    (hstuck : ¬ p.Stuck O src) (files : Path → Option Bytes) :
    ∃ files', pump_turn O src dst_path p (.calm files) = (.go (p.next O src), .calm files') := by
  obtain ⟨files', hwrite⟩ := write_out_calm dst_path p.total_out (p.call O src).out files
  rcases pump_turn_cases O src dst_path p (.calm files) with ⟨-, -, -, -, -, -, hwhy⟩ | ⟨-, -, -, hdisk, hend⟩
  · rcases hwhy with herr | hfull | hshort | hstuck'
    · exact absurd (herr.symm.trans hmore) (by decide)
    · exact absurd hroom hfull
    · exact absurd (congrArg Prod.fst hwrite) hshort
    · exact absurd hstuck' hstuck
  · rcases hend with ⟨hdone, -⟩ | ⟨-, -, hgo⟩
    · exact absurd (hdone.symm.trans hmore) (by decide)
    · rw [hwrite] at hdisk
      exact ⟨files', Prod.ext hgo hdisk⟩

/-- The loop goes along with the hints, and stops before their end only where it has all of the output. -/
theorem pump_hints {dctx₀ dctx : σ} {calls : List Lz4Call} (hcreate : O.create = some dctx₀)
    (h : Hints O src dctx calls) (hsize : (produced calls).length ≤ EINK_FRAME_FILE_SIZE) (dst_path : Path)
    (files : Path → Option Bytes) :
    ∃ p turns files', p.Hinted O src ∧ (p.dctx = dctx ∧ p.answers = calls ∨ ¬ p.Open src) ∧
      ∀ more, pump O src dst_path (turns + more) (.start dctx₀) (.calm files) =
        pump O src dst_path more p (.calm files') := by
  induction h with
  | start hcreate' =>
    obtain rfl := Option.some.inj (hcreate.symm.trans hcreate')
    refine ⟨.start dctx₀, 0, files, hinted_start hcreate, .inl ⟨rfl, rfl⟩, fun more => ?_⟩
    rw [Nat.zero_add]
  | @more dctx dctx' calls call _ hcall hmore hout ih =>
    rw [produced_concat, List.length_append] at hsize
    obtain ⟨p, turns, files', hp, hend, hrun⟩ := ih (by omega)
    by_cases hopen : p.Open src
    · obtain ⟨rfl, rfl⟩ := hend.resolve_right (not_not.2 hopen)
      rw [← hp.off] at hcall hout
      have hcall' : p.call O src = call := congrArg Prod.fst hcall
      have hctx : (p.next O src).dctx = dctx' := congrArg Prod.snd hcall
      rw [← hcall'] at hmore hout hsize
      have hroom : p.HasRoom O src := by
        intro _
        rw [hp.inv.total, hp.inv.handed]
        exact hsize
      have hstuck : ¬ p.Stuck O src := by
        rintro ⟨hcons, hnil, hused⟩
        have hleft := hout hcons hnil
        have hused : src.length ≤ p.src_off + (p.call O src).consumed := hused
        omega
      obtain ⟨files'', hturn⟩ := pump_turn_more dst_path hmore hroom hstuck files'
      refine ⟨p.next O src, turns + 1, files'', hp.next hmore hroom hstuck, .inl ⟨hctx, ?_⟩, fun more => ?_⟩
      · rw [← hcall']
        rfl
      · rw [Nat.add_assoc, hrun, Nat.add_comm 1 more, pump, if_pos hopen, bind_app, hturn]
    · exact ⟨p, turns, files', hp, .inr hopen, hrun⟩

/-- Where nothing fails, the hints are enough for a success. -/
theorem succeeds_of_endsOpen (h : EndsOpen O src) (src_path dst_path : Path) :
    ∃ turns r d', eink_lz4_decompress_file O dst_path (fun _ => true) src_path turns
      (.calm fun q => if q = src_path then some src else none) = (some r, d') ∧ r.ret = 0 ∧
      ∀ call ∈ r.answers, call.lret = .more := by
  obtain ⟨hpos, hmax, dctx, calls, hhints, hused, hsize⟩ := h
  obtain ⟨dctx₀, hcreate⟩ : ∃ dctx₀, O.create = some dctx₀ := by
    clear hused hsize
    induction hhints with
    | start hcreate => exact ⟨_, hcreate⟩
    | more _ _ _ _ ih => exact ih
  have hread := @read_all_calm (fun q => if q = src_path then some src else none) src_path src
    ⟨fun _ => true, fun _ => none⟩ (if_pos rfl) (List.length_pos_iff.1 hpos) hmax rfl
  obtain ⟨p, turns, files', hp, hend, hrun⟩ := pump_hints hcreate hhints (Nat.le_of_eq hsize) dst_path
    (fun q => if q = dst_path then some [] else if q = src_path then some src else none)
  have hclosed : ¬ p.Open src := by
    rcases hend with ⟨-, rfl⟩ | hclosed
    · have htotal : p.total_out = EINK_FRAME_FILE_SIZE := by
        rw [hp.inv.total, hp.inv.handed]
        exact hsize
      rw [Pump.Open, hp.off, htotal]
      omega
    · exact hclosed
  have htotal : p.total_out = EINK_FRAME_FILE_SIZE := by
    have := hp.inv.room
    rw [Pump.Open] at hclosed
    omega
  have hstop : pump O src dst_path 1 p (.calm files') = (some (.ok (), p), .calm files') := by
    rw [pump, if_neg hclosed]
    rfl
  have hpump := (hrun 1).trans hstop
  refine ⟨turns + 1, ⟨0, true, p.answers, p.handed⟩, .calm files', ?_, rfl, hp.hints.lret⟩
  unfold eink_lz4_decompress_file
  rw [bind_app, hread]
  dsimp only
  rw [bind_app, fs_open_calm]
  dsimp only
  rw [if_neg (Int.lt_irrefl 0), bind_app]
  have hinto : expand_into O src dst_path (turns + 1)
      (.calm fun q => if q = dst_path then some [] else if q = src_path then some src else none) =
      (some ⟨0, true, p.answers, p.handed⟩, .calm files') := by
    unfold expand_into
    rw [hcreate]
    dsimp only
    rw [bind_app, hpump]
    dsimp only [pure_app]
    rw [bind_app, fs_sync_calm]
    dsimp only
    rw [if_neg (Int.lt_irrefl 0), if_neg (not_not.2 htotal)]
    rfl
  rw [hinto]
  rfl

theorem not_complete_of_endsOpen (h : EndsOpen O src) : ¬ ExpandsComplete O src := by
  intro hcomplete
  obtain ⟨turns, r, d', hrun, h0, hhints⟩ := succeeds_of_endsOpen h (ascii "s") (ascii "d")
  obtain ⟨⟨call, hlast, hdone⟩, -⟩ :=
    hcomplete (fun _ => true) (ascii "s") (ascii "d") turns _ d' r rfl hrun h0
  have hmore := hhints call (List.mem_of_getLast? hlast)
  exact absurd (hdone.symm.trans hmore) (by decide)

end

/-- The expansion takes complete frames only where the library, as long as it wants more, has not all of the output
out when the source is used up. -/
theorem expands_complete_iff (O : Lz4F σ) (src : Bytes) : ExpandsComplete O src ↔ ¬ EndsOpen O src := by
  constructor
  · intro hcomplete hopen
    exact not_complete_of_endsOpen hopen hcomplete
  · intro hopen malloc src_path dst_path turns d d' r hsrc hrun h0
    exact (complete_or_open hsrc hrun h0).resolve_right hopen

/-! ## A frame without its end mark -/

/-- A frame with one stored block that was cut off behind the block. -/
def cutFrame : Bytes := storedHead ++ List.replicate EINK_FRAME_FILE_SIZE 0

/-- One more call copies one more piece. -/
theorem copying_more {body : Bytes} {calls : List Lz4Call} (h : Hints copying (storedHead ++ body) true calls)
    (hcons : consumed calls = 11 + (produced calls).length) (hleft : (produced calls).length < body.length) :
    ∃ call, Hints copying (storedHead ++ body) true (calls ++ [call]) ∧
      consumed (calls ++ [call]) = 11 + (produced (calls ++ [call])).length ∧
      (produced calls).length < (produced (calls ++ [call])).length ∧
      (produced (calls ++ [call])).length ≤ body.length := by
  have hrest : (storedHead ++ body).drop (consumed calls) = body.drop (produced calls).length := by
    rw [hcons]
    exact @List.drop_length_add_append _ storedHead body _
  have hlen : ((body.drop (produced calls).length).take EINK_LZ4_IO_CHUNK).length =
      min EINK_LZ4_IO_CHUNK (body.length - (produced calls).length) := by
    rw [List.length_take, List.length_drop]
  have hchunk : EINK_LZ4_IO_CHUNK = 8192 := rfl
  refine ⟨⟨0 + ((body.drop (produced calls).length).take EINK_LZ4_IO_CHUNK).length,
    (body.drop (produced calls).length).take EINK_LZ4_IO_CHUNK, .more⟩, h.more ?_ rfl fun _ _ => ?_, ?_, ?_, ?_⟩
  · rw [hrest]
    rfl
  · rw [List.length_append, hcons, storedHead]
    simp only [List.length_cons, List.length_nil]
    omega
  · rw [consumed_concat, produced_concat, List.length_append, hcons]
    dsimp only
    omega
  · rw [produced_concat, List.length_append, hlen]
    omega
  · rw [produced_concat, List.length_append, hlen]
    omega

/-- The calls copy the whole block. -/
theorem copying_all {body : Bytes} {calls : List Lz4Call} (h : Hints copying (storedHead ++ body) true calls)
    (hcons : consumed calls = 11 + (produced calls).length) (hle : (produced calls).length ≤ body.length) :
    ∃ calls', Hints copying (storedHead ++ body) true calls' ∧ consumed calls' = 11 + body.length ∧
      (produced calls').length = body.length := by
  induction hn : body.length - (produced calls).length using Nat.strongRecOn generalizing calls with
  | ind n ih =>
    by_cases hleft : (produced calls).length < body.length
    · obtain ⟨call, hmore, hcons', hgrows, hle'⟩ := copying_more h hcons hleft
      exact ih _ (by omega) hmore hcons' hle' rfl
    · exact ⟨calls, h, by omega, by omega⟩

/-- The output of a block is complete whether or not the end mark follows. -/
theorem endsOpen_stored {body : Bytes} (hbody : body.length = EINK_FRAME_FILE_SIZE) :
    EndsOpen copying (storedHead ++ body) := by
  have hlen : (storedHead ++ body).length = 11 + EINK_FRAME_FILE_SIZE := by
    rw [List.length_append, hbody]
    rfl
  have hfirst : Hints copying (storedHead ++ body) true [⟨11 + (body.take EINK_LZ4_IO_CHUNK).length,
      body.take EINK_LZ4_IO_CHUNK, .more⟩] := by
    refine (Hints.start rfl).more rfl rfl fun hcons _ => ?_
    exact absurd hcons (by dsimp only; omega)
  have hproduced : produced [⟨11 + (body.take EINK_LZ4_IO_CHUNK).length, body.take EINK_LZ4_IO_CHUNK, .more⟩] =
      body.take EINK_LZ4_IO_CHUNK := List.flatten_singleton
  obtain ⟨calls, hhints, hcons, hproduced⟩ := copying_all hfirst (by rw [hproduced]; rfl)
    (by rw [hproduced]; exact List.length_take_le' _ _)
  refine ⟨?_, ?_, true, calls, hhints, ?_, ?_⟩
  · rw [hlen]
    decide
  · rw [hlen]
    decide
  · rw [hlen, hcons, hbody]
  · rw [hproduced, hbody]

/-- A file is taken for a frame of the panel though its end is missing. -/
theorem expands_open : ¬ ExpandsComplete copying cutFrame :=
  not_complete_of_endsOpen (endsOpen_stored List.length_replicate)

end EinkNode.Lz4
