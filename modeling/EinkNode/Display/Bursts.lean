import EinkNode.Display.Write
import EinkNode.Lib.Runs
/-!
# Bursts on the bus

Seen from the bus, every call of the driver is a list of bursts: chips are
selected, a command byte is clocked, maybe data with DC high, and the chips are
released, whatever failed in between. So a byte of a frame is only ever clocked
with the chip of its half selected.
-/
open NodeLib

namespace EinkNode.El133

/-! ## What is clocked -/

/-- A byte on the bus, with the two chip selects at that time; `data_of` is the
command that it is data of, or `none` for a command byte. -/
structure Seen where
  cs0 : Bool
  cs1 : Bool
  data_of : Option UInt8
  byte : UInt8
deriving DecidableEq

/-- The pins, the last command byte, and all that was clocked so far. -/
structure Bus where
  cs0 : Bool
  cs1 : Bool
  dc : Bool
  cmd : UInt8
  seen : List Seen

namespace Bus

def idle : Bus := ⟨false, false, false, 0, []⟩

def take (p : Bus) : Op → Bus
  | .cs0 level => { p with cs0 := level }
  | .cs1 level => { p with cs1 := level }
  | .dc level => { p with dc := level }
  | .spi bytes =>
    if p.dc then { p with seen := p.seen ++ bytes.map (⟨p.cs0, p.cs1, some p.cmd, ·⟩) }
    else { p with cmd := bytes.getLastD p.cmd, seen := p.seen ++ bytes.map (⟨p.cs0, p.cs1, none, ·⟩) }

/-- Both chip selects are inactive. -/
def Released (p : Bus) : Prop := p.cs0 = false ∧ p.cs1 = false

end Bus

def Driver.bus (d : Driver) : Bus := d.wire.foldl Bus.take .idle

/-- The bytes of frames that were clocked at these levels of the chip selects. -/
def frame_while (cs0 cs1 : Bool) (seen : List Seen) : Bytes :=
  seen.filterMap fun x => if x.cs0 = cs0 ∧ x.cs1 = cs1 ∧ x.data_of = some EL133_DTM then some x.byte else none

theorem frame_while_append (cs0 cs1 : Bool) (seen seen' : List Seen) :
    frame_while cs0 cs1 (seen ++ seen') = frame_while cs0 cs1 seen ++ frame_while cs0 cs1 seen' :=
  List.filterMap_append

theorem frame_while_data (cs0 cs1 l0 l1 : Bool) (op : UInt8) (bytes : Bytes) :
    frame_while cs0 cs1 (bytes.map (⟨l0, l1, some op, ·⟩)) =
      if l0 = cs0 ∧ l1 = cs1 ∧ op = EL133_DTM then bytes else [] := by
  unfold frame_while
  rw [List.filterMap_map]
  by_cases h : l0 = cs0 ∧ l1 = cs1 ∧ op = EL133_DTM
  · obtain ⟨rfl, rfl, rfl⟩ := h
    rw [if_pos ⟨rfl, rfl, rfl⟩]
    have hsome : ((fun x : Seen => if x.cs0 = l0 ∧ x.cs1 = l1 ∧ x.data_of = some EL133_DTM then some x.byte else none) ∘
        fun b => ⟨l0, l1, some EL133_DTM, b⟩) = some := by
      funext b
      exact if_pos ⟨rfl, rfl, rfl⟩
    rw [hsome, List.filterMap_some]
  · rw [if_neg h]
    refine List.filterMap_eq_nil_iff.2 fun b _ => if_neg fun hc => h ⟨hc.1, hc.2.1, Option.some.inj hc.2.2⟩

theorem frame_while_cmd (cs0 cs1 l0 l1 : Bool) (bytes : Bytes) :
    frame_while cs0 cs1 (bytes.map (⟨l0, l1, none, ·⟩)) = [] := by
  unfold frame_while
  rw [List.filterMap_map]
  exact List.filterMap_eq_nil_iff.2 fun b _ => if_neg fun hc => absurd hc.2.2 nofun

/-! ## Bursts -/

/-- What a burst puts on a released bus. -/
def Burst.seen : Burst → List Seen
  | bare which cmd => cmd.map (⟨which.has .c0, which.has .c1, none, ·⟩)
  | data which op pieces => [op].map (⟨which.has .c0, which.has .c1, none, ·⟩) ++
      pieces.flatten.map (⟨which.has .c0, which.has .c1, some op, ·⟩)

theorem bus_select (which : Cs) (level : Bool) (p : Bus) :
    (Burst.select which level).foldl Bus.take p =
      { p with cs0 := if which.has .c0 then level else p.cs0, cs1 := if which.has .c1 then level else p.cs1 } := by
  cases which <;> rfl

/-- Pieces of data, one behind the other. -/
theorem bus_pieces {p : Bus} (hdc : p.dc = true) (pieces : List Bytes) :
    (pieces.map Op.spi).foldl Bus.take p =
      { p with seen := p.seen ++ pieces.flatten.map (⟨p.cs0, p.cs1, some p.cmd, ·⟩) } := by
  induction pieces generalizing p with
  | nil => simp
  | cons piece pieces ih =>
    have hpiece : p.take (.spi piece) = { p with seen := p.seen ++ piece.map (⟨p.cs0, p.cs1, some p.cmd, ·⟩) } := by
      simp [Bus.take, hdc]
    rw [List.map_cons, List.foldl_cons, hpiece, ih (by exact hdc)]
    simp

/-- A burst leaves the bus as released as it was. -/
theorem bus_burst (b : Burst) {p : Bus} (h : p.Released) :
    (b.ops.foldl Bus.take p).Released ∧ (b.ops.foldl Bus.take p).seen = p.seen ++ b.seen := by
  obtain ⟨h0, h1⟩ := h
  have hcs (has level : Bool) (hl : level = false) : (if has then true else level) = has := by
    rw [hl]
    cases has <;> rfl
  have hoff (has : Bool) : (if has then false else has) = false := by cases has <;> rfl
  cases b with
  | bare which cmd =>
    simp only [Burst.ops, List.foldl_append, bus_select, List.foldl_cons, List.foldl_nil, Bus.take, hcs _ _ h0,
      hcs _ _ h1, hoff, Bool.false_eq_true, if_false]
    exact ⟨⟨rfl, rfl⟩, rfl⟩
  | data which op pieces =>
    simp only [Burst.ops, List.foldl_append, bus_select, List.foldl_cons, List.foldl_nil, Bus.take, hcs _ _ h0,
      hcs _ _ h1, Bool.false_eq_true, if_false]
    rw [bus_pieces rfl]
    simp only [hoff]
    exact ⟨⟨rfl, rfl⟩, by simp [Burst.seen]⟩

theorem bus_bursts (bs : List Burst) {p : Bus} (h : p.Released) :
    ((bs.flatMap Burst.ops).foldl Bus.take p).Released ∧
      ((bs.flatMap Burst.ops).foldl Bus.take p).seen = p.seen ++ bs.flatMap Burst.seen := by
  induction bs generalizing p with
  | nil => exact ⟨h, (List.append_nil _).symm⟩
  | cons b bs ih =>
    obtain ⟨h1, hseen⟩ := bus_burst b h
    obtain ⟨h2, hseen'⟩ := ih h1
    rw [List.flatMap_cons, List.foldl_append, List.flatMap_cons]
    exact ⟨h2, by rw [hseen', hseen, List.append_assoc]⟩

/-- The bytes of frames in a list of bursts that select `which`. -/
def sent_to (which : Cs) (bs : List Burst) : Bytes := bs.flatMap fun b => if b.which = which then b.frame else []

theorem frame_while_burst (cs0 cs1 : Bool) (b : Burst) :
    frame_while cs0 cs1 b.seen = if b.which.has .c0 = cs0 ∧ b.which.has .c1 = cs1 then b.frame else [] := by
  cases b with
  | bare which cmd => exact (frame_while_cmd _ _ _ _ cmd).trans (ite_self _).symm
  | data which op pieces =>
    simp only [Burst.seen, Burst.which, Burst.frame]
    rw [frame_while_append, frame_while_cmd, List.nil_append, frame_while_data]
    by_cases hop : op = EL133_DTM
    · simp [hop]
    · simp [hop]

/-- The levels of the chip selects say which bursts the bytes are from. -/
theorem frame_while_bursts (which : Cs) (bs : List Burst) :
    frame_while (which.has .c0) (which.has .c1) (bs.flatMap Burst.seen) = sent_to which bs := by
  have hhas (w : Cs) : (w.has .c0 = which.has .c0 ∧ w.has .c1 = which.has .c1) = (w = which) := by
    cases w <;> cases which <;> decide
  induction bs with
  | nil => rfl
  | cons b bs ih =>
    rw [List.flatMap_cons, frame_while_append, frame_while_burst, ih]
    simp only [hhas]
    rfl

/-- No burst leaves both chips unselected. -/
theorem frame_while_none (bs : List Burst) : frame_while false false (bs.flatMap Burst.seen) = [] := by
  induction bs with
  | nil => rfl
  | cons b bs ih =>
    have hsome : ¬ (b.which.has .c0 = false ∧ b.which.has .c1 = false) := by
      cases b.which <;> decide
    rw [List.flatMap_cons, frame_while_append, frame_while_burst, if_neg hsome, ih, List.append_nil]

/-! ## What a call emits -/

/-- The driver has put a list of bursts on the bus, all of which satisfy `P`. -/
def Emits (P : Burst → Prop) (d d' : Driver) : Prop :=
  ∃ bs : List Burst, d'.wire = d.wire ++ bs.flatMap Burst.ops ∧ ∀ b ∈ bs, P b

instance (P : Burst → Prop) : IsPreorder Driver (Emits P) where
  refl _ := ⟨[], (List.append_nil _).symm, nofun⟩
  trans _ _ _ h h' := by
    obtain ⟨bs, hwire, hP⟩ := h
    obtain ⟨bs', hwire', hP'⟩ := h'
    refine ⟨bs ++ bs', by rw [hwire', hwire, List.flatMap_append, List.append_assoc], ?_⟩
    intro b hb
    exact (List.mem_append.1 hb).elim (hP b) (hP' b)

/-- A burst without bytes of a frame. -/
def Burst.Plain (b : Burst) : Prop := b.frame = []

theorem Burst.Begins.plain {b : Burst} {which : Cs} {op : UInt8} (h : b.Begins which op) (hop : op ≠ EL133_DTM) :
    b.Plain := by
  cases h with
  | bare => rfl
  | data pieces => exact if_neg hop

theorem Burst.Begins.which_eq {b : Burst} {which : Cs} {op : UInt8} (h : b.Begins which op) : b.which = which := by
  cases h with
  | bare => rfl
  | data pieces => rfl

theorem emits_xfer_cmd {which : Cs} {cmd : UInt8} {data : Bytes} (hcmd : cmd ≠ EL133_DTM) :
    Keeps (Emits Burst.Plain) (xfer_cmd which cmd data) := by
  intro d
  obtain ⟨b, hb, hwire, -⟩ := xfer_cmd_burst which cmd data d
  refine ⟨[b], by simp [hwire], fun b' hb' => ?_⟩
  rw [List.mem_singleton.1 hb']
  exact hb.plain hcmd

theorem emits_wait_ready (P : Burst → Prop) : Keeps (Emits P) wait_ready :=
  fun _ => ⟨[], (List.append_nil _).symm, nofun⟩

theorem emits_refresh : Keeps (Emits Burst.Plain) refresh := by
  refine keeps_refresh (fun c hc => emits_xfer_cmd ?_) (emits_wait_ready _)
  revert c
  decide

theorem emits_registers : Keeps (Emits Burst.Plain) epd_init_registers := by
  refine keeps_each_until fun c hc => emits_xfer_cmd ?_
  revert c
  decide

section
variable {σ : Type} {fill : Nat → StateM σ (Except Int Bytes)} {left : σ → Bytes}

/-- Each half of the payload has only gone to its own controller. -/
structure Routes (payload : Bytes) (bs : List Burst) : Prop where
  left : sent_to .EL133_CS0 bs <+: payload.take EL133_HALF_BYTES
  right : sent_to .EL133_CS1 bs <+: (payload.drop EL133_HALF_BYTES).take EL133_HALF_BYTES
  both : sent_to .EL133_CS_BOTH bs = []

theorem sent_to_append (which : Cs) (bs bs' : List Burst) :
    sent_to which (bs ++ bs') = sent_to which bs ++ sent_to which bs' := List.flatMap_append

theorem sent_to_plain {which : Cs} {bs : List Burst} (h : ∀ b ∈ bs, b.Plain) : sent_to which bs = [] := by
  refine List.flatMap_eq_nil_iff.2 fun b hb => ?_
  rw [h b hb]
  exact ite_self _

theorem sent_to_singleton (which : Cs) (b : Burst) : sent_to which [b] = if b.which = which then b.frame else [] :=
  List.flatMap_singleton _ _

theorem routes_plain (payload : Bytes) {bs : List Burst} (h : ∀ b ∈ bs, b.Plain) : Routes payload bs where
  left := by
    rw [sent_to_plain h]
    exact List.nil_prefix
  right := by
    rw [sent_to_plain h]
    exact List.nil_prefix
  both := sent_to_plain h

/-- Bursts behind a load that have nothing of the frame in them. -/
theorem Routes.append_plain {payload : Bytes} {bs rest : List Burst} (h : Routes payload bs)
    (hrest : ∀ b ∈ rest, b.Plain) : Routes payload (bs ++ rest) where
  left := by
    rw [sent_to_append, sent_to_plain hrest, List.append_nil]
    exact h.left
  right := by
    rw [sent_to_append, sent_to_plain hrest, List.append_nil]
    exact h.right
  both := by
    rw [sent_to_append, sent_to_plain hrest, List.append_nil]
    exact h.both

/-- A load, up to the last burst that it came to. -/
theorem routes_load {payload : Bytes} {b0 : Burst} (hb0 : b0.which = .EL133_CS0)
    (h0 : b0.frame <+: payload) (hlen0 : b0.frame.length ≤ EL133_HALF_BYTES) : Routes payload [b0] where
  left := by
    rw [sent_to_singleton, if_pos hb0]
    exact List.prefix_take_iff.2 ⟨h0, hlen0⟩
  right := by
    rw [sent_to_singleton, hb0, if_neg (by decide)]
    exact List.nil_prefix
  both := by rw [sent_to_singleton, hb0, if_neg (by decide)]

theorem routes_both_halves {b0 b1 : Burst} {rest : Bytes} (hb0 : b0.which = .EL133_CS0) (hb1 : b1.which = .EL133_CS1)
    (hlen0 : b0.frame.length = EL133_HALF_BYTES) (h1 : b1.frame <+: rest)
    (hlen1 : b1.frame.length ≤ EL133_HALF_BYTES) : Routes (b0.frame ++ rest) ([b0] ++ [b1]) where
  left := by
    have hleft : sent_to .EL133_CS0 ([b0] ++ [b1]) = b0.frame := by
      rw [sent_to_append, sent_to_singleton, sent_to_singleton, if_pos hb0, hb1, if_neg (by decide), List.append_nil]
    exact hleft.trans (List.take_left' hlen0).symm ▸ List.prefix_rfl
  right := by
    rw [sent_to_append, sent_to_singleton, sent_to_singleton, if_pos hb1, hb0, if_neg (by decide), List.nil_append,
      List.drop_left' hlen0]
    exact List.prefix_take_iff.2 ⟨h1, hlen1⟩
  both := by
    rw [sent_to_append, sent_to_singleton, sent_to_singleton, hb0, hb1, if_neg (by decide), if_neg (by decide)]
    rfl

theorem emits_loaded : Keeps (Emits Burst.Plain) loaded := by
  intro d
  obtain ⟨bs, hwire, hplain⟩ := emits_refresh { d with dirty := true }
  unfold loaded
  dsimp only
  by_cases hblank : d.blanking_on = true
  · rw [if_pos hblank]
    exact ⟨[], (List.append_nil _).symm, nofun⟩
  · rw [if_neg hblank]
    refine ⟨bs, ?_, hplain⟩
    generalize refresh { d with dirty := true } = r at hwire ⊢
    obtain ⟨ret, d'⟩ := r
    dsimp only at hwire ⊢
    split
    · exact hwire
    · exact hwire

/-- A load, and the refresh behind it. -/
theorem routes_stream_write (hfeed : Feeds left fill) (s : Driver × σ) :
    ∃ bs : List Burst, (el133uf1_stream_write fill s).2.1.wire = s.1.wire ++ bs.flatMap Burst.ops ∧
      Routes (left s.2) bs := by
  unfold el133uf1_stream_write
  simp only [bind_app]
  obtain ⟨b0, hb0, hwire0, hres0⟩ := stream_half_burst hfeed .EL133_CS0 s
  generalize stream_half fill .EL133_CS0 s = r at hwire0 hres0 ⊢
  obtain ⟨ret0, d0, u0⟩ := r
  dsimp only at hwire0 hres0 ⊢
  rcases hres0 with ⟨hneg, hpre, hlen⟩ | ⟨rfl, hleft, hlen0⟩
  · rw [if_pos hneg]
    exact ⟨[b0], by simp [hwire0], routes_load hb0.which_eq hpre hlen⟩
  rw [if_neg (by decide), hleft]
  simp only [bind_app]
  obtain ⟨b1, hb1, hwire1, hres1⟩ := stream_half_burst hfeed .EL133_CS1 (d0, u0)
  generalize stream_half fill .EL133_CS1 (d0, u0) = r at hwire1 hres1 ⊢
  obtain ⟨ret1, d1, u1⟩ := r
  dsimp only at hwire1 hres1 ⊢
  have hwire : d1.wire = s.1.wire ++ ([b0] ++ [b1]).flatMap Burst.ops := by
    rw [hwire1, hwire0]
    simp
  rcases hres1 with ⟨hneg, hpre, hlen⟩ | ⟨rfl, hleft1, hlen1⟩
  · rw [if_pos hneg]
    exact ⟨_, hwire, routes_both_halves hb0.which_eq hb1.which_eq hlen0 hpre hlen⟩
  rw [if_neg (by decide)]
  obtain ⟨rest, hrest, hplain⟩ := emits_loaded d1
  refine ⟨[b0] ++ [b1] ++ rest, ?_, Routes.append_plain ?_ hplain⟩
  · rw [List.flatMap_append, ← List.append_assoc, ← hwire, ← hrest]
    rfl
  · exact routes_both_halves hb0.which_eq hb1.which_eq hlen0 (hleft1 ▸ List.prefix_append _ _) (Nat.le_of_eq hlen1)

end

/-! ## Every entry point -/

/-- The bytes that the caller hands in. -/
def Entry.payload : Entry → Bytes
  | .blanking_on | .blanking_off | .write none => []
  | .write (some payload) => payload
  | .stream_write src => src.left src.user

theorem emits_blanking_off : Keeps (Emits Burst.Plain) el133_blanking_off := by
  intro d
  unfold el133_blanking_off
  split
  · obtain ⟨bs, hwire, hplain⟩ := emits_refresh d
    exact ⟨bs, hwire, hplain⟩
  · exact ⟨[], (List.append_nil _).symm, nofun⟩

/-- Whatever is called, and whatever fails, each half goes to its own controller. -/
theorem routes_enter (e : Entry) (d : Driver) :
    ∃ bs : List Burst, (e.enter d).2.wire = d.wire ++ bs.flatMap Burst.ops ∧ Routes e.payload bs := by
  have hnone : Routes e.payload [] := routes_plain _ nofun
  cases hsrc : e.source with
  | some src =>
    obtain ⟨bs, hwire, hroutes⟩ := routes_stream_write src.feeds (d, src.user)
    refine ⟨bs, by rw [(enter_of_source hsrc d).2, hwire], ?_⟩
    have hpayload : e.payload = src.left src.user := by
      cases e with
      | blanking_on => cases hsrc
      | blanking_off => cases hsrc
      | stream_write => cases hsrc; rfl
      | write buf =>
        cases buf with
        | none => cases hsrc
        | some payload =>
          simp only [Entry.source] at hsrc
          split at hsrc
          · cases hsrc
          · cases hsrc
            rfl
    rw [hpayload]
    exact hroutes
  | none =>
    cases e with
    | blanking_on => exact ⟨[], (List.append_nil _).symm, hnone⟩
    | blanking_off =>
      obtain ⟨bs, hwire, hplain⟩ := emits_blanking_off d
      exact ⟨bs, hwire, routes_plain _ hplain⟩
    | stream_write => cases hsrc
    | write buf =>
      cases buf with
      | none => exact ⟨[], (List.append_nil _).symm, hnone⟩
      | some payload =>
        simp only [Entry.source] at hsrc
        split at hsrc
        · next hlen =>
          refine ⟨[], ?_, hnone⟩
          simp only [Entry.enter, el133_write, if_pos hlen, pure_app]
          exact (List.append_nil _).symm
        · cases hsrc

/-- What a call of the driver puts on the bus. -/
structure OwnController (payload : Bytes) (p p' : Bus) : Prop where
  clocked : ∃ new, p'.seen = p.seen ++ new ∧
    frame_while true false new <+: payload.take EL133_HALF_BYTES ∧
    frame_while false true new <+: (payload.drop EL133_HALF_BYTES).take EL133_HALF_BYTES ∧
    frame_while true true new = [] ∧ frame_while false false new = []
  released : p'.cs0 = false ∧ p'.cs1 = false

theorem ownController_of_routes {payload : Bytes} {bs : List Burst} {d d' : Driver} (hr : d.bus.Released)
    (hwire : d'.wire = d.wire ++ bs.flatMap Burst.ops) (h : Routes payload bs) :
    OwnController payload d.bus d'.bus := by
  have hbus : d'.bus = (bs.flatMap Burst.ops).foldl Bus.take d.bus := by
    rw [Driver.bus, hwire, List.foldl_append]
    rfl
  obtain ⟨hreleased, hseen⟩ := bus_bursts bs hr
  rw [← hbus] at hreleased hseen
  refine ⟨⟨bs.flatMap Burst.seen, hseen, ?_, ?_, ?_, frame_while_none bs⟩, hreleased⟩
  · exact (frame_while_bursts .EL133_CS0 bs).symm ▸ h.left
  · exact (frame_while_bursts .EL133_CS1 bs).symm ▸ h.right
  · exact (frame_while_bursts .EL133_CS_BOTH bs).trans h.both

theorem emits_init (spi : List (Option (Nat × Nat))) (busy : List Bool) :
    Emits Burst.Plain ⟨false, false, [], spi, busy⟩ (el133_init spi busy).2 := by
  have hwait := emits_wait_ready Burst.Plain ⟨false, false, [], spi, busy⟩
  rcases init_cases spi busy with h | h
  · rwa [h]
  · rw [h]
    exact trans_of (Emits Burst.Plain) hwait (emits_registers _)

/-- Initialisation clocks no byte of a frame, and in every run of calls that follows
each call sends the halves of its payload to their own controllers only and leaves
both chip selects inactive. -/
theorem halves_to_own_controllers (spi : List (Option (Nat × Nat))) (busy : List Bool) (calls : List Call) :
    OwnController [] .idle (el133_init spi busy).2.bus ∧
      Meets Call.apply (fun d c => OwnController c.entry.payload d.bus (c.apply d).bus) (el133_init spi busy).2
        calls := by
  have hinit : OwnController [] .idle (el133_init spi busy).2.bus := by
    obtain ⟨bs, hwire, hplain⟩ := emits_init spi busy
    exact ownController_of_routes (d := ⟨false, false, [], spi, busy⟩) ⟨rfl, rfl⟩ hwire (routes_plain _ hplain)
  have hcall (d : Driver) (c : Call) (hr : d.bus.Released) : OwnController c.entry.payload d.bus (c.apply d).bus := by
    obtain ⟨bs, hwire, hroutes⟩ := routes_enter c.entry { d with spi := c.spi, busy := c.busy }
    exact ownController_of_routes hr hwire hroutes
  refine ⟨hinit, meets_of_invariant (·.bus.Released) hinit.released ?_ hcall⟩
  exact fun d c hr => (hcall d c hr).released

end EinkNode.El133
