import EinkNode.Display.El133
/-!
# What the controllers receive

The other end of the wires. A byte goes to the controllers whose chip select is
active: as a command while DC is low, as data of the last command while it is
high. A call of the driver puts bursts on the wires: chips are selected, a
command byte is clocked, maybe data behind it, and the chips are released. So it
adds to what was received, and leaves both chip selects inactive.
-/
open NodeLib

namespace EinkNode.El133

inductive Chip where
  | c0 | c1
deriving DecidableEq

/-- A byte that a controller has received: a command, or data of one. -/
inductive Rx where
  | cmd (chip : Chip) (op : UInt8)
  | data (chip : Chip) (op : UInt8) (byte : UInt8)
deriving DecidableEq

/-- The command that the byte is, or belongs to. -/
def Rx.op : Rx → UInt8
  | .cmd _ op => op
  | .data _ op _ => op

/-- The pins, the last command of each controller, and all that was received so far. -/
structure Panel where
  selected : Chip → Bool
  dc : Bool
  op : Chip → UInt8
  rx : List Rx

namespace Panel

def off : Panel := ⟨fun _ => false, false, fun _ => 0, []⟩

def chips (p : Panel) : List Chip := [.c0, .c1].filter p.selected

def clock (p : Panel) (byte : UInt8) : Panel :=
  if p.dc then { p with rx := p.rx ++ p.chips.map fun c => .data c (p.op c) byte }
  else
    { p with
      op := fun c => if p.selected c then byte else p.op c
      rx := p.rx ++ p.chips.map fun c => .cmd c byte }

def take (p : Panel) : Op → Panel
  | .cs0 level => { p with selected := fun c => if c = .c0 then level else p.selected c }
  | .cs1 level => { p with selected := fun c => if c = .c1 then level else p.selected c }
  | .dc level => { p with dc := level }
  | .spi bytes => bytes.foldl clock p

/-- Both chip selects are inactive. -/
def Rested (p : Panel) : Prop := ∀ c, p.selected c = false

/-- Data goes to the controllers that are selected. -/
theorem clock_data {p : Panel} (h : p.dc = true) (bytes : Bytes) :
    bytes.foldl clock p =
      { p with rx := p.rx ++ bytes.flatMap fun b => p.chips.map fun c => .data c (p.op c) b } := by
  induction bytes generalizing p with
  | nil => simp
  | cons b bytes ih =>
    rw [List.foldl_cons, ih (by simp [clock, h])]
    simp [clock, h, chips]

end Panel

def Driver.panel (d : Driver) : Panel := d.wire.foldl Panel.take .off

/-! ## Bursts -/

/-- The chips that `which` selects. -/
def Cs.has : Cs → Chip → Bool
  | .EL133_CS0, c => c = .c0
  | .EL133_CS1, c => c = .c1
  | .EL133_CS_BOTH, _ => true

/-- What the controllers that are selected receive of a command. -/
def received (which : Cs) (op : UInt8) (data : Bytes) : List Rx :=
  let chips := [Chip.c0, .c1].filter which.has
  chips.map (Rx.cmd · op) ++ data.flatMap fun byte => chips.map (Rx.data · op byte)

theorem op_received {which : Cs} {op : UInt8} {data : Bytes} : ∀ x ∈ received which op data, x.op = op := by
  intro x hx
  rcases List.mem_append.1 hx with hx | hx
  · obtain ⟨c, -, rfl⟩ := List.mem_map.1 hx
    rfl
  · obtain ⟨byte, -, hx⟩ := List.mem_flatMap.1 hx
    obtain ⟨c, -, rfl⟩ := List.mem_map.1 hx
    rfl

/-- One selection of the chips: some first part of the command byte, or the
command and pieces of data. -/
inductive Burst where
  | bare (which : Cs) (cmd : Bytes)
  | data (which : Cs) (op : UInt8) (pieces : List Bytes)

namespace Burst

/-- What `cs_set` does to the pins. -/
def select (which : Cs) (level : Bool) : List Op :=
  match which with
  | .EL133_CS0 => [.cs0 level]
  | .EL133_CS1 => [.cs1 level]
  | .EL133_CS_BOTH => [.cs0 level, .cs1 level]

def ops : Burst → List Op
  | bare which cmd => select which true ++ [.dc false, .spi cmd] ++ select which false
  | data which op pieces =>
    select which true ++ [.dc false, .spi [op], .dc true] ++ pieces.map .spi ++ select which false

def which : Burst → Cs
  | bare which _ => which
  | data which _ _ => which

/-- The bytes of a frame that a burst has in it. -/
def frame : Burst → Bytes
  | bare _ _ => []
  | data _ op pieces => if op = EL133_DTM then pieces.flatten else []

/-- The controllers receive the command, and data that was sent behind it. -/
def received : Burst → List Rx
  | bare which cmd => cmd.flatMap fun op => El133.received which op []
  | data which op pieces => El133.received which op pieces.flatten

end Burst

namespace Panel

theorem take_select (which : Cs) (level : Bool) (p : Panel) :
    (Burst.select which level).foldl take p =
      { p with selected := fun c => if which.has c then level else p.selected c } := by
  cases which with
  | EL133_CS0 => simp [Burst.select, take, Cs.has]
  | EL133_CS1 => simp [Burst.select, take, Cs.has]
  | EL133_CS_BOTH =>
    simp only [Burst.select, List.foldl_cons, List.foldl_nil, take]
    congr 1
    funext c
    cases c with
    | c0 => rfl
    | c1 => rfl

theorem select_rested {p : Panel} (h : p.Rested) (which : Cs) :
    (Burst.select which true).foldl take p = { p with selected := which.has } := by
  rw [take_select]
  congr 1
  funext c
  rw [h c]
  cases which.has c with
  | true => rfl
  | false => rfl

theorem release {p : Panel} {which : Cs} (h : p.selected = which.has) :
    (Burst.select which false).foldl take p = { p with selected := fun _ => false } := by
  rw [take_select, h]
  congr 1
  funext c
  cases which.has c with
  | true => rfl
  | false => rfl

/-- Commands go to the controllers that are selected. -/
theorem clock_cmds {p : Panel} (h : p.dc = false) (bytes : Bytes) :
    (bytes.foldl clock p).selected = p.selected ∧
      (bytes.foldl clock p).rx = p.rx ++ bytes.flatMap fun op => p.chips.map (Rx.cmd · op) := by
  induction bytes generalizing p with
  | nil => simp
  | cons b bytes ih =>
    obtain ⟨hsel, hrx⟩ := ih (p := p.clock b) (by simp [clock, h])
    rw [List.foldl_cons, hsel, hrx]
    simp [clock, h, chips]

/-- Pieces of data are clocked one behind the other. -/
theorem take_pieces (p : Panel) (pieces : List Bytes) :
    (pieces.map Op.spi).foldl take p = pieces.flatten.foldl clock p := by
  rw [List.foldl_map, List.foldl_flatten]
  rfl

/-- A burst leaves the chip selects as inactive as they were. -/
theorem take_burst (b : Burst) {p : Panel} (h : p.Rested) :
    (b.ops.foldl take p).Rested ∧ (b.ops.foldl take p).rx = p.rx ++ b.received := by
  cases b with
  | bare which cmd =>
    have hops : (Burst.bare which cmd).ops.foldl take p = (Burst.select which false).foldl take
        (cmd.foldl clock { p with selected := which.has, dc := false }) := by
      simp only [Burst.ops, List.foldl_append, select_rested h]
      rfl
    obtain ⟨hsel, hrx⟩ := clock_cmds (p := { p with selected := which.has, dc := false }) rfl cmd
    rw [hops, release hsel]
    refine ⟨fun _ => rfl, hrx.trans ?_⟩
    simp [Burst.received, El133.received, chips]
  | data which op pieces =>
    have hops : (Burst.data which op pieces).ops.foldl take p = (Burst.select which false).foldl take
        (pieces.flatten.foldl clock
          { clock { p with selected := which.has, dc := false } op with dc := true }) := by
      simp only [Burst.ops, List.foldl_append, select_rested h, take_pieces]
      rfl
    rw [hops, clock_data rfl, release rfl]
    refine ⟨fun _ => rfl, ?_⟩
    -- A selected controller is at the command just sent.
    have hop (byte : UInt8) : (([Chip.c0, .c1].filter which.has).map fun c =>
        Rx.data c (if which.has c then op else p.op c) byte) =
          ([Chip.c0, .c1].filter which.has).map (Rx.data · op byte) :=
      List.map_congr_left fun c hc => by rw [if_pos (List.mem_filter.1 hc).2]
    change p.rx ++ _ ++ (pieces.flatten.flatMap fun byte => ([Chip.c0, .c1].filter which.has).map fun c =>
      Rx.data c (if which.has c then op else p.op c) byte) = _
    rw [funext hop, List.append_assoc]
    rfl

end Panel

/-! ## The primitives -/

theorem wire_cs_set (which : Cs) (level : Bool) (d : Driver) :
    (cs_set which level d).2.wire = d.wire ++ Burst.select which level := by
  cases which with
  | EL133_CS0 => rfl
  | EL133_CS1 => rfl
  | EL133_CS_BOTH => exact List.append_assoc _ _ _

theorem wire_put (op : Op) (d : Driver) : (put op d).2.wire = d.wire ++ [op] := rfl

/-- Some first part of the bytes is clocked, all of them on success. -/
theorem wire_spi_write (bytes : Bytes) (d : Driver) :
    ∃ sent, sent <+: bytes ∧ (spi_write bytes d).2.wire = d.wire ++ [.spi sent] ∧
      ((spi_write bytes d).1 < 0 ∨ (spi_write bytes d).1 = 0 ∧ sent = bytes) := by
  unfold spi_write
  cases d.spi.headD none with
  | none => exact ⟨bytes, List.prefix_rfl, rfl, .inr ⟨rfl, rfl⟩⟩
  | some fate =>
    obtain ⟨e, n⟩ := fate
    refine ⟨bytes.take n, List.take_prefix _ _, rfl, .inl ?_⟩
    dsimp only
    omega

/-- A relation that every change of a pin and every transfer keeps. -/
structure OnWires (R : Driver → Driver → Prop) : Prop where
  pin : ∀ op, Keeps R (put op)
  transfer : ∀ bytes, Keeps R (spi_write bytes)

section
variable {R : Driver → Driver → Prop} [IsPreorder Driver R] {σ : Type}

theorem OnWires.keeps_cs_set (h : OnWires R) (which : Cs) (selected : Bool) : Keeps R (cs_set which selected) := by
  cases which with
  | EL133_CS0 => exact h.pin _
  | EL133_CS1 => exact h.pin _
  | EL133_CS_BOTH => exact keeps_bind (h.pin _) fun _ => h.pin _

theorem OnWires.keeps_xfer_cmd (h : OnWires R) (which : Cs) (cmd : UInt8) (data : Bytes) :
    Keeps R (xfer_cmd which cmd data) := by
  have hrelease (ret : Int) : Keeps R (do cs_set which false; pure ret) :=
    keeps_bind (h.keeps_cs_set _ _) fun _ => keeps_pure _
  refine keeps_bind (h.keeps_cs_set _ _) fun _ => keeps_bind (h.pin _) fun _ => ?_
  refine keeps_bind (h.transfer _) fun ret => keeps_ite (hrelease ret) (keeps_ite (hrelease ret) ?_)
  exact keeps_bind (h.pin _) fun _ => keeps_bind (h.transfer _) hrelease

theorem OnWires.keeps_stream_loop (h : OnWires R) (fill : Nat → StateM σ (Except Int Bytes)) (filled : Nat)
    (s : Driver × σ) : R s.1 (stream_loop fill filled s).2.1 := by
  fun_induction stream_loop fill filled s with
  | case1 filled s hlt want e u hfill => exact refl_of R _
  | case2 filled s hlt want chunk u hfill hn => exact refl_of R _
  | case3 filled s hlt want chunk u hfill hn ret d hspi hneg =>
    have hwrite := h.transfer chunk s.1
    rwa [hspi] at hwrite
  | case4 filled s hlt want chunk u hfill hn ret d hspi hneg ih =>
    have hwrite := h.transfer chunk s.1
    rw [hspi] at hwrite
    exact trans_of R hwrite ih
  | case5 filled s hge => exact refl_of R _

/-- The end of a load, with the chips released. -/
theorem load_data (loop : StateM (Driver × σ) Int) (which : Cs) (d : Driver) (u : σ) :
    (do
      drv (put (.dc true))
      let ret ← loop
      drv (cs_set which false)
      pure ret : StateM (Driver × σ) Int) (d, u) =
    ((loop ((put (.dc true) d).2, u)).1, ((cs_set which false (loop ((put (.dc true) d).2, u)).2.1).2,
      (loop ((put (.dc true) d).2, u)).2.2)) := rfl

/-- One half, by how the write of its command ends. -/
theorem stream_half_app (fill : Nat → StateM σ (Except Int Bytes)) (which : Cs) (d : Driver) (u : σ)
    {r : Int × Driver} (h : spi_write [EL133_DTM] (put (.dc false) (cs_set which true d).2).2 = r) :
    stream_half fill which (d, u) =
      if r.1 < 0 then (r.1, (cs_set which false r.2).2, u)
      else
        ((stream_loop fill 0 ((put (.dc true) r.2).2, u)).1,
          ((cs_set which false (stream_loop fill 0 ((put (.dc true) r.2).2, u)).2.1).2,
            (stream_loop fill 0 ((put (.dc true) r.2).2, u)).2.2)) := by
  have hcmd : (drv (spi_write [EL133_DTM]) (drv (put (.dc false)) (drv (cs_set which true) (d, u)).2).2 :
      Int × (Driver × σ)) = ((spi_write [EL133_DTM] (put (.dc false) (cs_set which true d).2).2).1,
        ((spi_write [EL133_DTM] (put (.dc false) (cs_set which true d).2).2).2, u)) := rfl
  unfold stream_half
  simp only [bind_app]
  rw [hcmd, h]
  dsimp only
  split
  · rfl
  · exact load_data _ _ _ _

theorem OnWires.keeps_stream_half (h : OnWires R) (fill : Nat → StateM σ (Except Int Bytes)) (which : Cs)
    (s : Driver × σ) : R s.1 (stream_half fill which s).2.1 := by
  obtain ⟨d, u⟩ := s
  have hstart : R d (spi_write [EL133_DTM] (put (.dc false) (cs_set which true d).2).2).2 :=
    trans_of R (trans_of R (h.keeps_cs_set which true d) (h.pin _ _)) (h.transfer _ _)
  rw [stream_half_app fill which d u rfl]
  split
  · exact trans_of R hstart (h.keeps_cs_set which false _)
  · have hloop := h.keeps_stream_loop fill 0 ((put (.dc true) (spi_write [EL133_DTM]
      (put (.dc false) (cs_set which true d).2).2).2).2, u)
    exact trans_of R (trans_of R (trans_of R hstart (h.pin _ _)) hloop) (h.keeps_cs_set which false _)

end

/-- The flags of the driver are the same. -/
def SameFlags (d d' : Driver) : Prop := d'.blanking_on = d.blanking_on ∧ d'.dirty = d.dirty

instance : IsPreorder Driver SameFlags where
  refl _ := ⟨rfl, rfl⟩
  trans _ _ _ h h' := ⟨h'.1.trans h.1, h'.2.trans h.2⟩

theorem onWires_sameFlags : OnWires SameFlags where
  pin _ _ := ⟨rfl, rfl⟩
  transfer bytes d := by
    unfold spi_write
    split
    · exact ⟨rfl, rfl⟩
    · exact ⟨rfl, rfl⟩

/-! ## Commands -/

/-- Between two calls of the driver: what was received since is `P`, and no chip is left selected. -/
def Sends (P : Rx → Prop) (d d' : Driver) : Prop :=
  d.panel.Rested → d'.panel.Rested ∧ ∃ new, d'.panel.rx = d.panel.rx ++ new ∧ ∀ x ∈ new, P x

instance (P : Rx → Prop) : IsPreorder Driver (Sends P) where
  refl _ h := ⟨h, [], by simp, nofun⟩
  trans _ _ _ h h' hr := by
    obtain ⟨hr1, new, hnew, hp⟩ := h hr
    obtain ⟨hr2, new', hnew', hp'⟩ := h' hr1
    refine ⟨hr2, new ++ new', by rw [hnew', hnew, List.append_assoc], fun x hx => ?_⟩
    rcases List.mem_append.1 hx with hx | hx
    · exact hp x hx
    · exact hp' x hx

theorem Sends.mono {P Q : Rx → Prop} (h : ∀ x, P x → Q x) {d d' : Driver} (hs : Sends P d d') : Sends Q d d' :=
  fun hr => by
    obtain ⟨hr', new, hnew, hp⟩ := hs hr
    exact ⟨hr', new, hnew, fun x hx => h x (hp x hx)⟩

/-- A burst that begins with a command: some first part of its byte, or the byte and data behind it. -/
inductive Burst.Begins (which : Cs) (op : UInt8) : Burst → Prop where
  | bare {cmd : Bytes} (h : cmd <+: [op]) : Begins which op (.bare which cmd)
  | data (pieces : List Bytes) : Begins which op (.data which op pieces)

/-- The data behind the command byte, if that has gone out. -/
def Burst.sent : Burst → Option Bytes
  | bare _ cmd => if cmd = [] then none else some []
  | data _ _ pieces => some pieces.flatten

theorem Burst.Begins.received {b : Burst} {which : Cs} {op : UInt8} (h : b.Begins which op) :
    b.received = (b.sent.map (El133.received which op)).getD [] := by
  cases h with
  | bare h =>
    rcases List.prefix_cons_iff.1 h with rfl | ⟨rest, rfl, hrest⟩
    · rfl
    · rw [List.prefix_nil.1 hrest]
      exact List.append_nil _
  | data pieces => rfl

theorem Burst.Begins.op_received {b : Burst} {which : Cs} {op : UInt8} (h : b.Begins which op) :
    ∀ x ∈ b.received, x.op = op := by
  rw [h.received]
  cases b.sent with
  | none => exact nofun
  | some data => exact El133.op_received

/-- What the controllers receive when a burst goes over the wires. -/
theorem panel_burst {b : Burst} {d d' : Driver} (hwire : d'.wire = d.wire ++ b.ops) (hr : d.panel.Rested) :
    d'.panel.Rested ∧ d'.panel.rx = d.panel.rx ++ b.received := by
  rw [Driver.panel, hwire, List.foldl_append]
  exact Panel.take_burst b hr

/-- A command is one burst, and all of its data is sent when it ends well. -/
theorem xfer_cmd_burst (which : Cs) (cmd : UInt8) (data : Bytes) (d : Driver) :
    ∃ b : Burst, b.Begins which cmd ∧ (xfer_cmd which cmd data d).2.wire = d.wire ++ b.ops ∧
      ((xfer_cmd which cmd data d).1 < 0 ∨ (xfer_cmd which cmd data d).1 = 0 ∧ b.sent = some data) := by
  obtain ⟨sent, hsent, hspi, hret⟩ := wire_spi_write [cmd] (put (.dc false) (cs_set which true d).2).2
  unfold xfer_cmd
  simp only [bind_app]
  generalize spi_write [cmd] (put (.dc false) (cs_set which true d).2).2 = r at hspi hret ⊢
  obtain ⟨ret, d1⟩ := r
  rw [wire_put, wire_cs_set] at hspi
  dsimp only at hspi hret ⊢
  have hbare : (cs_set which false d1).2.wire = d.wire ++ (Burst.bare which sent).ops := by
    rw [wire_cs_set, hspi]
    simp [Burst.ops]
  by_cases hneg : ret < 0
  · rw [if_pos hneg]
    exact ⟨_, .bare hsent, hbare, .inl hneg⟩
  rw [if_neg hneg]
  obtain ⟨rfl, rfl⟩ := hret.resolve_left hneg
  by_cases hdata : data = []
  · rw [if_pos hdata, hdata]
    exact ⟨_, .bare hsent, hbare, .inr ⟨rfl, rfl⟩⟩
  rw [if_neg hdata]
  simp only [bind_app, pure_app]
  obtain ⟨bytes, -, hspi', hret'⟩ := wire_spi_write data (put (.dc true) d1).2
  refine ⟨_, .data [bytes], ?_, hret'.imp_right fun h => ⟨h.1, ?_⟩⟩
  · rw [wire_cs_set, hspi', wire_put, hspi]
    simp [Burst.ops]
  · rw [h.2]
    exact congrArg some List.flatten_singleton

/-- A command only sends itself and its data. -/
theorem sends_xfer_cmd (which : Cs) (cmd : UInt8) (data : Bytes) :
    Keeps (Sends (·.op = cmd)) (xfer_cmd which cmd data) := by
  intro d hr
  obtain ⟨b, hb, hwire, -⟩ := xfer_cmd_burst which cmd data d
  obtain ⟨hr', hrx⟩ := panel_burst hwire hr
  exact ⟨hr', b.received, hrx, hb.op_received⟩

section
variable {R : Driver → Driver → Prop} [IsPreorder Driver R]

theorem keeps_each_until {α : Type} {f : α → StateM Driver Int} {l : List α} (h : ∀ a ∈ l, Keeps R (f a)) :
    Keeps R (each_until f l) := by
  induction l with
  | nil => exact keeps_pure _
  | cons a l ih =>
    refine keeps_bind (h a (by simp)) fun ret => keeps_ite (keeps_pure _) ?_
    exact ih fun a' ha' => h a' (by simp [ha'])

/-- What every command and every wait keeps, a refresh keeps. -/
theorem keeps_refresh (hxfer : ∀ c ∈ refresh_commands, Keeps R (xfer_cmd c.1 c.2.1 c.2.2))
    (hwait : Keeps R wait_ready) :
    Keeps R refresh := by
  refine keeps_each_until fun c hc => ?_
  exact keeps_bind (hxfer c hc) fun ret => keeps_ite (keeps_pure _) hwait

end

/-- A refresh sends no frame bytes. -/
theorem sends_refresh : Keeps (Sends (·.op ≠ EL133_DTM)) refresh := by
  refine keeps_refresh (fun c hc d => ?_) fun d hr => ⟨hr, [], by simp [wait_ready, Driver.panel], nofun⟩
  have hop : c.2.1 ≠ EL133_DTM := by
    revert c
    decide
  exact (sends_xfer_cmd _ _ _ d).mono fun x hx => by rw [hx]; exact hop

/-- The chip selects are inactive after initialisation. -/
theorem rested_init (spi : List (Option (Nat × Nat))) (busy : List Bool) :
    (el133_init spi busy).2.panel.Rested := by
  have hstart : (wait_ready ⟨false, false, [], spi, busy⟩).2.panel.Rested := fun _ => rfl
  have hkeeps : Keeps (Sends fun _ => True) epd_init_registers :=
    keeps_each_until fun c _ d => (sends_xfer_cmd _ _ _ d).mono fun _ _ => trivial
  rcases init_cases spi busy with h | h
  · rwa [h]
  · rw [h]
    exact (hkeeps _ hstart).1

/-! ## Frames -/

/-- The byte of a frame that goes to one of `chips`. -/
def Rx.frame_byte (chips : List Chip) : Rx → Option UInt8
  | .cmd _ _ => none
  | .data chip op byte => if op = EL133_DTM ∧ chip ∈ chips then some byte else none

/-- The bytes of frames that were received, by any controller. -/
def frame_bytes (rx : List Rx) : Bytes := rx.filterMap (Rx.frame_byte [.c0, .c1])

def frame_bytes_of (chip : Chip) (rx : List Rx) : Bytes := rx.filterMap (Rx.frame_byte [chip])

/-- The command of a load, and the bytes that follow it. -/
def half (c : Chip) (sent : Bytes) : List Rx := .cmd c EL133_DTM :: sent.map (.data c EL133_DTM)

theorem op_half {c : Chip} {sent : Bytes} : ∀ x ∈ half c sent, x.op = EL133_DTM := by
  intro x hx
  rcases List.mem_cons.1 hx with rfl | hx
  · rfl
  · obtain ⟨byte, -, rfl⟩ := List.mem_map.1 hx
    rfl

theorem filterMap_half (chips : List Chip) (c : Chip) (sent : Bytes) :
    (half c sent).filterMap (Rx.frame_byte chips) = if c ∈ chips then sent else [] := by
  unfold half
  rw [List.filterMap_cons_none rfl, List.filterMap_map]
  by_cases h : c ∈ chips
  · rw [if_pos h]
    have hsome : (Rx.frame_byte chips ∘ Rx.data c EL133_DTM) = some := funext fun byte => if_pos ⟨rfl, h⟩
    rw [hsome, List.filterMap_some]
  · rw [if_neg h]
    refine List.filterMap_eq_nil_iff.2 fun byte _ => if_neg fun hc => h hc.2

/-- What belongs to other commands is no frame byte. -/
theorem filterMap_of_op_ne {chips : List Chip} {rx : List Rx} (h : ∀ x ∈ rx, x.op ≠ EL133_DTM) :
    rx.filterMap (Rx.frame_byte chips) = [] := by
  refine List.filterMap_eq_nil_iff.2 fun x hx => ?_
  cases x with
  | cmd chip op => rfl
  | data chip op byte => exact if_neg fun hc => h _ hx hc.1

section
variable {σ : Type} {fill : Nat → StateM σ (Except Int Bytes)} {left : σ → Bytes}

/-- The callback hands out what is left in order, and its errors are negative. -/
structure Feeds (left : σ → Bytes) (fill : Nat → StateM σ (Except Int Bytes)) : Prop where
  ok : ∀ want u chunk, (fill want u).1 = .ok chunk → chunk.length = want → left u = chunk ++ left (fill want u).2
  err : ∀ want, Always NegErr (fill want)

/-- A first piece, and what the rest of a loop then takes of what is left. -/
theorem took_append {before mid after sent more : Bytes} {n : Nat} {ret : Int} (h : before = sent ++ mid)
    (hlen : sent.length ≤ n)
    (hres : ret < 0 ∧ more <+: mid ∧ more.length ≤ n - sent.length ∨
      ret = 0 ∧ mid = more ++ after ∧ more.length = n - sent.length) :
    ret < 0 ∧ sent ++ more <+: before ∧ (sent ++ more).length ≤ n ∨
      ret = 0 ∧ before = sent ++ more ++ after ∧ (sent ++ more).length = n := by
  rw [h, List.length_append]
  rcases hres with ⟨hneg, hpre, hle⟩ | ⟨hzero, hrest, heq⟩
  · exact .inl ⟨hneg, (List.prefix_append_right_inj sent).2 hpre, by omega⟩
  · exact .inr ⟨hzero, by rw [hrest, List.append_assoc], by omega⟩

/-- The loop sends a first part of what is left, and on success all that it was to send. -/
theorem stream_loop_pieces (hfeed : Feeds left fill) {filled : Nat} {s : Driver × σ}
    (hf : filled ≤ EL133_HALF_BYTES) :
    ∃ pieces : List Bytes, (stream_loop fill filled s).2.1.wire = s.1.wire ++ pieces.map .spi ∧
      ((stream_loop fill filled s).1 < 0 ∧ pieces.flatten <+: left s.2 ∧
          pieces.flatten.length ≤ EL133_HALF_BYTES - filled ∨
        (stream_loop fill filled s).1 = 0 ∧ left s.2 = pieces.flatten ++ left (stream_loop fill filled s).2.2 ∧
          pieces.flatten.length = EL133_HALF_BYTES - filled) := by
  fun_induction stream_loop fill filled s with
  | case1 filled s hlt want e u hfill =>
    have hneg := hfeed.err want s.2
    rw [hfill] at hneg
    exact ⟨[], (List.append_nil _).symm, .inl ⟨hneg, List.nil_prefix, Nat.zero_le _⟩⟩
  | case2 filled s hlt want chunk u hfill hn =>
    exact ⟨[], (List.append_nil _).symm, .inl ⟨show -EINVAL < 0 by decide, List.nil_prefix, Nat.zero_le _⟩⟩
  | case3 filled s hlt want chunk u hfill hn ret d hspi hneg =>
    have hok := hfeed.ok want s.2 chunk (by rw [hfill]) (not_not.1 hn)
    obtain ⟨sent, hsent, hwire, -⟩ := wire_spi_write chunk s.1
    rw [hspi] at hwire
    refine ⟨[sent], hwire, .inl ⟨hneg, ?_, ?_⟩⟩
    · rw [List.flatten_singleton, hok]
      exact hsent.trans (List.prefix_append _ _)
    · have hle := hsent.length_le
      rw [List.flatten_singleton]
      omega
  | case4 filled s hlt want chunk u hfill hn ret d hspi hneg ih =>
    have hok := hfeed.ok want s.2 chunk (by rw [hfill]) (not_not.1 hn)
    obtain ⟨sent, -, hwire, hret⟩ := wire_spi_write chunk s.1
    rw [hspi] at hwire hret
    obtain ⟨-, rfl⟩ := hret.resolve_left hneg
    rw [hfill] at hok
    dsimp only at hok hwire ih
    have hle : sent.length ≤ EL133_HALF_BYTES - filled := by omega
    obtain ⟨pieces, hmore, hres⟩ := ih (by omega)
    refine ⟨sent :: pieces, by rw [hmore, hwire]; simp, ?_⟩
    rw [Nat.sub_add_eq] at hres
    rw [List.flatten_cons]
    exact took_append hok hle hres
  | case5 filled s hge => exact ⟨[], (List.append_nil _).symm, .inr ⟨rfl, rfl, by simp; omega⟩⟩

/-- One half is one burst, with a first part of what is left, and with all of the half when it ends well. -/
theorem stream_half_burst (hfeed : Feeds left fill) (which : Cs) (s : Driver × σ) :
    ∃ b : Burst, b.Begins which EL133_DTM ∧ (stream_half fill which s).2.1.wire = s.1.wire ++ b.ops ∧
      ((stream_half fill which s).1 < 0 ∧ b.frame <+: left s.2 ∧ b.frame.length ≤ EL133_HALF_BYTES ∨
        (stream_half fill which s).1 = 0 ∧ left s.2 = b.frame ++ left (stream_half fill which s).2.2 ∧
          b.frame.length = EL133_HALF_BYTES) := by
  obtain ⟨d, u⟩ := s
  obtain ⟨sent, hsent, hspi, hret⟩ := wire_spi_write [EL133_DTM] (put (.dc false) (cs_set which true d).2).2
  obtain ⟨r, hr⟩ : ∃ r, spi_write [EL133_DTM] (put (.dc false) (cs_set which true d).2).2 = r := ⟨_, rfl⟩
  rw [stream_half_app fill which d u hr]
  rw [hr] at hspi hret
  obtain ⟨ret, d1⟩ := r
  rw [wire_put, wire_cs_set] at hspi
  dsimp only at hspi hret ⊢
  by_cases hneg : ret < 0
  · rw [if_pos hneg]
    refine ⟨.bare which sent, .bare hsent, ?_, .inl ⟨hneg, List.nil_prefix, Nat.zero_le _⟩⟩
    have hwire := wire_cs_set which false d1
    rw [hspi] at hwire
    refine hwire.trans ?_
    simp [Burst.ops]
  · rw [if_neg hneg]
    obtain ⟨-, rfl⟩ := hret.resolve_left hneg
    obtain ⟨pieces, hloop, hres⟩ := stream_loop_pieces hfeed (s := ((put (.dc true) d1).2, u)) (Nat.zero_le _)
    generalize stream_loop fill 0 ((put (.dc true) d1).2, u) = r at hloop hres ⊢
    obtain ⟨ret', d2, u'⟩ := r
    rw [wire_put] at hloop
    dsimp only at hloop hres ⊢
    refine ⟨.data which EL133_DTM pieces, .data pieces, ?_, hres⟩
    rw [wire_cs_set, hloop, hspi]
    simp [Burst.ops]

/-- A load that one controller receives. -/
theorem received_half {which : Cs} {c : Chip} (hwhich : ∀ c', which.has c' = decide (c' = c)) (sent : Bytes) :
    received which EL133_DTM sent = half c sent := by
  have hhas : which.has = fun c' => decide (c' = c) := funext hwhich
  have hchips : [Chip.c0, .c1].filter which.has = [c] := by
    rw [hhas]
    cases c with
    | c0 => rfl
    | c1 => rfl
  rw [received, hchips]
  exact congrArg (Rx.cmd c EL133_DTM :: ·) List.map_eq_flatMap.symm

/-- One half: nothing, or the command with a first part of what is left; all of the half on success. -/
theorem stream_half_spec (hfeed : Feeds left fill) {which : Cs} {c : Chip}
    (hwhich : ∀ c', which.has c' = decide (c' = c))
    {s : Driver × σ} (hr : s.1.panel.Rested) :
    ∃ new, (stream_half fill which s).2.1.panel.rx = s.1.panel.rx ++ new ∧
      (stream_half fill which s).2.1.panel.Rested ∧ SameFlags s.1 (stream_half fill which s).2.1 ∧
      ((stream_half fill which s).1 < 0 ∧
          (new = [] ∨ ∃ sent, new = half c sent ∧ sent <+: left s.2 ∧ sent.length ≤ EL133_HALF_BYTES) ∨
        (stream_half fill which s).1 = 0 ∧ ∃ sent, new = half c sent ∧
          left s.2 = sent ++ left (stream_half fill which s).2.2 ∧ sent.length = EL133_HALF_BYTES) := by
  obtain ⟨b, hb, hwire, hres⟩ := stream_half_burst hfeed which s
  obtain ⟨hr', hrx⟩ := panel_burst hwire hr
  refine ⟨b.received, hrx, hr', onWires_sameFlags.keeps_stream_half fill which s, ?_⟩
  rw [hb.received]
  cases hb with
  | bare h =>
    -- Without data the half is not complete.
    obtain ⟨hneg, -, -⟩ := hres.resolve_right fun hok => absurd hok.2.2 (show 0 ≠ EL133_HALF_BYTES by decide)
    rcases List.prefix_cons_iff.1 h with rfl | ⟨rest, rfl, -⟩
    · exact .inl ⟨hneg, .inl rfl⟩
    · exact .inl ⟨hneg, .inr ⟨[], received_half hwhich [], List.nil_prefix, Nat.zero_le _⟩⟩
  | data pieces =>
    have hnew := received_half hwhich pieces.flatten
    rcases hres with ⟨hneg, hpre, hlen⟩ | ⟨hzero, hrest, hlen⟩
    · exact .inl ⟨hneg, .inr ⟨pieces.flatten, hnew, hpre, hlen⟩⟩
    · exact .inr ⟨hzero, pieces.flatten, hnew, hrest, hlen⟩

/-- What a load has sent: nothing, some of the left half, or all of it and some of the right half. -/
inductive Sent (frame : Bytes) : List Rx → Prop where
  | nothing : Sent frame []
  | left {s0 : Bytes} (h : s0 <+: frame) (hlen : s0.length ≤ EL133_HALF_BYTES) : Sent frame (half .c0 s0)
  | right {s0 s1 : Bytes} (h : s0 ++ s1 <+: frame) (hlen0 : s0.length = EL133_HALF_BYTES)
      (hlen1 : s1.length ≤ EL133_HALF_BYTES) : Sent frame (half .c0 s0 ++ half .c1 s1)

theorem Sent.op_eq {frame : Bytes} {load : List Rx} (h : Sent frame load) : ∀ x ∈ load, x.op = EL133_DTM := by
  cases h with
  | nothing => exact List.forall_mem_nil _
  | left => exact op_half
  | right => exact fun x hx => (List.mem_append.1 hx).elim (op_half x) (op_half x)

theorem loaded_blanked {d : Driver} (h : d.blanking_on = true) : loaded d = (0, { d with dirty := true }) := if_pos h

/-- With blanking on, a load whose halves both go out only sets `dirty`. -/
theorem stream_write_blanked {s : Driver × σ} (hzero0 : (stream_half fill .EL133_CS0 s).1 = 0)
    (hzero1 : (stream_half fill .EL133_CS1 (stream_half fill .EL133_CS0 s).2).1 = 0)
    (hblank : s.1.blanking_on = true) :
    (el133uf1_stream_write fill s).1 = 0 ∧ (el133uf1_stream_write fill s).2.1 =
      { (stream_half fill .EL133_CS1 (stream_half fill .EL133_CS0 s).2).2.1 with dirty := true } := by
  have hflags0 := onWires_sameFlags.keeps_stream_half fill .EL133_CS0 s
  have hflags1 := onWires_sameFlags.keeps_stream_half fill .EL133_CS1 (stream_half fill .EL133_CS0 s).2
  unfold el133uf1_stream_write
  simp only [bind_app, hzero0, hzero1, Int.lt_irrefl, if_false, drv]
  rw [loaded_blanked (hflags1.1.trans (hflags0.1.trans hblank))]
  exact ⟨rfl, rfl⟩

/-- A load fails in one of its halves, or both are out and its end is `loaded`. -/
theorem stream_write_cases (hfeed : Feeds left fill) {s : Driver × σ} (hr : s.1.panel.Rested) :
    ∃ d load, d.panel.rx = s.1.panel.rx ++ load ∧ d.panel.Rested ∧ SameFlags s.1 d ∧ Sent (left s.2) load ∧
      ((el133uf1_stream_write fill s).1 < 0 ∧ (el133uf1_stream_write fill s).2.1 = d ∧
          ((stream_half fill .EL133_CS0 s).1 < 0 ∨
            (stream_half fill .EL133_CS1 (stream_half fill .EL133_CS0 s).2).1 < 0) ∨
        (el133uf1_stream_write fill s).1 = (loaded d).1 ∧ (el133uf1_stream_write fill s).2.1 = (loaded d).2 ∧
          ∃ s0 s1, load = half .c0 s0 ++ half .c1 s1 ∧ s0 ++ s1 <+: left s.2 ∧
            s0.length = EL133_HALF_BYTES ∧ s1.length = EL133_HALF_BYTES) := by
  have hcs0 : ∀ c', Cs.EL133_CS0.has c' = decide (c' = .c0) := fun _ => rfl
  have hcs1 : ∀ c', Cs.EL133_CS1.has c' = decide (c' = .c1) := fun _ => rfl
  unfold el133uf1_stream_write
  simp only [bind_app]
  obtain ⟨new0, hrx0, hr0, hflags0, hres0⟩ := stream_half_spec hfeed hcs0 hr
  generalize stream_half fill .EL133_CS0 s = r at hrx0 hr0 hflags0 hres0 ⊢
  obtain ⟨ret0, d0, u0⟩ := r
  dsimp only at hrx0 hr0 hflags0 hres0 ⊢
  rcases hres0 with ⟨hneg, hnew⟩ | ⟨rfl, s0, rfl, hleft, hlen0⟩
  · rw [if_pos hneg]
    refine ⟨d0, new0, hrx0, hr0, hflags0, ?_, .inl ⟨hneg, rfl, .inl hneg⟩⟩
    rcases hnew with rfl | ⟨s0, rfl, hpre, hlen⟩
    · exact .nothing
    · exact .left hpre hlen
  rw [if_neg (by decide)]
  simp only [bind_app]
  obtain ⟨new1, hrx1, hr1, hflags1, hres1⟩ := stream_half_spec hfeed hcs1 (s := (d0, u0)) hr0
  generalize stream_half fill .EL133_CS1 (d0, u0) = r at hrx1 hr1 hflags1 hres1 ⊢
  obtain ⟨ret1, d1, u1⟩ := r
  dsimp only at hrx1 hr1 hflags1 hres1 ⊢
  have hrx : d1.panel.rx = s.1.panel.rx ++ (half .c0 s0 ++ new1) := by rw [hrx1, hrx0, List.append_assoc]
  have hflags : SameFlags s.1 d1 := trans_of SameFlags hflags0 hflags1
  rcases hres1 with ⟨hneg, hnew⟩ | ⟨rfl, s1, rfl, hleft1, hlen1⟩
  · rw [if_pos hneg]
    refine ⟨d1, _, hrx, hr1, hflags, ?_, .inl ⟨hneg, rfl, .inr hneg⟩⟩
    rcases hnew with rfl | ⟨s1, rfl, hpre, hlen⟩
    · rw [List.append_nil]
      exact .left (hleft ▸ List.prefix_append _ _) (Nat.le_of_eq hlen0)
    · exact .right (hleft ▸ (List.prefix_append_right_inj s0).2 hpre) hlen0 hlen
  · rw [if_neg (by decide)]
    have hpre : s0 ++ s1 <+: left s.2 := by
      rw [hleft, hleft1, ← List.append_assoc]
      exact List.prefix_append _ _
    exact ⟨d1, _, hrx, hr1, hflags, .right hpre hlen0 (Nat.le_of_eq hlen1),
      .inr ⟨rfl, rfl, s0, s1, rfl, hpre, hlen0, hlen1⟩⟩

/-- With blanking on, a load refreshes nothing; when it succeeds, both halves are out. -/
theorem stream_write_spec (hfeed : Feeds left fill) {s : Driver × σ} (hr : s.1.panel.Rested)
    (hblank : s.1.blanking_on = true) :
    ∃ new, (el133uf1_stream_write fill s).2.1.panel.rx = s.1.panel.rx ++ new ∧
      (el133uf1_stream_write fill s).2.1.panel.Rested ∧ Sent (left s.2) new ∧
      ((el133uf1_stream_write fill s).1 < 0 ∨
        (el133uf1_stream_write fill s).2.1.dirty = true ∧
          ∃ s0 s1, new = half .c0 s0 ++ half .c1 s1 ∧ s0 ++ s1 <+: left s.2 ∧
            s0.length = EL133_HALF_BYTES ∧ s1.length = EL133_HALF_BYTES) := by
  obtain ⟨d, load, hrx, hr', hflags, hsent, hres⟩ := stream_write_cases hfeed hr
  rcases hres with ⟨hneg, hend, -⟩ | ⟨-, hend, hhalves⟩
  · rw [hend]
    exact ⟨load, hrx, hr', hsent, .inl hneg⟩
  · rw [hend, loaded_blanked (hflags.1.trans hblank)]
    exact ⟨load, hrx, hr', hsent, .inr ⟨rfl, hhalves⟩⟩

end

/-- The bytes of a load, and the halves that they went to. -/
theorem Sent.frame_bytes {frame : Bytes} {load : List Rx} (h : Sent frame load) :
    frame_bytes load <+: frame.take EL133_PAYLOAD_BYTES ∧
      frame_bytes_of .c0 load = (EinkNode.El133.frame_bytes load).take EL133_HALF_BYTES ∧
      frame_bytes_of .c1 load = (EinkNode.El133.frame_bytes load).drop EL133_HALF_BYTES := by
  have htwo : EL133_PAYLOAD_BYTES = EL133_HALF_BYTES + EL133_HALF_BYTES := by decide
  cases h with
  | nothing => exact ⟨List.nil_prefix, rfl, rfl⟩
  | @left s0 hpre hlen =>
    simp only [EinkNode.El133.frame_bytes, frame_bytes_of, filterMap_half]
    refine ⟨List.prefix_take_iff.2 ⟨hpre, ?_⟩, (List.take_of_length_le hlen).symm, (List.drop_of_length_le hlen).symm⟩
    rw [htwo]
    exact Nat.le_trans hlen (Nat.le_add_right _ _)
  | @right s0 s1 hpre hlen0 hlen1 =>
    simp only [EinkNode.El133.frame_bytes, frame_bytes_of, List.filterMap_append, filterMap_half]
    refine ⟨List.prefix_take_iff.2 ⟨hpre, ?_⟩, ?_, ?_⟩
    · have hlen : (s0 ++ s1).length = s0.length + s1.length := List.length_append
      exact hlen ▸ htwo ▸ hlen0 ▸ Nat.add_le_add_left (hlen0.symm ▸ hlen1) _
    · exact (List.append_nil s0).trans (List.take_left' hlen0).symm
    · exact (List.nil_append s1).trans (List.drop_left' hlen0).symm

end EinkNode.El133
