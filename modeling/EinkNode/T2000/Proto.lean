import EinkNode.T2000.Usb
/-!
# Commands and replies of the T2000

F1 commands, F2 reads, and the two queries that read a reply into a local buffer:
the panel's data and the busy status.
-/

namespace EinkNode

open NodeLib

namespace T2000

def T2000_CMD_LEN : Nat := 21

structure Info where
  panel_width : UInt16
  panel_height : UInt16
  tcon_ver : UInt32
  firm_ver : Bytes
  panel_id : UInt8
  vcom : Int16
  wf_lut_version : Bytes
deriving DecidableEq

/-- `cmd`, all zero but for its first two bytes. -/
def f1 (opcode : UInt8) : Bytes := [0xF1, opcode] ++ List.replicate (T2000_CMD_LEN - 2) 0

/-- `req`. -/
def f2 (opcode : UInt8) (length : UInt16) : Bytes :=
  [0xF2, opcode, 0, (length &&& 0xff).toUInt8, ((length >>> 8) &&& 0xff).toUInt8]

def cmd_f2_read (l : Link) (opcode : UInt8) (length : UInt16) (out : Cells) (out_len : Nat) : Int × Cells × Link :=
  match eink_t2000_usb_bulk_out l (f2 opcode length) with
  | (ret, l) => if ret ≠ 0 then (ret, out, l) else eink_t2000_usb_bulk_in l out (min out_len length.toNat)

def high_first (d : Cells) (i : Nat) : UInt16 := (d i).toUInt16 <<< 8 ||| (d (i + 1)).toUInt16

def low_first (d : Cells) (i : Nat) : UInt16 := (d i).toUInt16 ||| (d (i + 1)).toUInt16 <<< 8

/-- What `eink_t2000_get_info` makes of the reply. -/
def info_of (data_in : Cells) : Info where
  panel_width := high_first data_in 0
  panel_height := high_first data_in 2
  -- `memcpy` into a little-endian `uint32_t`
  tcon_ver := (low_first data_in 4).toUInt32 ||| (low_first data_in 6).toUInt32 <<< 16
  firm_ver := data_in.read 8 8
  panel_id := data_in 84
  vcom := (low_first data_in 80).toInt16
  wf_lut_version := data_in.read 24 48 ++ [0]

/-- With the caller's struct, `none` for a null pointer, and the local buffer as it is found. -/
def eink_t2000_get_info (ready : Bool) (info : Option Info) (data_in : Cells) (l : Link) : Int × Option Info × Link :=
  match info with
  | none => (-EINVAL, none, l)
  | some info =>
    if ready = false then (-ENODEV, some info, l)
    else
      match eink_t2000_usb_bulk_out l (f1 0xE0) with
      | (ret, l) =>
        if ret ≠ 0 then (ret, some info, l)
        else
          match cmd_f2_read l 0xE0 86 data_in 86 with
          | (ret, data_in, l) => if ret ≠ 0 then (ret, some info, l) else (0, some (info_of data_in), l)

/-- What `eink_t2000_get_status` makes of the reply. -/
def status_of (data_in : Cells) : Int := ((data_in 0).toNat ||| (data_in 1).toNat <<< 8 : Nat)

def eink_t2000_get_status (ready : Bool) (data_in : Cells) (l : Link) : Int × Link :=
  if ready = false then (-ENODEV, l)
  else
    match eink_t2000_usb_bulk_out l (f1 0x4F) with
    | (ret, l) =>
      if ret ≠ 0 then (ret, l)
      else
        match cmd_f2_read l 0x4F 2 data_in 20 with
        | (ret, data_in, l) =>
          if ret ≠ 0 then (ret, l) else (status_of data_in, l)

/-! ## One query -/

/-- The next calls of `bulk_xfer` all complete without an error. -/
def Link.Fine (l : Link) (n : Nat) : Prop := ∀ i < n, (l.met (l.calls + i)).ok = true

theorem bulk_out_ok {l : Link} (h : (l.met l.calls).ok = true) (data : Bytes) :
    eink_t2000_usb_bulk_out l data = (0, l.spend [data]) := by
  rw [eink_t2000_usb_bulk_out, bulk_xfer_ret, (ret_eq_zero _).2 h]

/-- A read that is answered: what came, as far as it was asked for, is in front of what `out` held. -/
theorem cmd_f2_read_ok {l : Link} (h : l.Fine 2) (opcode : UInt8) (length : UInt16) (out_len : Nat) (out : Cells) :
    cmd_f2_read l opcode length out out_len =
      (0, out.write ((l.met (l.calls + 1)).received.take (min out_len length.toNat)),
        (l.spend [f2 opcode length]).spend []) := by
  have hin : ((l.spend [f2 opcode length]).met (l.spend [f2 opcode length]).calls).ok = true := h 1 (by decide)
  rw [cmd_f2_read, bulk_out_ok (h 0 (by decide))]
  change eink_t2000_usb_bulk_in (l.spend [f2 opcode length]) out (min out_len length.toNat) = _
  rw [eink_t2000_usb_bulk_in, bulk_xfer_in hin]
  rfl

/-- A read that is not: an error, whatever `out` held. -/
theorem cmd_f2_read_fails {l : Link} (h : ¬ l.Fine 2) (opcode : UInt8) (length : UInt16) (out_len : Nat) :
    ∃ ret l', ret < 0 ∧ ∀ out, ∃ out', cmd_f2_read l opcode length out out_len = (ret, out', l') := by
  cases h0 : (l.met l.calls).ok with
  | false =>
    have hlt := ret_neg h0
    refine ⟨_, l.spend [f2 opcode length], hlt, fun out => ⟨out, ?_⟩⟩
    rw [cmd_f2_read, eink_t2000_usb_bulk_out, bulk_xfer_ret]
    exact if_pos (Int.ne_of_lt hlt)
  | true =>
    have h1 : (l.met (l.calls + 1)).ok = false := by
      rw [Bool.eq_false_iff]
      intro h1
      apply h
      intro i hi
      obtain rfl | rfl : i = 0 ∨ i = 1 := by omega
      · exact h0
      · exact h1
    have hlt := ret_neg h1
    refine ⟨_, (l.spend [f2 opcode length]).spend [], hlt, fun out => ?_⟩
    refine ⟨(bulk_xfer (l.met (l.calls + 1)) out (min out_len length.toNat) false).2, ?_⟩
    rw [cmd_f2_read, bulk_out_ok h0, ← bulk_xfer_ret _ out (min out_len length.toNat) false]
    rfl

/-- The F1 command, and the F2 read of its reply: what both queries do with the bus. -/
def query (l : Link) (opcode : UInt8) (length : UInt16) (out : Cells) (out_len : Nat) : Int × Cells × Link :=
  match eink_t2000_usb_bulk_out l (f1 opcode) with
  | (ret, l) => if ret ≠ 0 then (ret, out, l) else cmd_f2_read l opcode length out out_len

/-- The link after all transfers of a query. -/
def Link.queried (l : Link) (opcode : UInt8) (length : UInt16) : Link :=
  ((l.spend [f1 opcode]).spend [f2 opcode length]).spend []

/-- What came for the F2 read, the third transfer. -/
def Link.reply (l : Link) : Bytes := (l.met (l.calls + 2)).received

theorem fine_spend {l : Link} (h0 : (l.met l.calls).ok = true) (data : List Bytes) :
    (l.spend data).Fine 2 ↔ l.Fine 3 := by
  constructor
  · intro h i hi
    cases i with
    | zero => exact h0
    | succ i =>
      have hi' := h i (by omega)
      rwa [Link.spend, Nat.add_right_comm, Nat.add_assoc] at hi'
  · intro h i hi
    have hi' := h (i + 1) (by omega)
    rwa [← Nat.add_assoc, Nat.add_right_comm] at hi'

theorem query_of_ok {l : Link} (h0 : (l.met l.calls).ok = true) (opcode : UInt8) (length : UInt16) (out : Cells)
    (out_len : Nat) :
    query l opcode length out out_len = cmd_f2_read (l.spend [f1 opcode]) opcode length out out_len := by
  rw [query, bulk_out_ok h0]
  rfl

theorem query_ok {l : Link} (h : l.Fine 3) (opcode : UInt8) (length : UInt16) (out_len : Nat) (out : Cells) :
    query l opcode length out out_len =
      (0, out.write (l.reply.take (min out_len length.toNat)), l.queried opcode length) := by
  have h0 : (l.met l.calls).ok = true := h 0 (by decide)
  rw [query_of_ok h0, cmd_f2_read_ok ((fine_spend h0 [f1 opcode]).2 h)]
  rfl

theorem query_fails {l : Link} (h : ¬ l.Fine 3) (opcode : UInt8) (length : UInt16) (out_len : Nat) :
    ∃ ret l', ret < 0 ∧ ∀ out, ∃ out', query l opcode length out out_len = (ret, out', l') := by
  cases h0 : (l.met l.calls).ok with
  | false =>
    have hlt := ret_neg h0
    refine ⟨_, l.spend [f1 opcode], hlt, fun out => ⟨out, ?_⟩⟩
    rw [query, eink_t2000_usb_bulk_out, bulk_xfer_ret]
    exact if_pos (Int.ne_of_lt hlt)
  | true =>
    have hfails : ¬ (l.spend [f1 opcode]).Fine 2 := fun hfine => h ((fine_spend h0 [f1 opcode]).1 hfine)
    obtain ⟨ret, l', hlt, hread⟩ := cmd_f2_read_fails hfails opcode length out_len
    refine ⟨ret, l', hlt, fun out => ?_⟩
    rw [query_of_ok h0]
    exact hread out

/-! ## The replies -/

theorem get_info_eq (info : Info) (data_in : Cells) (l : Link) :
    eink_t2000_get_info true (some info) data_in l =
      match query l 0xE0 86 data_in 86 with
      | (ret, data_in, l) => if ret ≠ 0 then (ret, some info, l) else (0, some (info_of data_in), l) := by
  rw [eink_t2000_get_info, if_neg (by decide), query]
  cases eink_t2000_usb_bulk_out l (f1 0xE0) with
  | mk ret l1 =>
    dsimp only
    split
    · rfl
    · rfl

theorem get_status_eq (data_in : Cells) (l : Link) :
    eink_t2000_get_status true data_in l =
      match query l 0x4F 2 data_in 20 with
      | (ret, data_in, l) =>
        if ret ≠ 0 then (ret, l) else (status_of data_in, l) := by
  rw [eink_t2000_get_status, if_neg (by decide), query]
  cases eink_t2000_usb_bulk_out l (f1 0x4F) with
  | mk ret l1 =>
    dsimp only
    split
    · rfl
    · rfl

/-- `eink_t2000_get_info` comes to the reply, of which it asked for 86 bytes. -/
def InfoRead (ready : Bool) (info : Option Info) (l : Link) : Prop := ready = true ∧ info.isSome = true ∧ l.Fine 3

/-- `eink_t2000_get_status` comes to the reply, of which it asked for 2 bytes. -/
def StatusRead (ready : Bool) (l : Link) : Prop := ready = true ∧ l.Fine 3

theorem get_info_read {ready : Bool} {info : Option Info} {l : Link} (h : InfoRead ready info l) (data_in : Cells) :
    eink_t2000_get_info ready info data_in l =
      (0, some (info_of (data_in.write (l.reply.take 86))), l.queried 0xE0 86) := by
  obtain ⟨rfl, hinfo, hfine⟩ := h
  obtain ⟨info, rfl⟩ := Option.isSome_iff_exists.1 hinfo
  rw [get_info_eq, query_ok hfine]
  rfl

theorem get_status_read {ready : Bool} {l : Link} (h : StatusRead ready l) (data_in : Cells) :
    eink_t2000_get_status ready data_in l =
      (status_of (data_in.write (l.reply.take 2)), l.queried 0x4F 2) := by
  obtain ⟨rfl, hfine⟩ := h
  rw [get_status_eq, query_ok hfine]
  rfl

/-- Otherwise an error is returned, the caller's struct stays as it is, and the local buffer makes no difference. -/
theorem get_info_fails {ready : Bool} {info : Option Info} {l : Link} (h : ¬ InfoRead ready info l) :
    ∃ ret l', ret < 0 ∧ ∀ data_in, eink_t2000_get_info ready info data_in l = (ret, info, l') := by
  cases info with
  | none => exact ⟨-EINVAL, l, by decide, fun _ => rfl⟩
  | some info =>
    cases ready with
    | false => exact ⟨-ENODEV, l, by decide, fun _ => rfl⟩
    | true =>
      obtain ⟨ret, l', hlt, hquery⟩ := query_fails (fun hfine => h ⟨rfl, rfl, hfine⟩) 0xE0 86 86
      refine ⟨ret, l', hlt, fun data_in => ?_⟩
      obtain ⟨out', hout⟩ := hquery data_in
      rw [get_info_eq, hout]
      exact if_pos (Int.ne_of_lt hlt)

theorem get_status_fails {ready : Bool} {l : Link} (h : ¬ StatusRead ready l) :
    ∃ ret l', ret < 0 ∧ ∀ data_in, eink_t2000_get_status ready data_in l = (ret, l') := by
  cases ready with
  | false => exact ⟨-ENODEV, l, by decide, fun _ => rfl⟩
  | true =>
    obtain ⟨ret, l', hlt, hquery⟩ := query_fails (fun hfine => h ⟨rfl, hfine⟩) 0x4F 2 20
    refine ⟨ret, l', hlt, fun data_in => ?_⟩
    obtain ⟨out', hout⟩ := hquery data_in
    rw [get_status_eq, hout]
    exact if_pos (Int.ne_of_lt hlt)

/-! ## What the local buffer held before -/

theorem info_of_congr {d d' : Cells} (h : ∀ i < 85, d i = d' i) : info_of d = info_of d' := by
  have hhigh : ∀ i, i + 1 < 85 → high_first d i = high_first d' i := by
    intro i hi
    rw [high_first, high_first, h i (by omega), h (i + 1) hi]
  have hlow : ∀ i, i + 1 < 85 → low_first d i = low_first d' i := by
    intro i hi
    rw [low_first, low_first, h i (by omega), h (i + 1) hi]
  have hread : ∀ start n, start + n ≤ 85 → d.read start n = d'.read start n := fun start n hn =>
    read_congr fun i hi => h (start + i) (by omega)
  rw [info_of, info_of, hhigh 0 (by decide), hhigh 2 (by decide), hlow 4 (by decide), hlow 6 (by decide),
    hlow 80 (by decide), hread 8 8 (by decide), hread 24 48 (by decide), h 84 (by decide)]

theorem status_of_congr {d d' : Cells} (h : ∀ i < 2, d i = d' i) : status_of d = status_of d' := by
  rw [status_of, status_of, h 0 (by decide), h 1 (by decide)]

/-- Two buffers after the same bytes came to their front. -/
theorem write_congr {d d' : Cells} {b : Bytes} {i : Nat} (h : i < b.length) : d.write b i = d'.write b i := by
  rw [write_of_lt h, write_of_lt h]

/-- The panel's data is of the reply only, and there is none without it. -/
def InfoArrived (ready : Bool) (info : Option Info) (l : Link) : Prop :=
  (∀ data_in, (eink_t2000_get_info ready info data_in l).1 = 0 → 86 ≤ l.reply.length) ∧
    ∀ data_in data_in', eink_t2000_get_info ready info data_in l = eink_t2000_get_info ready info data_in' l

/-- The status is of the reply only, and there is none without it. -/
def StatusArrived (ready : Bool) (l : Link) : Prop :=
  (∀ data_in, 0 ≤ (eink_t2000_get_status ready data_in l).1 → 2 ≤ l.reply.length) ∧
    ∀ data_in data_in', eink_t2000_get_status ready data_in l = eink_t2000_get_status ready data_in' l

theorem info_arrived_iff (ready : Bool) (info : Option Info) (l : Link) :
    InfoArrived ready info l ↔ (InfoRead ready info l → 86 ≤ l.reply.length) := by
  constructor
  · intro h hread
    apply h.1 fun _ => 0
    rw [get_info_read hread]
  · intro hwhole
    by_cases hread : InfoRead ready info l
    · have hlen := hwhole hread
      refine ⟨fun _ _ => hlen, fun data_in data_in' => ?_⟩
      rw [get_info_read hread, get_info_read hread]
      have htake : (l.reply.take 86).length = 86 := List.length_take_of_le hlen
      rw [info_of_congr fun i hi => write_congr (by omega)]
    · obtain ⟨ret, l', hlt, hfails⟩ := get_info_fails hread
      refine ⟨fun data_in hret => ?_, fun data_in data_in' => by rw [hfails, hfails]⟩
      rw [hfails] at hret
      exact absurd hret (Int.ne_of_lt hlt)

theorem status_arrived_iff (ready : Bool) (l : Link) :
    StatusArrived ready l ↔ (StatusRead ready l → 2 ≤ l.reply.length) := by
  constructor
  · intro h hread
    apply h.1 fun _ => 0
    rw [get_status_read hread]
    exact Int.natCast_nonneg _
  · intro hwhole
    by_cases hread : StatusRead ready l
    · have hlen := hwhole hread
      refine ⟨fun _ _ => hlen, fun data_in data_in' => ?_⟩
      have htake : (l.reply.take 2).length = 2 := List.length_take_of_le hlen
      rw [get_status_read hread, get_status_read hread]
      rw [status_of_congr fun i hi => write_congr (by omega)]
    · obtain ⟨ret, l', hlt, hfails⟩ := get_status_fails hread
      refine ⟨fun data_in hret => ?_, fun data_in data_in' => by rw [hfails, hfails]⟩
      rw [hfails] at hret
      exact absurd hret (Int.not_le.2 hlt)

/-- The last byte of the reply is not looked at: from 85 bytes on, the local buffer makes no difference. -/
theorem info_independent_iff (ready : Bool) (info : Option Info) (l : Link) :
    (∀ data_in data_in', eink_t2000_get_info ready info data_in l = eink_t2000_get_info ready info data_in' l) ↔
      (InfoRead ready info l → 85 ≤ l.reply.length) := by
  constructor
  · intro h hread
    by_contra hshort
    have hsame := h (fun _ => 0) (fun _ => 1)
    rw [get_info_read hread, get_info_read hread] at hsame
    have hid := congrArg Info.panel_id (Option.some.inj (congrArg (fun r => r.2.1) hsame))
    have htake : (l.reply.take 86).length ≤ 84 := by
      rw [List.length_take]
      omega
    change Cells.write (fun _ => 0) _ 84 = Cells.write (fun _ => 1) _ 84 at hid
    rw [write_of_ge htake, write_of_ge htake] at hid
    exact absurd hid (by decide)
  · intro hlen data_in data_in'
    by_cases hread : InfoRead ready info l
    · have hlen' := hlen hread
      have htake : 85 ≤ (l.reply.take 86).length := by
        rw [List.length_take]
        omega
      rw [get_info_read hread, get_info_read hread, info_of_congr fun i hi => write_congr (by omega)]
    · obtain ⟨ret, l', -, hfails⟩ := get_info_fails hread
      rw [hfails, hfails]

/-- The two queries use a reply that arrived, and nothing else, just where no F2 read of them
completes short without an error. -/
theorem replies_arrived_iff (ready : Bool) (info : Option Info) (l : Link) :
    (InfoArrived ready info l ↔ (InfoRead ready info l → 86 ≤ l.reply.length)) ∧
      (StatusArrived ready l ↔ (StatusRead ready l → 2 ≤ l.reply.length)) :=
  ⟨info_arrived_iff ready info l, status_arrived_iff ready l⟩

/-- A device that takes both commands, and whose IN transfer completes without an error and without a byte. -/
def empty_reply (opcode : UInt8) (length : UInt16) : Link where
  met := fun i => .done XferErr.none (if i = 0 then f1 opcode else if i = 1 then f2 opcode length else [])
  calls := 0
  sent := []

theorem empty_reply_used :
    ¬ InfoArrived true (some (info_of fun _ => 0)) (empty_reply 0xE0 86) ∧
      ¬ StatusArrived true (empty_reply 0x4F 2) := by
  constructor
  · intro h
    exact absurd (h.1 (fun _ => 0) rfl) (by decide)
  · intro h
    exact absurd (h.1 (fun _ => 0) (by decide)) (by decide)

end T2000

end EinkNode
