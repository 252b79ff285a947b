import EinkNode.Lib.Attempts
import EinkNode.Lib.Wire
import EinkNode.T2000.Proto
/-!
# Filling the T2000's panel

`eink_t2000_fill` asks for the panel's data, switches the device to the mode, sends
one colour for every pixel in cuts of a stripe, each behind a command that says how
long it is, triggers the refresh and waits until the device is idle again.
-/

namespace EinkNode

open NodeLib

namespace T2000

def T2000_DATA_MODE_Y8 : UInt8 := 1

def EINK_T2000_STRIPE_BYTES : Nat := 4096 * 4

/-- What the functions have around them: the bus, the device that may come and go, the clock. -/
structure Host where
  link : Link
  /-- what the calls of `eink_t2000_ready` answer -/
  ready : Nat → Bool
  asked : Nat
  /-- the local buffer of each query, as it is found -/
  stack : Nat → Cells
  queries : Nat
  /-- `k_uptime_get` -/
  uptime : Int
  /-- what passes before a sleep or a look at the clock, on top of all sleeps -/
  late : Nat → Nat
  looks : Nat

namespace Host

def eink_t2000_ready (h : Host) : Bool × Host := (h.ready h.asked, { h with asked := h.asked + 1 })

def k_msleep (h : Host) (ms : Nat) : Host :=
  { h with uptime := h.uptime + h.late h.looks + ms, looks := h.looks + 1 }

def k_uptime_get (h : Host) : Int × Host := ((h.k_msleep 0).uptime, h.k_msleep 0)

def bulk_out (data : Bytes) (h : Host) : Int × Host :=
  match eink_t2000_usb_bulk_out h.link data with
  | (ret, link) => (ret, { h with link })

def get_info (info : Info) (h : Host) : Int × Option Info × Host :=
  match eink_t2000_get_info (h.ready h.asked) (some info) (h.stack h.queries) h.link with
  | (ret, info, link) => (ret, info, { h with link, asked := h.asked + 1, queries := h.queries + 1 })

/-- With the two sleeps of a query that went well. -/
def get_status (h : Host) : Int × Host :=
  match eink_t2000_get_status (h.ready h.asked) (h.stack h.queries) h.link with
  | (ret, link) => (ret, { h with link, asked := h.asked + 1, queries := h.queries + 1 }.k_msleep (200 + 50))

end Host

/-! ## Commands -/

/-- `cmd` with a payload. -/
def f1_cmd (opcode : UInt8) (payload : Bytes) : Bytes :=
  [0xF1, opcode, .ofNat payload.length, 0, 0] ++
    (payload.take (T2000_CMD_LEN - 5) ++ List.replicate (T2000_CMD_LEN - 5 - payload.length) 0)

def cmd_f1 (opcode : UInt8) (payload : Bytes) (h : Host) : Int × Host := h.bulk_out (f1_cmd opcode payload)

/-- An F1 command to a device that is there. -/
def cmd_f1_if_ready (opcode : UInt8) (payload : Bytes) (h : Host) : Int × Host :=
  match h.eink_t2000_ready with
  | (ready, h) => if ready = false then (-ENODEV, h) else cmd_f1 opcode payload h

def eink_t2000_clear (h : Host) : Int × Host := cmd_f1_if_ready 0x40 [0x01, 0x00] h

def eink_t2000_set_mode (wf_mode : UInt8) (h : Host) : Int × Host :=
  cmd_f1_if_ready 0x43 [wf_mode, wf_mode, wf_mode, 0] h

def multi_trigger_enable (enable : UInt8) (h : Host) : Int × Host := cmd_f1 0x4C [enable, 0x00] h

/-- The command of `multi_trigger`. -/
def trigger_cmd (x y width height : UInt16) : Bytes :=
  [0xF1, 0x4D, 0x0A, 0, 0, 0x01, 0] ++
    (leBytes 2 x.toNat ++ leBytes 2 y.toNat ++ leBytes 2 width.toNat ++ leBytes 2 height.toNat)

def multi_trigger (x y width height : UInt16) (h : Host) : Int × Host := h.bulk_out (trigger_cmd x y width height)

/-- The command of `display_chunk`. -/
def chunk_cmd (chunk_len totalsize : Nat) (x y width height : UInt16) (mode : UInt8) : Bytes :=
  [0xF1, 0xA1, 25, 0, 0, mode] ++
    (leBytes 2 width.toNat ++ leBytes 2 height.toNat ++ leBytes 2 x.toNat ++ leBytes 2 y.toNat ++
      leBytes 4 chunk_len ++ leBytes 4 totalsize ++ List.replicate 8 0)

def display_chunk (y8 : Bytes) (chunk_len totalsize : Nat) (x y width height : UInt16) (mode : UInt8) (h : Host) :
    Int × Host :=
  orReturn (h.bulk_out (chunk_cmd chunk_len totalsize x y width height mode)) fun h =>
    (h.k_msleep 1).bulk_out (y8.take chunk_len)

/-! ## The fill -/

/-- Each round: the status, and the time if there is a limit; `none` if the rounds run out. -/
def wait_loop (timeout_ms end_ : Int) : Nat → Host → Option (Int × Host)
  | 0, _ => none
  | rounds + 1, h =>
    match h.get_status with
    | (st, h) =>
      if st < 0 then some (st, h)
      else if st = 0 then some (0, h)
      else if 0 ≤ timeout_ms then
        match h.k_uptime_get with
        | (now, h) => if end_ ≤ now then some (-ETIMEDOUT, h) else wait_loop timeout_ms end_ rounds (h.k_msleep 100)
      else wait_loop timeout_ms end_ rounds (h.k_msleep 100)

def eink_t2000_wait_idle (rounds : Nat) (timeout_ms : Int) (h : Host) : Option (Int × Host) :=
  match h.k_uptime_get with
  | (now, h) => wait_loop timeout_ms (now + timeout_ms) rounds h

def fill_cut : Nat := min (524288 * 4) EINK_T2000_STRIPE_BYTES

theorem fill_cut_pos : 0 < fill_cut := by decide

/-- The cuts after the first. -/
def fill_rest (stripe : Bytes) (totalsize : Nat) (width height : UInt16) (sent : Nat) (h : Host) : Int × Host :=
  if sent < totalsize then
    let n := min fill_cut (totalsize - sent)
    match display_chunk stripe n totalsize 0 0 width height T2000_DATA_MODE_Y8 h with
    | (ret, h) => if ret ≠ 0 then (ret, h) else fill_rest stripe totalsize width height (sent + n) h
  else (0, h)
termination_by totalsize - sent
decreasing_by
  have := fill_cut_pos
  omega

/-- The commands and the data between the query and the wait. -/
def fill_sends (totalsize : Nat) (width height : UInt16) (y8_index wf_mode : UInt8) (h : Host) : Int × Host :=
  let stripe := List.replicate EINK_T2000_STRIPE_BYTES y8_index
  let first_cut := min totalsize EINK_T2000_STRIPE_BYTES
  orReturn (multi_trigger_enable 1 h) fun h =>
    orReturn (eink_t2000_set_mode wf_mode h) fun h =>
      orReturn (display_chunk stripe first_cut totalsize 0 0 width height T2000_DATA_MODE_Y8 h) fun h =>
        orReturn (fill_rest stripe totalsize width height first_cut h) fun h =>
          multi_trigger 0 0 width height h

/-- With `info` as it is found, and at most so many status rounds. -/
def eink_t2000_fill (rounds : Nat) (info : Info) (y8_index wf_mode : UInt8) (h : Host) : Option (Int × Host) :=
  match h.eink_t2000_ready with
  | (ready, h) =>
    if ready = false then some (-ENODEV, h)
    else
      match h.get_info info with
      | (ret, info', h) =>
        if ret ≠ 0 then some (ret, h)
        else
          let info := info'.getD info
          if info.panel_width = 0 ∨ info.panel_height = 0 then some (-EINVAL, h)
          else
            let totalsize := info.panel_width.toNat * info.panel_height.toNat % 2 ^ 32
            match fill_sends totalsize info.panel_width info.panel_height y8_index wf_mode h with
            | (ret, h) => if ret ≠ 0 then some (ret, h) else eink_t2000_wait_idle rounds 30000 h

/-! ## Cuts -/

/-- Whole stripes, and what is left of `total`. -/
def cuts (total : Nat) : List Nat :=
  List.replicate (total / fill_cut) fill_cut ++ if total % fill_cut = 0 then [] else [total % fill_cut]

theorem cuts_zero : cuts 0 = [] := by
  rw [cuts, Nat.zero_div, Nat.zero_mod, List.replicate_zero, if_pos rfl, List.nil_append]

theorem cuts_of_pos {n : Nat} (h : 0 < n) : cuts n = min fill_cut n :: cuts (n - min fill_cut n) := by
  have hpos := fill_cut_pos
  by_cases hlt : n < fill_cut
  · rw [Nat.min_eq_right (Nat.le_of_lt hlt), Nat.sub_self, cuts_zero, cuts, Nat.div_eq_of_lt hlt,
      Nat.mod_eq_of_lt hlt, if_neg (by omega), List.replicate_zero, List.nil_append]
  · have hle : fill_cut ≤ n := Nat.not_lt.1 hlt
    rw [Nat.min_eq_left hle, cuts, cuts, Nat.div_eq_sub_div hpos hle, Nat.mod_eq_sub_mod hle, List.replicate_succ,
      List.cons_append]

/-- By the cuts that `fill_rest` makes. -/
theorem cuts_induction {P : Nat → Prop} (zero : P 0) (cut : ∀ n, 0 < n → P (n - min fill_cut n) → P n) (n : Nat) :
    P n := by
  induction n using Nat.strong_induction_on with
  | _ n ih =>
    rcases Nat.eq_zero_or_pos n with rfl | hpos
    · exact zero
    · have := fill_cut_pos
      exact cut n hpos (ih _ (by omega))

theorem cuts_data (colour : UInt8) (total : Nat) :
    (cuts total).flatMap (List.replicate · colour) = List.replicate total colour := by
  induction total using cuts_induction with
  | zero => rw [cuts_zero, List.flatMap_nil, List.replicate_zero]
  | cut n hpos ih =>
    rw [cuts_of_pos hpos, List.flatMap_cons, ih, List.replicate_append_replicate]
    congr 1
    omega

theorem cuts_le {total n : Nat} (h : n ∈ cuts total) : 0 < n ∧ n ≤ EINK_T2000_STRIPE_BYTES := by
  induction total using cuts_induction with
  | zero => rw [cuts_zero] at h; cases h
  | cut m hpos ih =>
    rw [cuts_of_pos hpos] at h
    rcases List.mem_cons.1 h with rfl | h
    · have hcut : fill_cut ≤ EINK_T2000_STRIPE_BYTES := by decide
      have := fill_cut_pos
      omega
    · exact ih h

/-! ## What the bus sees -/

/-- From `s` to the end `r` of a call, over the bus `link`: `words` are sent, or the first of them in case of an
error, and every transfer but perhaps the last went through. -/
structure Did {σ : Type} (link : σ → Link) (s : σ) (words : List Bytes) (r : Int × σ) : Prop where
  met : (link r.2).met = (link s).met
  sent : Tells (fun s => (link s).sent) words s r
  through : Through (fun c => ((link s).met c).ok) (fun s => (link s).calls) s r

section
variable {σ : Type} {link : σ → Link} {s : σ} {words words' : List Bytes} {r : Int × σ}

theorem Did.orReturn {next : σ → Int × σ} (hm : Did link s words r)
    (hnext : r.1 = 0 → Did link r.2 words' (next r.2)) : Did link s (words ++ words') (orReturn r next) where
  met := by
    by_cases h : r.1 = 0
    · rw [orReturn_of_zero h, (hnext h).met, hm.met]
    · rw [orReturn_of_ne h, hm.met]
  sent := hm.sent.orReturn fun h => (hnext h).sent
  through := hm.through.orReturn fun h => by
    have ht := (hnext h).through
    rwa [hm.met] at ht

theorem did_nothing (h : link r.2 = link s) : Did link s [] r where
  met := congrArg Link.met h
  sent := tells_nil (congrArg Link.sent h)
  through := through_none (congrArg Link.calls h)

theorem did_fail (h : link r.2 = link s) (hr : r.1 ≠ 0) (words : List Bytes) : Did link s words r where
  met := congrArg Link.met h
  sent := tells_silent (congrArg Link.sent h) hr
  through := through_none (congrArg Link.calls h)

/-- One transfer. -/
theorem did_transfer (h : link r.2 = (link s).spend words)
    (hr : r.1 = ((link s).met (link s).calls).ret) : Did link s words r where
  met := by rw [h]; rfl
  sent := tells_all (by rw [h]; rfl)
  through := through_one (by rw [h]; rfl) fun h0 => (ret_eq_zero _).1 (hr.symm.trans h0)

/-- The same for another state around the bus, and with another error or with one instead of none. -/
theorem Did.of_eq {τ : Type} {link' : τ → Link} {s' : τ} {r' : Int × τ} (h : Did link s words r)
    (hs : link' s' = link s) (hlink : link' r'.2 = link r.2) (hr : r'.1 = 0 → r.1 = 0) : Did link' s' words r' where
  met := by rw [hlink, h.met, hs]
  sent := by
    obtain ⟨part, hlog, hpart, hall⟩ := h.sent
    refine ⟨part, ?_, hpart, fun h0 => hall (hr h0)⟩
    dsimp only at hlog ⊢
    rw [hlink, hs, hlog]
  through := by
    obtain ⟨hle, hall⟩ := h.through
    dsimp only at hle hall
    rw [← hlink, ← hs] at hle hall
    exact ⟨hle, fun c hc hc' => (hall c hc hc').imp_right fun hlast => ⟨fun h0 => hlast.1 (hr h0), hlast.2⟩⟩

/-- One call after the other, the first of which went well. -/
theorem Did.next {s' : σ} (h : Did link s words (0, s')) (h' : Did link s' words' r) :
    Did link s (words ++ words') r := by
  have hboth : Did link s (words ++ words') (NodeLib.orReturn (0, s') fun _ => r) := h.orReturn fun _ => h'
  rwa [orReturn_of_zero rfl] at hboth

/-- After an error, nothing that would have come later is missed. -/
theorem Did.more (h : Did link s words r) (hr : r.1 ≠ 0) (words' : List Bytes) : Did link s (words ++ words') r := by
  have hboth : Did link s (words ++ words') (NodeLib.orReturn r fun _ => r) := h.orReturn fun h0 => absurd h0 hr
  rwa [orReturn_of_ne hr] at hboth

end

/-- What a query sends. -/
def query_cmds (opcode : UInt8) (length : UInt16) : List Bytes := [f1 opcode, f2 opcode length]

theorem query_did (l : Link) (opcode : UInt8) (length : UInt16) (out : Cells) (out_len : Nat) :
    Did Prod.snd (out, l) (query_cmds opcode length) (query l opcode length out out_len) := by
  have hcmd : Did Prod.snd (out, l) [f1 opcode] ((eink_t2000_usb_bulk_out l (f1 opcode)).1, out, l.spend [f1 opcode]) :=
    did_transfer rfl (bulk_xfer_ret _ _ _ _)
  have hread (l : Link) : Did Prod.snd (out, l) [f2 opcode length] (cmd_f2_read l opcode length out out_len) := by
    have hreq : Did Prod.snd (out, l) [f2 opcode length]
        ((eink_t2000_usb_bulk_out l (f2 opcode length)).1, out, l.spend [f2 opcode length]) :=
      did_transfer rfl (bulk_xfer_ret _ _ _ _)
    have hboth : Did Prod.snd (out, l) ([f2 opcode length] ++ [])
        (NodeLib.orReturn ((eink_t2000_usb_bulk_out l (f2 opcode length)).1, out, l.spend [f2 opcode length])
          fun s => eink_t2000_usb_bulk_in s.2 s.1 (min out_len length.toNat)) :=
      hreq.orReturn fun _ => did_transfer rfl (bulk_xfer_ret _ _ _ _)
    exact hboth
  have hboth : Did Prod.snd (out, l) ([f1 opcode] ++ [f2 opcode length])
      (NodeLib.orReturn ((eink_t2000_usb_bulk_out l (f1 opcode)).1, out, l.spend [f1 opcode])
        fun s => cmd_f2_read s.2 opcode length s.1 out_len) := hcmd.orReturn fun _ => hread _
  exact hboth

theorem bulk_out_did (data : Bytes) (h : Host) : Did Host.link h [data] (h.bulk_out data) :=
  did_transfer rfl (bulk_xfer_ret _ _ _ _)

theorem cmd_f1_if_ready_did (opcode : UInt8) (payload : Bytes) (h : Host) :
    Did Host.link h [f1_cmd opcode payload] (cmd_f1_if_ready opcode payload h) := by
  rw [cmd_f1_if_ready, Host.eink_t2000_ready]
  dsimp only
  split
  · exact did_fail (by rfl) (show -ENODEV ≠ 0 by decide) _
  · exact (bulk_out_did _ { h with asked := h.asked + 1 }).of_eq rfl rfl id

/-- What one cut sends. -/
def cut_text (width height : UInt16) (total : Nat) (colour : UInt8) (n : Nat) : List Bytes :=
  [chunk_cmd n total 0 0 width height T2000_DATA_MODE_Y8, List.replicate n colour]

theorem display_chunk_did {n : Nat} (hn : n ≤ EINK_T2000_STRIPE_BYTES) (width height : UInt16) (total : Nat)
    (colour : UInt8) (h : Host) :
    Did Host.link h (cut_text width height total colour n)
      (display_chunk (List.replicate EINK_T2000_STRIPE_BYTES colour) n total 0 0 width height T2000_DATA_MODE_Y8
        h) := by
  rw [display_chunk, List.take_replicate, Nat.min_eq_left hn]
  exact (bulk_out_did _ h).orReturn fun _ => (bulk_out_did _ _).of_eq rfl rfl id

theorem fill_rest_did (width height : UInt16) (total : Nat) (colour : UInt8) (sent : Nat) (h : Host) :
    Did Host.link h ((cuts (total - sent)).flatMap (cut_text width height total colour))
      (fill_rest (List.replicate EINK_T2000_STRIPE_BYTES colour) total width height sent h) := by
  generalize hleft : total - sent = left
  induction left using cuts_induction generalizing sent h with
  | zero =>
    rw [fill_rest, if_neg (by omega), cuts_zero]
    exact did_nothing rfl
  | cut n hpos ih =>
    rw [fill_rest, if_pos (by omega), cuts_of_pos hpos, hleft, List.flatMap_cons]
    have hle : min fill_cut n ≤ EINK_T2000_STRIPE_BYTES := Nat.min_le_left fill_cut n |>.trans (Nat.min_le_right _ _)
    exact (display_chunk_did hle width height total colour h).orReturn fun _ => ih (sent + min fill_cut n) _ (by omega)

/-! ## Waiting -/

theorem query_ret_nonpos (l : Link) (opcode : UInt8) (length : UInt16) (out : Cells) (out_len : Nat) :
    (query l opcode length out out_len).1 ≤ 0 := by
  by_cases hfine : l.Fine 3
  · exact Int.le_of_eq (by rw [query_ok hfine])
  · obtain ⟨ret, l', hlt, hquery⟩ := query_fails hfine opcode length out_len
    obtain ⟨out', hout⟩ := hquery out
    rw [hout]
    exact Int.le_of_lt hlt

/-- The last transfer so far has brought a status of 0. -/
def ReadIdle (l : Link) : Prop := ∃ buf : Cells, status_of (buf.write ((l.met (l.calls - 1)).received.take 2)) = 0

theorem get_status_did (h : Host) :
    Did Host.link h (query_cmds 0x4F 2) (min h.get_status.1 0, h.get_status.2) := by
  rw [Host.get_status]
  cases h.ready h.asked with
  | false => exact did_fail (by rfl) (show min (-ENODEV) 0 ≠ 0 by decide) _
  | true =>
    have hquery := query_did h.link 0x4F 2 (h.stack h.queries) 20
    have hret := query_ret_nonpos h.link 0x4F 2 (h.stack h.queries) 20
    rw [get_status_eq]
    cases hq : query h.link 0x4F 2 (h.stack h.queries) 20 with
    | mk ret rest =>
      rw [hq] at hquery hret
      by_cases h0 : ret = 0
      · simp only [h0, ne_eq, not_true_eq_false, if_false]
        exact hquery.of_eq rfl rfl fun _ => h0
      · simp only [ne_eq, h0, not_false_eq_true, if_true]
        exact hquery.of_eq rfl rfl fun hmin => (Int.min_eq_left hret).symm.trans hmin

theorem get_status_idle {h : Host} (h0 : h.get_status.1 = 0) : ReadIdle h.get_status.2.link := by
  by_cases hread : StatusRead (h.ready h.asked) h.link
  · have hstatus := get_status_read hread (h.stack h.queries)
    rw [Host.get_status, hstatus] at h0 ⊢
    exact ⟨_, h0⟩
  · obtain ⟨ret, l', hlt, hstatus⟩ := get_status_fails hread
    rw [Host.get_status, hstatus] at h0
    exact absurd h0 (Int.ne_of_lt hlt)

theorem le_k_msleep_uptime (h : Host) (ms : Nat) : h.uptime + ms ≤ (h.k_msleep ms).uptime := by
  change h.uptime + ms ≤ h.uptime + (h.late h.looks : Int) + ms
  omega

theorem get_status_uptime (h : Host) : h.uptime + 250 ≤ h.get_status.2.uptime := le_k_msleep_uptime _ 250

/-- What so many status rounds send. -/
def polls_text (polls : Nat) : List Bytes := (List.replicate polls (query_cmds 0x4F 2)).flatten

/-- From `h` to the end `r` of the wait: status rounds, and 0 if the last of them says so. -/
def Waited (h : Host) (r : Int × Host) : Prop :=
  ∃ polls, Did Host.link h (polls_text (polls + 1)) r ∧ (r.1 = 0 → ReadIdle r.2.link)

theorem Waited.round {h h1 h2 : Host} {r : Int × Host} (hround : Did Host.link h (query_cmds 0x4F 2) (0, h1))
    (hlink : h2.link = h1.link) (hrest : Waited h2 r) : Waited h r := by
  obtain ⟨polls, hdid, hidle⟩ := hrest
  refine ⟨polls + 1, ?_, hidle⟩
  rw [polls_text, List.replicate_succ, List.flatten_cons]
  exact hround.next (hdid.of_eq hlink.symm rfl id)

theorem waited_last {h : Host} {r : Int × Host} (hround : Did Host.link h (query_cmds 0x4F 2) r)
    (hidle : r.1 = 0 → ReadIdle r.2.link) : Waited h r := by
  refine ⟨0, ?_, hidle⟩
  rw [polls_text, List.replicate_one, List.flatten_singleton]
  exact hround

/-- With a limit, the wait ends in time: each round takes 350 ms or more. -/
theorem wait_loop_ends {timeout_ms end_ : Int} (hlimit : 0 ≤ timeout_ms) {rounds : Nat} {h : Host}
    (hrounds : 0 < rounds) (hend : end_ ≤ h.uptime + 350 * rounds - 100) :
    ∃ r, wait_loop timeout_ms end_ rounds h = some r ∧ Waited h r := by
  induction rounds generalizing h with
  | zero => exact absurd hrounds (Nat.lt_irrefl 0)
  | succ rounds ih =>
    have hdid := get_status_did h
    have hidle := @get_status_idle h
    have huptime := get_status_uptime h
    rw [wait_loop]
    cases hst : h.get_status with
    | mk st h1 =>
      rw [hst] at hdid hidle huptime
      dsimp only at hdid hidle huptime ⊢
      by_cases hneg : st < 0
      · rw [if_pos hneg]
        refine ⟨_, rfl, waited_last ?_ fun h0 => absurd h0 (Int.ne_of_lt hneg)⟩
        exact hdid.of_eq rfl rfl fun h0 => absurd h0 (Int.ne_of_lt hneg)
      have hround : Did Host.link h (query_cmds 0x4F 2) (0, h1) := by
        rwa [Int.min_eq_right (Int.not_lt.1 hneg)] at hdid
      rw [if_neg hneg]
      by_cases h0 : st = 0
      · rw [if_pos h0]
        exact ⟨_, rfl, waited_last hround fun _ => hidle h0⟩
      rw [if_neg h0, if_pos hlimit]
      cases hnow : h1.k_uptime_get with
      | mk now h2 =>
        obtain ⟨rfl, rfl⟩ := Prod.mk.inj hnow
        dsimp only
        split
        · refine ⟨_, rfl, waited_last (hround.of_eq rfl rfl fun _ => rfl) fun hret => ?_⟩
          exact absurd hret (show -ETIMEDOUT ≠ 0 by decide)
        · next hearly =>
          have hlook := le_k_msleep_uptime h1 0
          have hslept := le_k_msleep_uptime (h1.k_msleep 0) 100
          obtain ⟨r, hr, hwaited⟩ := @ih ((h1.k_msleep 0).k_msleep 100) (by omega) (by omega)
          exact ⟨r, hr, hwaited.round hround (by rfl)⟩

theorem eink_t2000_wait_idle_ends {timeout_ms : Int} (hlimit : 0 ≤ timeout_ms) {rounds : Nat} (h : Host)
    (hrounds : timeout_ms + 100 ≤ 350 * rounds) :
    ∃ r, eink_t2000_wait_idle rounds timeout_ms h = some r ∧ Waited h r := by
  have hnow : h.k_uptime_get.1 = h.k_uptime_get.2.uptime := rfl
  obtain ⟨r, hr, polls, hdid, hidle⟩ :=
    @wait_loop_ends timeout_ms (h.k_uptime_get.1 + timeout_ms) hlimit rounds h.k_uptime_get.2 (by omega) (by omega)
  exact ⟨r, hr, polls, hdid.of_eq rfl rfl id, hidle⟩

/-! ## The whole fill -/

/-- The panel's data that the query of `eink_t2000_fill` gets. -/
def Host.panel (h : Host) : Info := info_of ((h.stack h.queries).write (h.link.reply.take 86))

/-- What a fill sends between the query and the status rounds. -/
def fill_text (width height : UInt16) (y8_index wf_mode : UInt8) : List Bytes :=
  [f1_cmd 0x4C [1, 0x00], f1_cmd 0x43 [wf_mode, wf_mode, wf_mode, 0]] ++
    (cuts (width.toNat * height.toNat)).flatMap (cut_text width height (width.toNat * height.toNat) y8_index) ++
    [trigger_cmd 0 0 width height]

/-- What is left of a fill with the end `ret` in `h'`. -/
structure Filled (h : Host) (y8_index wf_mode : UInt8) (ret : Int) (h' : Host) : Prop where
  /-- a transfer comes only after all before it went through -/
  went_through : ∀ c, h.link.calls ≤ c → c + 1 < h'.link.calls → (h.link.met c).ok = true
  /-- and nothing is sent but this, in this order -/
  in_order : ∃ polls sent, h'.link.sent = h.link.sent ++ sent ∧
    sent <+: query_cmds 0xE0 86 ++ fill_text h.panel.panel_width h.panel.panel_height y8_index wf_mode ++
      polls_text polls
  /-- all of it for a 0, with a device that is idle again -/
  shown : ret = 0 → h.panel.panel_width ≠ 0 ∧ h.panel.panel_height ≠ 0 ∧
    (∀ c, h.link.calls ≤ c → c < h'.link.calls → (h.link.met c).ok = true) ∧ ReadIdle h'.link ∧
    ∃ polls, h'.link.sent = h.link.sent ++ (query_cmds 0xE0 86 ++
      fill_text h.panel.panel_width h.panel.panel_height y8_index wf_mode ++ polls_text (polls + 1))

theorem get_info_did (info : Info) (h : Host) :
    Did Host.link h (query_cmds 0xE0 86) ((h.get_info info).1, (h.get_info info).2.2) ∧
      ((h.get_info info).1 = 0 → (h.get_info info).2.1 = some h.panel) := by
  rw [Host.get_info]
  cases h.ready h.asked with
  | false =>
    exact ⟨did_fail (by rfl) (show -ENODEV ≠ 0 by decide) _, fun h0 => absurd h0 (show -ENODEV ≠ 0 by decide)⟩
  | true =>
    have hquery := query_did h.link 0xE0 86 (h.stack h.queries) 86
    by_cases hfine : h.link.Fine 3
    · rw [get_info_read ⟨rfl, rfl, hfine⟩, Host.panel]
      rw [query_ok hfine] at hquery
      exact ⟨hquery.of_eq rfl rfl id, fun _ => rfl⟩
    · obtain ⟨ret, l', hlt, hfails⟩ := query_fails hfine 0xE0 86 86
      obtain ⟨out', hout⟩ := hfails (h.stack h.queries)
      rw [hout] at hquery
      have hinfo : eink_t2000_get_info true (some info) (h.stack h.queries) h.link = (ret, some info, l') := by
        rw [get_info_eq, hout]
        exact if_pos (Int.ne_of_lt hlt)
      rw [hinfo]
      exact ⟨hquery.of_eq rfl rfl id, fun h0 => absurd h0 (Int.ne_of_lt hlt)⟩

theorem fill_sends_did {width height : UInt16} (hwidth : width ≠ 0) (hheight : height ≠ 0) (y8_index wf_mode : UInt8)
    (h : Host) :
    Did Host.link h (fill_text width height y8_index wf_mode)
      (fill_sends (width.toNat * height.toNat) width height y8_index wf_mode h) := by
  have hpos : 0 < width.toNat * height.toNat := by
    apply Nat.mul_pos
    · exact Nat.pos_of_ne_zero fun h0 => hwidth (UInt16.toNat_inj.1 h0)
    · exact Nat.pos_of_ne_zero fun h0 => hheight (UInt16.toNat_inj.1 h0)
  have hcut : fill_cut = EINK_T2000_STRIPE_BYTES := by decide
  have htext : fill_text width height y8_index wf_mode =
      [f1_cmd 0x4C [1, 0x00]] ++ ([f1_cmd 0x43 [wf_mode, wf_mode, wf_mode, 0]] ++
        (cut_text width height (width.toNat * height.toNat) y8_index
            (min (width.toNat * height.toNat) EINK_T2000_STRIPE_BYTES) ++
          ((cuts (width.toNat * height.toNat - min (width.toNat * height.toNat) EINK_T2000_STRIPE_BYTES)).flatMap
              (cut_text width height (width.toNat * height.toNat) y8_index) ++
            [trigger_cmd 0 0 width height]))) := by
    rw [fill_text, cuts_of_pos hpos, hcut, Nat.min_comm, List.flatMap_cons]
    simp only [List.cons_append, List.nil_append, List.append_assoc]
  rw [htext, fill_sends]
  refine Did.orReturn (bulk_out_did _ h) fun _ => ?_
  refine (cmd_f1_if_ready_did _ _ _).orReturn fun _ => ?_
  refine (display_chunk_did (Nat.min_le_right _ _) width height _ y8_index _).orReturn fun _ => ?_
  exact (fill_rest_did width height _ y8_index _ _).orReturn fun _ => bulk_out_did _ _

/-- Below 2 ^ 32: both factors are below 2 ^ 16. -/
theorem totalsize_fits (width height : UInt16) :
    width.toNat * height.toNat % 2 ^ 32 = width.toNat * height.toNat := by
  apply Nat.mod_eq_of_lt
  have hwidth := width.toNat_lt
  have hheight := height.toNat_lt
  calc width.toNat * height.toNat < 2 ^ 16 * 2 ^ 16 := Nat.mul_lt_mul'' hwidth hheight
    _ = 2 ^ 32 := by decide

theorem filled_of_error {h : Host} {y8_index wf_mode : UInt8} {ret : Int} {h' : Host}
    (hdid : Did Host.link h (query_cmds 0xE0 86 ++
      fill_text h.panel.panel_width h.panel.panel_height y8_index wf_mode) (ret, h')) (hret : ret ≠ 0) :
    Filled h y8_index wf_mode ret h' where
  went_through c hc hc' := ((hdid.through.2 c hc (by dsimp only; omega)).resolve_right fun hlast => by
    dsimp only at hlast
    omega)
  in_order := by
    obtain ⟨sent, hsent, hprefix, -⟩ := hdid.sent
    exact ⟨0, sent, hsent, hprefix.trans (List.prefix_append _ _)⟩
  shown h0 := absurd h0 hret

theorem filled_of_waited {h h1 : Host} {y8_index wf_mode : UInt8} {ret : Int} {h' : Host}
    (hwidth : h.panel.panel_width ≠ 0) (hheight : h.panel.panel_height ≠ 0)
    (hdid : Did Host.link h (query_cmds 0xE0 86 ++
      fill_text h.panel.panel_width h.panel.panel_height y8_index wf_mode) (0, h1))
    (hwaited : Waited h1 (ret, h')) : Filled h y8_index wf_mode ret h' := by
  obtain ⟨polls, hpolls, hidle⟩ := hwaited
  have hall := hdid.next hpolls
  refine ⟨fun c hc hc' => ?_, ?_, fun h0 => ⟨hwidth, hheight, fun c hc hc' => ?_, hidle h0, ?_⟩⟩
  · refine (hall.through.2 c hc (by dsimp only; omega)).resolve_right fun hlast => ?_
    dsimp only at hlast
    omega
  · obtain ⟨sent, hsent, hprefix, -⟩ := hall.sent
    exact ⟨polls + 1, sent, hsent, hprefix⟩
  · exact (hall.through.2 c hc hc').resolve_right fun hlast => hlast.1 h0
  · obtain ⟨sent, hsent, -, hwhole⟩ := hall.sent
    exact ⟨polls, hsent.trans (by rw [hwhole h0])⟩

/-- The fill behind its query. -/
theorem fill_behind_query {h h1 h2 : Host} {ret : Int} (y8_index wf_mode : UInt8)
    (hquery : Did Host.link h (query_cmds 0xE0 86) (0, h1)) (hwidth : h.panel.panel_width ≠ 0)
    (hheight : h.panel.panel_height ≠ 0)
    (hsends : fill_sends (h.panel.panel_width.toNat * h.panel.panel_height.toNat) h.panel.panel_width
      h.panel.panel_height y8_index wf_mode h1 = (ret, h2)) :
    ∃ ret' h', (if ret ≠ 0 then some (ret, h2) else eink_t2000_wait_idle 86 30000 h2) = some (ret', h') ∧
      Filled h y8_index wf_mode ret' h' := by
  have hdid := fill_sends_did hwidth hheight y8_index wf_mode h1
  rw [hsends] at hdid
  have hboth := hquery.next hdid
  by_cases h0 : ret = 0
  · obtain ⟨r, hr, hwaited⟩ := @eink_t2000_wait_idle_ends 30000 (by decide) 86 h2 (by decide)
    subst h0
    exact ⟨r.1, r.2, hr, filled_of_waited hwidth hheight hboth hwaited⟩
  · exact ⟨ret, h2, if_pos h0, filled_of_error hboth h0⟩

end T2000

end EinkNode
