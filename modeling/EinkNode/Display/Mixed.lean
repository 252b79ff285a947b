import EinkNode.Display.Bursts
import EinkNode.Lib.Runs
/-!
# What a refresh shows

Each controller has a memory that a load fills from its start. A refresh shows
what the two memories hold. `dirty` says that a load has come to its end, and a
load that fails later does not take it back.
-/
open NodeLib

namespace EinkNode.El133

/-! ## The memories -/

/-- The memory of a controller, and where the next byte of a load goes. -/
structure Dtm where
  pos : Nat
  cell : Nat → UInt8

def Dtm.Holds (m : Dtm) (bytes : Bytes) : Prop := ∀ i byte, bytes[i]? = some byte → m.cell i = byte

def Dtm.store (m : Dtm) (byte : UInt8) : Dtm := ⟨m.pos + 1, fun i => if i = m.pos then byte else m.cell i⟩

@[simp] theorem store_pos (m : Dtm) (byte : UInt8) : (m.store byte).pos = m.pos + 1 := rfl

@[simp] theorem store_cell (m : Dtm) (byte : UInt8) (i : Nat) :
    (m.store byte).cell i = if i = m.pos then byte else m.cell i := rfl

/-- The load command goes back to the start, and leaves the bytes that are there. -/
def receive (m : Chip → Dtm) : Rx → Chip → Dtm
  | .cmd chip op, c => if chip = c ∧ op = EL133_DTM then { m c with pos := 0 } else m c
  | .data chip op byte, c => if chip = c ∧ op = EL133_DTM then (m c).store byte else m c

def memories (m : Chip → Dtm) (rx : List Rx) : Chip → Dtm := rx.foldl receive m

theorem memories_append (m : Chip → Dtm) (rx rx' : List Rx) :
    memories m (rx ++ rx') = memories (memories m rx) rx' := List.foldl_append

theorem memories_other (m : Chip → Dtm) {rx : List Rx} (h : ∀ x ∈ rx, x.op ≠ EL133_DTM) : memories m rx = m := by
  induction rx generalizing m with
  | nil => rfl
  | cons x rx ih =>
    have hx : receive m x = m := by
      funext c
      have hop := h x List.mem_cons_self
      cases x with
      | cmd chip op => exact if_neg fun hc => hop hc.2
      | data chip op byte => exact if_neg fun hc => hop hc.2
    refine Eq.trans ?_ (ih m fun y hy => h y (List.mem_cons_of_mem _ hy))
    exact congrArg (memories · rx) hx

/-- Bytes that are stored one behind the other. -/
theorem cell_foldl_store (m : Dtm) (bytes : Bytes) (i : Nat) :
    (bytes.foldl Dtm.store m).cell i =
      if i < m.pos then m.cell i else (bytes[i - m.pos]?).getD (m.cell i) := by
  induction bytes generalizing m with
  | nil => simp
  | cons byte bytes ih =>
    rw [List.foldl_cons, ih, store_pos, store_cell]
    rcases Nat.lt_trichotomy i m.pos with hlt | heq | hgt
    · rw [if_pos (Nat.lt_succ_of_lt hlt), if_neg (Nat.ne_of_lt hlt), if_pos hlt]
    · simp [heq]
    · have hsub : i - m.pos = (i - (m.pos + 1)) + 1 := by omega
      rw [if_neg (by omega), if_neg (Nat.ne_of_gt hgt), if_neg (Nat.lt_asymm hgt), hsub, List.getElem?_cons_succ]

theorem memories_half (m : Chip → Dtm) (c : Chip) (sent : Bytes) (c' : Chip) :
    memories m (half c sent) c' = if c = c' then sent.foldl Dtm.store { m c with pos := 0 } else m c' := by
  have hdata (m : Chip → Dtm) : memories m (sent.map (.data c EL133_DTM)) c' =
      if c = c' then sent.foldl Dtm.store (m c') else m c' := by
    induction sent generalizing m with
    | nil => exact (ite_self _).symm
    | cons byte sent ih =>
      refine (ih _).trans ?_
      by_cases hc : c = c'
      · simp [receive, hc]
      · simp [receive, hc]
  refine (hdata _).trans ?_
  by_cases hc : c = c'
  · subst hc
    simp [receive]
  · simp [receive, hc]

theorem holds_half (m : Chip → Dtm) (c : Chip) (sent : Bytes) : (memories m (half c sent) c).Holds sent := by
  intro i byte hi
  rw [memories_half, if_pos rfl, cell_foldl_store, if_neg (Nat.not_lt_zero i), Nat.sub_zero, hi, Option.getD_some]

/-- Both memories after a load that has come to its end. -/
theorem holds_halves (m : Chip → Dtm) (s0 s1 : Bytes) :
    (memories m (half .c0 s0 ++ half .c1 s1) .c0).Holds s0 ∧
      (memories m (half .c0 s0 ++ half .c1 s1) .c1).Holds s1 := by
  rw [memories_append]
  refine ⟨?_, holds_half _ _ _⟩
  rw [memories_half, if_neg (by decide)]
  exact holds_half m .c0 s0

/-! ## Loads without a fault -/

/-- The sizes that the callback is asked for, with this much left to fill. -/
def requests (left : Nat) : List Nat :=
  if _h : 0 < left then min EL133_CHUNK left :: requests (left - min EL133_CHUNK left) else []
termination_by left
decreasing_by
  have : 0 < EL133_CHUNK := by decide
  omega

section
variable {σ : Type} (fill : Nat → StateM σ (Except Int Bytes))

/-- The state of the callback after these requests. -/
def asked (wants : List Nat) (u : σ) : σ := wants.foldl (fun u want => (fill want u).2) u

/-- The callback gives each of these requests all that it asks for. -/
def Answers : List Nat → σ → Prop
  | [], _ => True
  | want :: wants, u => (∃ chunk, (fill want u).1 = .ok chunk ∧ chunk.length = want) ∧ Answers wants (fill want u).2

variable {fill}

theorem answers_append {wants wants' : List Nat} {u : σ} :
    Answers fill (wants ++ wants') u ↔ Answers fill wants u ∧ Answers fill wants' (asked fill wants u) := by
  induction wants generalizing u with
  | nil => simp [Answers, asked]
  | cons want wants ih => exact (and_congr_right fun _ => ih).trans and_assoc.symm

/-- The next `n` transfers succeed. -/
def Quiet (n : Nat) (spi : List (Option (Nat × Nat))) : Prop := ∀ fate ∈ spi.take n, fate = none

theorem Quiet.drop {n k : Nat} {spi : List (Option (Nat × Nat))} (h : Quiet (n + k) spi) : Quiet k (spi.drop n) := by
  intro fate hfate
  rw [List.take_drop] at hfate
  exact h fate (List.mem_of_mem_drop hfate)

theorem Quiet.mono {n k : Nat} {spi : List (Option (Nat × Nat))} (h : Quiet n spi) (hk : k ≤ n) : Quiet k spi :=
  fun fate hfate => h fate ((List.take_sublist_take_left hk).subset hfate)

theorem spi_write_quiet {n : Nat} {d : Driver} (h : Quiet (n + 1) d.spi) (bytes : Bytes) :
    (spi_write bytes d).1 = 0 ∧ (spi_write bytes d).2.spi = d.spi.drop 1 := by
  have hhead : d.spi.headD none = none := by
    cases hspi : d.spi with
    | nil => rfl
    | cons fate spi => exact h fate (by simp [hspi])
  unfold spi_write
  rw [hhead, List.drop_one]
  exact ⟨rfl, rfl⟩

theorem spi_cs_set (which : Cs) (level : Bool) (d : Driver) : (cs_set which level d).2.spi = d.spi := by
  cases which <;> rfl

/-- On a quiet bus, with all requests answered, the loop comes to its end. -/
theorem stream_loop_quiet {filled : Nat} {s : Driver × σ}
    (hspi : Quiet (requests (EL133_HALF_BYTES - filled)).length s.1.spi)
    (hfill : Answers fill (requests (EL133_HALF_BYTES - filled)) s.2) :
    (stream_loop fill filled s).1 = 0 ∧
      (stream_loop fill filled s).2.1.spi = s.1.spi.drop (requests (EL133_HALF_BYTES - filled)).length ∧
      (stream_loop fill filled s).2.2 = asked fill (requests (EL133_HALF_BYTES - filled)) s.2 := by
  fun_induction stream_loop fill filled s with
  | case1 filled s hlt want e u hcall =>
    rw [requests, dif_pos (by omega)] at hfill
    obtain ⟨chunk, hchunk, -⟩ := hfill.1
    rw [hcall] at hchunk
    cases hchunk
  | case2 filled s hlt want chunk u hcall hn =>
    rw [requests, dif_pos (by omega)] at hfill
    obtain ⟨chunk', hchunk, hlen⟩ := hfill.1
    rw [hcall] at hchunk
    cases hchunk
    exact absurd hlen hn
  | case3 filled s hlt want chunk u hcall hn ret d hspi' hneg =>
    rw [requests, dif_pos (by omega), List.length_cons] at hspi
    have hzero := (spi_write_quiet hspi chunk).1
    rw [hspi'] at hzero
    dsimp only at hzero
    omega
  | case4 filled s hlt want chunk u hcall hn ret d hspi' hneg ih =>
    have hnext : EL133_HALF_BYTES - (filled + chunk.length) =
        EL133_HALF_BYTES - filled - min EL133_CHUNK (EL133_HALF_BYTES - filled) := by
      rw [not_not.1 hn]
      omega
    have hrequests : requests (EL133_HALF_BYTES - filled) =
        want :: requests (EL133_HALF_BYTES - (filled + chunk.length)) := by
      rw [requests, dif_pos (by omega), hnext]
    rw [hrequests] at hspi hfill ⊢
    have hspi1 := (spi_write_quiet hspi chunk).2
    have hcall2 : (fill want s.2).2 = u := by rw [hcall]
    rw [hspi'] at hspi1
    obtain ⟨hret, hqueue, huser⟩ := ih (by rw [hspi1]; exact Quiet.drop (by rwa [Nat.add_comm])) (hcall2 ▸ hfill.2)
    refine ⟨hret, ?_, ?_⟩
    · rw [hqueue, hspi1, List.drop_drop, List.length_cons, Nat.add_comm]
    · rw [huser, asked, asked, List.foldl_cons, hcall2]
  | case5 filled s hge =>
    rw [requests, dif_neg (by omega)]
    exact ⟨rfl, rfl, rfl⟩

theorem stream_half_quiet (which : Cs) {s : Driver × σ} (hspi : Quiet ((requests EL133_HALF_BYTES).length + 1) s.1.spi)
    (hfill : Answers fill (requests EL133_HALF_BYTES) s.2) :
    (stream_half fill which s).1 = 0 ∧
      (stream_half fill which s).2.1.spi = s.1.spi.drop ((requests EL133_HALF_BYTES).length + 1) ∧
      (stream_half fill which s).2.2 = asked fill (requests EL133_HALF_BYTES) s.2 := by
  obtain ⟨d, u⟩ := s
  have hselect : (put (.dc false) (cs_set which true d).2).2.spi = d.spi := spi_cs_set which true d
  obtain ⟨hzero, hspi1⟩ :=
    spi_write_quiet (d := (put (.dc false) (cs_set which true d).2).2) (hselect ▸ hspi) [EL133_DTM]
  rw [stream_half_app fill which d u rfl, hzero, if_neg (Int.lt_irrefl 0)]
  generalize (spi_write [EL133_DTM] (put (.dc false) (cs_set which true d).2).2).2 = d1 at hspi1 ⊢
  rw [hselect] at hspi1
  have hquiet : Quiet (requests (EL133_HALF_BYTES - 0)).length (put (.dc true) d1).2.spi := by
    refine Eq.subst hspi1.symm (Quiet.drop ?_)
    rw [Nat.add_comm]
    exact hspi
  obtain ⟨hret, hqueue, huser⟩ := stream_loop_quiet (s := ((put (.dc true) d1).2, u)) hquiet hfill
  refine ⟨hret, ?_, huser⟩
  have hput : (put (.dc true) d1).2.spi = d1.spi := rfl
  rw [spi_cs_set, hqueue, hput, hspi1, List.drop_drop, Nat.sub_zero, Nat.add_comm]

variable (fill) in
/-- The transfers and the answers of the callback that a load needs to come to its end. -/
def LoadsWhole (spi : List (Option (Nat × Nat))) (u : σ) : Prop :=
  Quiet (2 * ((requests EL133_HALF_BYTES).length + 1)) spi ∧
    Answers fill (requests EL133_HALF_BYTES ++ requests EL133_HALF_BYTES) u

theorem halves_quiet {s : Driver × σ} (h : LoadsWhole fill s.1.spi s.2) :
    (stream_half fill .EL133_CS0 s).1 = 0 ∧
      (stream_half fill .EL133_CS1 (stream_half fill .EL133_CS0 s).2).1 = 0 := by
  obtain ⟨hanswers0, hanswers1⟩ := answers_append.1 h.2
  obtain ⟨hret0, hqueue0, huser0⟩ := stream_half_quiet .EL133_CS0 (h.1.mono (by omega)) hanswers0
  refine ⟨hret0, (stream_half_quiet _ ?_ (huser0 ▸ hanswers1)).1⟩
  rw [hqueue0]
  refine Quiet.drop ?_
  rw [← Nat.two_mul]
  exact h.1

/-! ## One load -/

variable {left : σ → Bytes}

/-- The end of a load sends no frame bytes. -/
theorem sends_loaded : Keeps (Sends (·.op ≠ EL133_DTM)) loaded := by
  intro d hr
  have hrefresh := sends_refresh { d with dirty := true } hr
  unfold loaded
  dsimp only
  by_cases hblank : d.blanking_on = true
  · rw [if_pos hblank]
    exact ⟨hr, [], (List.append_nil _).symm, nofun⟩
  · rw [if_neg hblank]
    generalize refresh { d with dirty := true } = r at hrefresh ⊢
    obtain ⟨ret, d'⟩ := r
    dsimp only at hrefresh ⊢
    split
    · exact hrefresh
    · exact hrefresh

/-- What a load sends, and what the refresh behind it adds. -/
theorem stream_write_sends (hfeed : Feeds left fill) {s : Driver × σ} (hr : s.1.panel.Rested) :
    ∃ load shown, (el133uf1_stream_write fill s).2.1.panel.rx = s.1.panel.rx ++ (load ++ shown) ∧
      (el133uf1_stream_write fill s).2.1.panel.Rested ∧ (∀ x ∈ load, x.op = EL133_DTM) ∧
      (∀ x ∈ shown, x.op ≠ EL133_DTM) ∧
      (shown = [] ∧ ¬ LoadsWhole fill s.1.spi s.2 ∨
        ∃ s0 s1, load = half .c0 s0 ++ half .c1 s1 ∧ s0 ++ s1 <+: left s.2 ∧ s0.length = EL133_HALF_BYTES ∧
          s1.length = EL133_HALF_BYTES) := by
  obtain ⟨d, load, hrx, hr', -, hsent, hres⟩ := stream_write_cases hfeed hr
  rcases hres with ⟨-, hend, hfail⟩ | ⟨-, hend, hhalves⟩
  · rw [hend]
    refine ⟨load, [], by rw [List.append_nil, hrx], hr', hsent.op_eq, List.forall_mem_nil _, .inl ⟨rfl, fun h => ?_⟩⟩
    have hzero := halves_quiet h
    omega
  · obtain ⟨hr2, shown, hshown, hop⟩ := sends_loaded d hr'
    rw [hend]
    exact ⟨load, shown, by rw [hshown, hrx, List.append_assoc], hr2, hsent.op_eq, hop, .inr hhalves⟩

end

/-! ## Runs -/

/-- The driver, and the call that has started the last load. -/
abbrev Loaded := Driver × Option Call

def Call.step (s : Loaded) (c : Call) : Loaded := (c.apply s.1, if c.entry.source.isSome then some c else s.2)

/-- No transfer of the load fails, and the callback gives it every byte. -/
def Call.Faultless (c : Call) : Prop := ∀ src, c.entry.source = some src → LoadsWhole src.fill c.spi src.user

/-- `blanking_off` does not come, with a load to be shown, behind a later load that has failed. -/
def Unspoilt (s : Loaded) (c : Call) : Prop :=
  c.entry = .blanking_off → s.1.dirty = true → ∀ load, s.2 = some load → load.Faultless

/-- The memories are the two halves of the frame. -/
structure HoldsFrame (m : Chip → Dtm) (frame : Bytes) : Prop where
  whole : frame.length = EL133_PAYLOAD_BYTES
  left : (m .c0).Holds (frame.take EL133_HALF_BYTES)
  right : (m .c1).Holds (frame.drop EL133_HALF_BYTES)

/-- Whenever the call sends a refresh command, the memories hold the frame of the last load that was started. -/
def ShowsLast (m : Chip → Dtm) (s : Loaded) (c : Call) : Prop :=
  ∀ pre x post, (c.step s).1.panel.rx = pre ++ x :: post → s.1.panel.rx.length ≤ pre.length → x.op = EL133_DRF →
    ∃ load frame, (c.step s).2 = some load ∧ load.entry.frame = some frame ∧ HoldsFrame (memories m pre) frame

/-- Between two calls: a load without a fault is in the memories, and `dirty` is from some load. -/
structure Kept (m : Chip → Dtm) (s : Loaded) : Prop where
  rested : s.1.panel.Rested
  held : ∀ load frame, s.2 = some load → load.Faultless → load.entry.frame = some frame →
    HoldsFrame (memories m s.1.panel.rx) frame
  dirty : s.1.dirty = true → s.2 ≠ none
  load : ∀ load, s.2 = some load → load.entry.frame ≠ none

theorem holdsFrame_halves (m : Chip → Dtm) {frame s0 s1 : Bytes} (hpre : s0 ++ s1 <+: frame)
    (hlen0 : s0.length = EL133_HALF_BYTES) (hlen1 : s1.length = EL133_HALF_BYTES) :
    HoldsFrame (memories m (half .c0 s0 ++ half .c1 s1)) (frame.take EL133_PAYLOAD_BYTES) := by
  have htwo : EL133_PAYLOAD_BYTES = (s0 ++ s1).length := by
    rw [List.length_append, hlen0, hlen1]
    decide
  have hframe : frame.take EL133_PAYLOAD_BYTES = s0 ++ s1 := by
    rw [htwo]
    exact (List.prefix_iff_eq_take.1 hpre).symm
  obtain ⟨hleft, hright⟩ := holds_halves m s0 s1
  rw [hframe]
  refine ⟨htwo.symm, ?_, ?_⟩
  · rw [List.take_left' hlen0]
    exact hleft
  · rw [List.drop_left' hlen0]
    exact hright

theorem split_of_length {rx new pre post : List Rx} (h : rx ++ new = pre ++ post) (hlen : rx.length ≤ pre.length) :
    ∃ t, pre = rx ++ t ∧ new = t ++ post := by
  obtain ⟨t, rfl⟩ := List.prefix_of_prefix_length_le (List.prefix_append rx new) ⟨post, h.symm⟩ hlen
  rw [List.append_assoc] at h
  exact ⟨t, rfl, List.append_cancel_left h⟩

theorem split_of_notMem {load shown pre post : List Rx} {x : Rx} (h : load ++ shown = pre ++ x :: post)
    (hx : x ∉ load) : ∃ t, pre = load ++ t ∧ shown = t ++ x :: post := by
  refine split_of_length h ?_
  apply Nat.le_of_not_lt
  intro hlt
  have hget : (load ++ shown)[pre.length]? = some x := by simp [h]
  rw [List.getElem?_append_left hlt] at hget
  exact hx (List.mem_of_getElem? hget)

/-- A load, and what is shown behind it. -/
theorem showsLast_load {m : Chip → Dtm} {rx load shown pre post : List Rx} {x : Rx} {frame s0 s1 : Bytes}
    (h : rx ++ (load ++ shown) = pre ++ x :: post) (hlen : rx.length ≤ pre.length) (hx : x.op = EL133_DRF)
    (hload : ∀ y ∈ load, y.op = EL133_DTM) (hshown : ∀ y ∈ shown, y.op ≠ EL133_DTM)
    (hhalves : load = half .c0 s0 ++ half .c1 s1) (hpre : s0 ++ s1 <+: frame)
    (hlen0 : s0.length = EL133_HALF_BYTES) (hlen1 : s1.length = EL133_HALF_BYTES) :
    HoldsFrame (memories m pre) (frame.take EL133_PAYLOAD_BYTES) := by
  obtain ⟨t, rfl, hnew⟩ := split_of_length h hlen
  have hnot : x ∉ load := fun hmem => absurd ((hload x hmem).symm.trans hx) (by decide)
  obtain ⟨t', rfl, rfl⟩ := split_of_notMem hnew hnot
  have ht : ∀ y ∈ t', y.op ≠ EL133_DTM := fun y hy => hshown y (List.mem_append_left _ hy)
  rw [memories_append, memories_append, memories_other _ ht, hhalves]
  exact holdsFrame_halves _ hpre hlen0 hlen1

/-- A call that starts a load. -/
theorem load_step {m : Chip → Dtm} {s : Loaded} {c : Call} {src : Source} (hsrc : c.entry.source = some src)
    (h : Kept m s) : Kept m (c.step s) ∧ ShowsLast m s c := by
  obtain ⟨load, shown, hrx, hrested, hload, hshown, hres⟩ :=
    stream_write_sends src.feeds (s := ({ s.1 with spi := c.spi, busy := c.busy }, src.user)) h.rested
  have hdriver : (c.step s).1 =
      (el133uf1_stream_write src.fill ({ s.1 with spi := c.spi, busy := c.busy }, src.user)).2.1 :=
    (enter_of_source hsrc _).2
  rw [← hdriver] at hrx hrested
  have hlast : (c.step s).2 = some c := if_pos (by rw [hsrc]; rfl)
  have hframe : c.entry.frame = some ((src.left src.user).take EL133_PAYLOAD_BYTES) := by rw [Entry.frame, hsrc]; rfl
  refine ⟨⟨hrested, ?_, ?_, ?_⟩, ?_⟩
  · -- The new load is in the memories, and the refresh has left it there.
    intro c' frame hc hfaultless hframe'
    rw [hlast] at hc
    cases hc
    rw [hframe] at hframe'
    cases hframe'
    have hwhole := hfaultless src hsrc
    obtain ⟨s0, s1, rfl, hpre, hlen0, hlen1⟩ := hres.resolve_left fun hfail => hfail.2 hwhole
    rw [hrx, memories_append, memories_append, memories_other _ hshown]
    exact holdsFrame_halves _ hpre hlen0 hlen1
  · intro _
    rw [hlast]
    exact Option.some_ne_none c
  · intro c' hc
    rw [hlast] at hc
    cases hc
    rw [hframe]
    exact Option.some_ne_none _
  · intro pre x post hsplit hlen hx
    refine ⟨c, _, hlast, hframe, ?_⟩
    rw [hrx] at hsplit
    rcases hres with ⟨rfl, -⟩ | ⟨s0, s1, hhalves, hpre, hlen0, hlen1⟩
    · -- Without a refresh there is no such command.
      obtain ⟨t, rfl, hnew⟩ := split_of_length hsplit hlen
      have hmem : x ∈ load := by
        rw [List.append_nil] at hnew
        rw [hnew]
        exact List.mem_append_right _ List.mem_cons_self
      exact absurd ((hload x hmem).symm.trans hx) (by decide)
    · exact showsLast_load hsplit hlen hx hload hshown hhalves hpre hlen0 hlen1

theorem blanking_off_sends {d : Driver} (hr : d.panel.Rested) :
    ∃ new, (el133_blanking_off d).2.panel.rx = d.panel.rx ++ new ∧ (el133_blanking_off d).2.panel.Rested ∧
      (∀ x ∈ new, x.op ≠ EL133_DTM) ∧ ((el133_blanking_off d).2.dirty = true → d.dirty = true) ∧
      (new = [] ∨ d.dirty = true) := by
  obtain ⟨hrested, new, hrx, hop⟩ := sends_refresh d hr
  unfold el133_blanking_off
  by_cases hdirty : d.dirty = true
  · rw [if_pos hdirty]
    exact ⟨new, hrx, hrested, hop, fun _ => hdirty, .inr hdirty⟩
  · rw [if_neg hdirty]
    exact ⟨[], (List.append_nil _).symm, hr, nofun, fun h => absurd h hdirty, .inl rfl⟩

/-- A call that starts no load only sends something when it is `blanking_off` with a load to be shown. -/
theorem enter_sends {e : Entry} (hsrc : e.source = none) {d : Driver} (hr : d.panel.Rested) :
    ∃ new, (e.enter d).2.panel.rx = d.panel.rx ++ new ∧ (e.enter d).2.panel.Rested ∧ (∀ x ∈ new, x.op ≠ EL133_DTM) ∧
      ((e.enter d).2.dirty = true → d.dirty = true) ∧ (new = [] ∨ e = .blanking_off ∧ d.dirty = true) := by
  cases e with
  | blanking_on => exact ⟨[], (List.append_nil _).symm, hr, nofun, id, .inl rfl⟩
  | blanking_off =>
    obtain ⟨new, hrx, hrested, hop, hdirty, hnew⟩ := blanking_off_sends hr
    exact ⟨new, hrx, hrested, hop, hdirty, hnew.imp id fun h => ⟨rfl, h⟩⟩
  | stream_write => cases hsrc
  | write buf =>
    have hidle : (Entry.write buf).enter d = (-EINVAL, d) := by
      cases buf with
      | none => rfl
      | some payload =>
        simp only [Entry.source] at hsrc
        split at hsrc
        · next hlen => simp only [Entry.enter, el133_write, if_pos hlen, pure_app]
        · cases hsrc
    rw [hidle]
    exact ⟨[], (List.append_nil _).symm, hr, nofun, id, .inl rfl⟩

/-- A call that starts no load: what it sends is not for the memories. -/
theorem other_step {m : Chip → Dtm} {s : Loaded} {c : Call} (hsrc : c.entry.source = none) (hC : Unspoilt s c)
    (h : Kept m s) : Kept m (c.step s) ∧ ShowsLast m s c := by
  have hlast : (c.step s).2 = s.2 := if_neg (by rw [hsrc]; exact Bool.false_ne_true)
  obtain ⟨new, hrx, hrested, hop, hdirty, hnew⟩ :=
    enter_sends hsrc (d := { s.1 with spi := c.spi, busy := c.busy }) h.rested
  have hrx' : (c.step s).1.panel.rx = s.1.panel.rx ++ new := hrx
  refine ⟨⟨hrested, ?_, ?_, ?_⟩, ?_⟩
  · intro load frame hload
    rw [hlast] at hload
    rw [hrx', memories_append, memories_other _ hop]
    exact h.held load frame hload
  · intro hd
    rw [hlast]
    exact h.dirty (hdirty hd)
  · rw [hlast]
    exact h.load
  · intro pre x post hsplit hlen hx
    rw [hrx'] at hsplit
    obtain ⟨t, rfl, rfl⟩ := split_of_length hsplit hlen
    obtain ⟨hoff, hd⟩ := hnew.resolve_left (by simp)
    obtain ⟨load, hload⟩ := Option.ne_none_iff_exists'.1 (h.dirty hd)
    obtain ⟨frame, hframe⟩ := Option.ne_none_iff_exists'.1 (h.load load hload)
    refine ⟨load, frame, by rw [hlast, hload], hframe, ?_⟩
    have ht : ∀ y ∈ t, y.op ≠ EL133_DTM := fun y hy => hop y (List.mem_append_left _ hy)
    rw [memories_append, memories_other _ ht]
    exact h.held load frame hload (hC hoff hd load hload) hframe

theorem kept_step {m : Chip → Dtm} {s : Loaded} {c : Call} (hC : Unspoilt s c) (h : Kept m s) :
    Kept m (c.step s) ∧ ShowsLast m s c := by
  cases hsrc : c.entry.source with
  | some src => exact load_step hsrc h
  | none => exact other_step hsrc hC h

theorem flags_init (spi : List (Option (Nat × Nat))) (busy : List Bool) : (el133_init spi busy).2.dirty = false := by
  have hregisters : Keeps SameFlags epd_init_registers :=
    keeps_each_until fun _ _ => onWires_sameFlags.keeps_xfer_cmd _ _ _
  have hwait : SameFlags ⟨false, false, [], spi, busy⟩ (wait_ready ⟨false, false, [], spi, busy⟩).2 := ⟨rfl, rfl⟩
  rcases init_cases spi busy with h | h
  · rw [h, hwait.2]
  · rw [h]
    exact (hregisters _).2.trans hwait.2

theorem kept_init (m : Chip → Dtm) (spi : List (Option (Nat × Nat))) (busy : List Bool) :
    Kept m ((el133_init spi busy).2, none) where
  rested := rested_init spi busy
  held _ _ h := nomatch h
  dirty h := absurd ((flags_init spi busy).symm.trans h) Bool.false_ne_true
  load _ h := nomatch h

/-- A command with data, on a bus where all transfers succeed. -/
theorem xfer_cmd_ready {d : Driver} (hspi : d.spi = []) (which : Cs) (cmd : UInt8) (data : Bytes) :
    xfer_cmd which cmd data d = (0, { d with wire := d.wire ++
      (if data = [] then Burst.bare which [cmd] else Burst.data which cmd [data]).ops }) := by
  obtain ⟨blanking_on, dirty, wire, spi, busy⟩ := d
  dsimp only at hspi
  subst hspi
  unfold xfer_cmd
  by_cases hdata : data = []
  all_goals cases which <;> simp [hdata, cs_set, put, spi_write, Burst.ops, Burst.select]

theorem xfer_and_wait_ready {d : Driver} (hspi : d.spi = []) (hbusy : d.busy = []) (which : Cs) (cmd : UInt8)
    (data : Bytes) :
    xfer_and_wait which cmd data d = (0, { d with wire := d.wire ++
      (if data = [] then Burst.bare which [cmd] else Burst.data which cmd [data]).ops }) := by
  unfold xfer_and_wait
  simp only [bind_app, xfer_cmd_ready hspi, Int.lt_irrefl, if_false, wait_ready, hbusy]
  rfl

theorem each_until_ready {d : Driver} (hspi : d.spi = []) (hbusy : d.busy = []) (l : List (Cs × UInt8 × Bytes)) :
    each_until (fun (which, cmd, data) => xfer_and_wait which cmd data) l d =
      (0, { d with wire := d.wire ++ l.flatMap fun c =>
        (if c.2.2 = [] then Burst.bare c.1 [c.2.1] else Burst.data c.1 c.2.1 [c.2.2]).ops }) := by
  induction l generalizing d with
  | nil => simp [each_until]
  | cons c l ih =>
    unfold each_until
    simp only [bind_app, xfer_and_wait_ready hspi hbusy, Int.lt_irrefl, if_false]
    refine (ih (by exact hspi) (by exact hbusy)).trans ?_
    simp

/-- A panel that is ready gets the refresh command. -/
theorem refresh_ready {d : Driver} (hspi : d.spi = []) (hbusy : d.busy = []) (hr : d.panel.Rested) :
    ∃ pre post, (refresh d).2.panel.rx = d.panel.rx ++ pre ++ .cmd .c0 EL133_DRF :: post := by
  have hops : (refresh d).2.panel = (refresh_commands.flatMap fun c =>
      (if c.2.2 = [] then Burst.bare c.1 [c.2.1] else Burst.data c.1 c.2.1 [c.2.2]).ops).foldl Panel.take d.panel := by
    unfold refresh
    rw [each_until_ready hspi hbusy, Driver.panel, List.foldl_append]
    rfl
  have h0 := hr .c0
  have h1 := hr .c1
  rw [hops]
  generalize d.panel = p at h0 h1 ⊢
  refine ⟨[.cmd .c0 EL133_PON, .cmd .c1 EL133_PON], ?_⟩
  simp [refresh_commands, Burst.ops, Burst.select, Panel.take, Panel.clock, Panel.chips, h0, h1, V_DRF, V_POF]

/-! ## Single loads from a buffer -/

section
variable {σ : Type} {fill : Nat → StateM σ (Except Int Bytes)} {left : σ → Bytes}

theorem answers_from_buffer (n : Nat) (u : Bytes) (h : n ≤ u.length) :
    Answers from_buffer (requests n) u ∧ asked from_buffer (requests n) u = u.drop n := by
  fun_induction requests n generalizing u with
  | case1 n hpos ih =>
    obtain ⟨hanswers, hasked⟩ := ih (u.drop (min EL133_CHUNK n)) (by rw [List.length_drop]; omega)
    refine ⟨⟨⟨_, rfl, by rw [List.length_take]; omega⟩, hanswers⟩, ?_⟩
    refine hasked.trans ?_
    rw [List.drop_drop]
    congr 1
    omega
  | case2 n hpos =>
    obtain rfl : n = 0 := by omega
    exact ⟨trivial, rfl⟩

theorem loadsWhole_from_buffer {payload : Bytes} (hlen : EL133_PAYLOAD_BYTES ≤ payload.length) :
    LoadsWhole from_buffer [] payload := by
  have htwo : EL133_PAYLOAD_BYTES = EL133_HALF_BYTES + EL133_HALF_BYTES := by decide
  obtain ⟨hanswers0, hasked⟩ := answers_from_buffer EL133_HALF_BYTES payload (by omega)
  refine ⟨fun fate hfate => by simp at hfate, answers_append.2 ⟨hanswers0, ?_⟩⟩
  rw [hasked]
  exact (answers_from_buffer EL133_HALF_BYTES (payload.drop EL133_HALF_BYTES) (by rw [List.length_drop]; omega)).1

/-- With blanking on, a load without a fault leaves `dirty` set. -/
theorem stream_write_whole {s : Driver × σ} (h : LoadsWhole fill s.1.spi s.2) (hblank : s.1.blanking_on = true) :
    (el133uf1_stream_write fill s).2.1.dirty = true := by
  obtain ⟨hzero0, hzero1⟩ := halves_quiet h
  rw [(stream_write_blanked hzero0 hzero1 hblank).2]

variable (fill) in
/-- The second half of a load, when its command fails to go out. -/
theorem stream_half_fails {s : Driver × σ} {e : Nat} (hspi : s.1.spi = [some (e, 0)]) (hr : s.1.panel.Rested) :
    (stream_half fill .EL133_CS1 s).1 < 0 ∧ (stream_half fill .EL133_CS1 s).2.1.panel.rx = s.1.panel.rx ∧
      (stream_half fill .EL133_CS1 s).2.1.dirty = s.1.dirty ∧ (stream_half fill .EL133_CS1 s).2.1.panel.Rested := by
  obtain ⟨⟨blanking_on, dirty, wire, spi, busy⟩, u⟩ := s
  dsimp only at hspi
  subst hspi
  have hneg : -((e + 1 : Nat) : Int) < 0 := Int.negSucc_lt_zero e
  have hhalf : stream_half fill .EL133_CS1 (⟨blanking_on, dirty, wire, [some (e, 0)], busy⟩, u) =
      (-((e + 1 : Nat) : Int), ⟨blanking_on, dirty, wire ++ (Burst.bare .EL133_CS1 []).ops, [], busy⟩, u) := by
    have hcmd : spi_write [EL133_DTM] (put (.dc false)
        (cs_set .EL133_CS1 true ⟨blanking_on, dirty, wire, [some (e, 0)], busy⟩).2).2 =
          (-((e + 1 : Nat) : Int),
            ⟨blanking_on, dirty, wire ++ [.cs1 true] ++ [.dc false] ++ [.spi []], [], busy⟩) := rfl
    rw [stream_half_app fill .EL133_CS1 _ u hcmd, if_pos hneg]
    simp [cs_set, put, Burst.ops, Burst.select]
  obtain ⟨hrested, hrx⟩ := panel_burst (congrArg (fun r => r.2.1.wire) hhalf) hr
  refine ⟨?_, ?_, ?_, hrested⟩
  · rw [hhalf]
    exact hneg
  · rw [hrx]
    exact List.append_nil _
  · rw [hhalf]

end

/-- A first frame is loaded, a second one only in the first controller. -/
def mixedRun (a b : Bytes) : List Call :=
  [⟨.blanking_on, [], []⟩, ⟨.write (some a), [], []⟩,
    ⟨.write (some b), List.replicate ((requests EL133_HALF_BYTES).length + 1) none ++ [some (4, 0)], []⟩,
    ⟨.blanking_off, [], []⟩]

theorem quiet_replicate (n : Nat) (spi : List (Option (Nat × Nat))) : Quiet n (List.replicate n none ++ spi) := by
  intro fate hfate
  rw [List.take_left' List.length_replicate] at hfate
  exact List.eq_of_mem_replicate hfate

/-- The second load: the first half goes out, the second does not start. -/
theorem write_half {payload : Bytes} {d : Driver} {e : Nat} (hlen : EL133_PAYLOAD_BYTES ≤ payload.length)
    (hspi : d.spi = List.replicate ((requests EL133_HALF_BYTES).length + 1) none ++ [some (e, 0)])
    (hr : d.panel.Rested) :
    ∃ s0, (el133_write (some payload) d).2.panel.rx = d.panel.rx ++ half .c0 s0 ∧
      (el133_write (some payload) d).2.dirty = d.dirty ∧ (el133_write (some payload) d).2.panel.Rested := by
  have hcs0 : ∀ c', Cs.EL133_CS0.has c' = decide (c' = .c0) := fun _ => rfl
  have htwo : EL133_PAYLOAD_BYTES = EL133_HALF_BYTES + EL133_HALF_BYTES := by decide
  rw [← (stream_write_eq delivers_from_buffer hlen (s := (d, payload)) rfl).2]
  have hanswers := (answers_from_buffer EL133_HALF_BYTES payload (by omega)).1
  have hquiet : Quiet ((requests EL133_HALF_BYTES).length + 1) d.spi := hspi ▸ quiet_replicate _ _
  obtain ⟨hzero, hqueue, -⟩ := stream_half_quiet .EL133_CS0 (s := (d, payload)) hquiet hanswers
  obtain ⟨new, hrx, hr0, hflags, hres⟩ := stream_half_spec feeds_from_buffer hcs0 (s := (d, payload)) hr
  unfold el133uf1_stream_write
  simp only [bind_app, hzero, Int.lt_irrefl, if_false]
  generalize stream_half from_buffer .EL133_CS0 (d, payload) = r at hzero hqueue hrx hr0 hflags hres ⊢
  obtain ⟨ret, d0, u0⟩ := r
  dsimp only at hzero hqueue hrx hr0 hflags hres ⊢
  obtain ⟨-, s0, rfl, -⟩ := hres.resolve_left fun h => by omega
  rw [hspi, List.drop_left' List.length_replicate] at hqueue
  obtain ⟨hneg, hrx1, hdirty, hr1⟩ := stream_half_fails from_buffer (s := (d0, u0)) hqueue hr0
  generalize stream_half from_buffer .EL133_CS1 (d0, u0) = r at hneg hrx1 hdirty hr1 ⊢
  obtain ⟨ret1, d1, u1⟩ := r
  dsimp only at hneg hrx1 hdirty hr1 ⊢
  rw [if_pos hneg]
  simp only [pure_app]
  exact ⟨s0, hrx1.trans hrx, hdirty.trans hflags.2, hr1⟩

/-- The first load: both halves are out, and there is something to be shown. -/
theorem write_whole {payload : Bytes} {d : Driver} (hlen : payload.length = EL133_PAYLOAD_BYTES) (hspi : d.spi = [])
    (hblank : d.blanking_on = true) (hr : d.panel.Rested) :
    (∃ load shown, (el133_write (some payload) d).2.panel.rx = d.panel.rx ++ (load ++ shown) ∧
      (∀ x ∈ shown, x.op ≠ EL133_DTM) ∧ ∀ m, HoldsFrame (memories m load) payload) ∧
      (el133_write (some payload) d).2.dirty = true ∧ (el133_write (some payload) d).2.panel.Rested := by
  have hwhole : LoadsWhole from_buffer d.spi payload := hspi ▸ loadsWhole_from_buffer (Nat.le_of_eq hlen.symm)
  rw [← (stream_write_eq delivers_from_buffer (Nat.le_of_eq hlen.symm) (s := (d, payload)) rfl).2]
  obtain ⟨load, shown, hrx, hr', -, hshown, hres⟩ := stream_write_sends feeds_from_buffer (s := (d, payload)) hr
  obtain ⟨s0, s1, rfl, hpre, hlen0, hlen1⟩ := hres.resolve_left fun hfail => hfail.2 hwhole
  refine ⟨⟨_, shown, hrx, hshown, fun m => ?_⟩, ?_, hr'⟩
  · have hframe := holdsFrame_halves m hpre hlen0 hlen1
    rw [id, ← hlen, List.take_length] at hframe
    exact hframe
  · exact stream_write_whole (s := (d, payload)) hwhole hblank

theorem blanking_off_panel {d : Driver} (hdirty : d.dirty = true) :
    (el133_blanking_off d).2.panel = (refresh d).2.panel := by
  unfold el133_blanking_off
  rw [if_pos hdirty]
  rfl

/-- A load that only comes to the first controller leaves the first byte of the second half alone. -/
theorem second_half_kept (m : Chip → Dtm) {rx load shown pre : List Rx} {sent : Bytes}
    (hshown : ∀ x ∈ shown, x.op ≠ EL133_DTM) (hpre : ∀ x ∈ pre, x.op ≠ EL133_DTM) :
    (memories m (rx ++ (load ++ shown) ++ half .c0 sent ++ pre) .c1).cell 0 =
      (memories (memories m rx) load .c1).cell 0 := by
  rw [memories_append, memories_other _ hpre, memories_append, memories_half, if_neg (by decide), memories_append,
    memories_append, memories_other _ hshown]

theorem first_of_half {payload : Bytes} (hlen : payload.length = EL133_PAYLOAD_BYTES) :
    ∃ byte, payload[EL133_HALF_BYTES]? = some byte ∧ (payload.drop EL133_HALF_BYTES)[0]? = some byte := by
  have hlt : EL133_HALF_BYTES < payload.length := by
    rw [hlen]
    decide
  refine ⟨_, List.getElem?_eq_getElem hlt, ?_⟩
  rw [List.getElem?_drop, Nat.add_zero, List.getElem?_eq_getElem hlt]

/-- The refresh command reaches the panel while the second controller still holds the first frame. -/
theorem mixed_run (m : Chip → Dtm) {a b : Bytes} (ha : a.length = EL133_PAYLOAD_BYTES)
    (hb : b.length = EL133_PAYLOAD_BYTES) (hdiff : a[EL133_HALF_BYTES]? ≠ b[EL133_HALF_BYTES]?) :
    ¬ Meets Call.step (ShowsLast m) ((el133_init [] []).2, none) (mixedRun a b) := by
  rintro ⟨-, -, -, hshows, -⟩
  have hr0 := rested_init [] []
  generalize (el133_init [] []).2 = d0 at hr0 hshows
  -- Blanking on, and the first load.
  generalize hs1 : Call.step (d0, none) ⟨.blanking_on, [], []⟩ = s1 at hshows
  have hblank1 : s1.1.blanking_on = true := by rw [← hs1]; rfl
  have hr1 : s1.1.panel.Rested := by rw [← hs1]; exact hr0
  have hd2 : (Call.step s1 ⟨.write (some a), [], []⟩).1 =
    (el133_write (some a) { s1.1 with spi := [], busy := [] }).2 := rfl
  obtain ⟨⟨load, shown, hrx2, hshown, hholds⟩, hdirty2, hr2⟩ :=
    write_whole (d := { s1.1 with spi := [], busy := [] }) ha rfl hblank1 hr1
  rw [← hd2] at hrx2 hdirty2 hr2
  generalize Call.step s1 ⟨.write (some a), [], []⟩ = s2 at hshows hrx2 hdirty2 hr2
  -- The second load only comes to the first controller.
  generalize hspi : List.replicate ((requests EL133_HALF_BYTES).length + 1) none ++ [some (4, 0)] = spi at hshows
  have hd3 : (Call.step s2 ⟨.write (some b), spi, []⟩).1 =
    (el133_write (some b) { s2.1 with spi := spi, busy := [] }).2 := rfl
  have hlast3 : (Call.step s2 ⟨.write (some b), spi, []⟩).2 = some ⟨.write (some b), spi, []⟩ := by
    refine if_pos ?_
    simp [Entry.source, hb]
  obtain ⟨sent, hrx3, hdirty3, hr3⟩ :=
    write_half (d := { s2.1 with spi := spi, busy := [] }) (Nat.le_of_eq hb.symm) hspi.symm hr2
  rw [← hd3] at hrx3 hdirty3 hr3
  generalize Call.step s2 ⟨.write (some b), spi, []⟩ = s3 at hshows hlast3 hrx3 hdirty3 hr3
  -- The refresh.
  have hdirty : s3.1.dirty = true := hdirty3.trans hdirty2
  obtain ⟨pre, post, hrefresh⟩ := refresh_ready (d := { s3.1 with spi := [], busy := [] }) rfl rfl hr3
  obtain ⟨-, new, hnew, hop⟩ := sends_refresh { s3.1 with spi := [], busy := [] } hr3
  have hd4 : (Call.step s3 ⟨.blanking_off, [], []⟩).1 =
    (el133_blanking_off { s3.1 with spi := [], busy := [] }).2 := rfl
  have hpanel := blanking_off_panel (d := { s3.1 with spi := [], busy := [] }) hdirty
  have hlast4 : (Call.step s3 ⟨.blanking_off, [], []⟩).2 = s3.2 := rfl
  rw [← hpanel, ← hd4] at hrefresh hnew
  have hpre : ∀ x ∈ pre, x.op ≠ EL133_DTM := by
    rw [hrefresh, List.append_assoc] at hnew
    have hsplit : pre ++ .cmd .c0 EL133_DRF :: post = new := List.append_cancel_left hnew
    exact fun x hx => hop x (hsplit ▸ List.mem_append_left _ hx)
  obtain ⟨c, frame, hc, hframe, -, -, hright⟩ := hshows _ _ _ hrefresh (by simp; exact Nat.le_add_right _ _) rfl
  rw [hlast4, hlast3] at hc
  cases hc
  have hframe' : b = frame := by
    have hlen : ¬ b.length < EL133_PAYLOAD_BYTES := Nat.not_lt.2 (Nat.le_of_eq hb.symm)
    simp only [Entry.frame, Entry.source, hlen, if_false, Option.map_some, id, Option.some.injEq] at hframe
    rw [← hframe, ← hb, List.take_length]
  subst hframe'
  -- The first byte of the second half is still the one of the first frame.
  have hcell : (memories m (s3.1.panel.rx ++ pre) .c1).cell 0 =
      (memories (memories m s1.1.panel.rx) load .c1).cell 0 := by
    have hloaded : s2.1.panel.rx = s1.1.panel.rx ++ (load ++ shown) := hrx2
    have hhalf : s3.1.panel.rx = s2.1.panel.rx ++ half .c0 sent := hrx3
    rw [hhalf, hloaded]
    exact second_half_kept m hshown hpre
  obtain ⟨byte_a, hhalf_a, hdrop_a⟩ := first_of_half ha
  obtain ⟨byte_b, hhalf_b, hdrop_b⟩ := first_of_half hb
  have ha0 := (hholds (memories m s1.1.panel.rx)).right 0 byte_a hdrop_a
  have hb0 := hright 0 byte_b hdrop_b
  refine hdiff ?_
  rw [hhalf_a, hhalf_b, ← ha0, ← hb0]
  exact congrArg some hcell.symm

theorem faultless_write {payload : Bytes} (hlen : payload.length = EL133_PAYLOAD_BYTES) :
    (⟨.write (some payload), [], []⟩ : Call).Faultless := by
  intro src hsrc
  simp only [Entry.source, Nat.not_lt.2 (Nat.le_of_eq hlen.symm), if_false, Option.some.injEq] at hsrc
  subst hsrc
  exact loadsWhole_from_buffer (Nat.le_of_eq hlen.symm)

theorem unspoilt_show (s : Loaded) {payload : Bytes} (hlen : payload.length = EL133_PAYLOAD_BYTES) :
    Meets Call.step Unspoilt s [⟨.blanking_on, [], []⟩, ⟨.write (some payload), [], []⟩, ⟨.blanking_off, [], []⟩] := by
  refine ⟨nofun, nofun, fun _ _ load hload => ?_, trivial⟩
  have hlast (s : Loaded) : (Call.step s ⟨.write (some payload), [], []⟩).2 = some ⟨.write (some payload), [], []⟩ := by
    refine if_pos ?_
    simp [Entry.source, hlen]
  rw [hlast] at hload
  cases hload
  exact faultless_write hlen

/-! ## What is shown -/

/-- No mixed frame is shown in a run where `blanking_off` never finds an older load to
be shown behind a load that has failed. -/
theorem refresh_shows_last (m : Chip → Dtm) (spi : List (Option (Nat × Nat))) (busy : List Bool) (calls : List Call)
    (h : Meets Call.step Unspoilt ((el133_init spi busy).2, none) calls) :
    Meets Call.step (ShowsLast m) ((el133_init spi busy).2, none) calls :=
  meets_of_inv (Kept m) (kept_init m spi busy) h (fun _ _ hC hk => (kept_step hC hk).1)
    fun _ _ hC hk => (kept_step hC hk).2

/-- A first frame that is shown. -/
theorem refresh_shows_last_white :
    Meets Call.step (ShowsLast fun _ => ⟨0, fun _ => 0⟩) ((el133_init [] []).2, none)
      [⟨.blanking_on, [], []⟩, ⟨.write (some (List.replicate EL133_PAYLOAD_BYTES 0x11)), [], []⟩,
        ⟨.blanking_off, [], []⟩] :=
  refresh_shows_last _ [] [] _ (unspoilt_show _ List.length_replicate)

/-- A run of calls that the driver meets with a frame that is not the last one. -/
theorem mixed_frame_shown : ¬ ∀ (m : Chip → Dtm) (spi : List (Option (Nat × Nat))) (busy : List Bool)
    (calls : List Call), Meets Call.step (ShowsLast m) ((el133_init spi busy).2, none) calls := by
  intro h
  have hlt : EL133_HALF_BYTES < EL133_PAYLOAD_BYTES := by decide
  refine mixed_run (fun _ => ⟨0, fun _ => 0⟩) (a := List.replicate EL133_PAYLOAD_BYTES 0x11)
    (b := List.replicate EL133_PAYLOAD_BYTES 0x22) List.length_replicate List.length_replicate ?_ (h _ [] [] _)
  simp [hlt]

end EinkNode.El133
