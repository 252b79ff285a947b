import EinkNode.Display.Glass
import EinkNode.Display.Mixed
/-!
# What there is to see

A controller shows what was in its memory when its last refresh command came.
That command goes to both controllers at once, so whatever fails, a command of
the service leaves the screen alone or puts its whole frame there.
-/
open NodeLib EinkNode.Store EinkNode.El133

namespace EinkNode.Display

/-- The memories of the controllers, and what each of them shows. -/
structure Screen where
  memory : Chip → Dtm
  glass : Chip → Dtm

namespace Screen

def take (s : Screen) (x : Rx) : Screen where
  memory := receive s.memory x
  glass c := if x = .cmd c EL133_DRF then s.memory c else s.glass c

def after (s : Screen) (rx : List Rx) : Screen := rx.foldl take s

/-- Both controllers show what they have in their memories. -/
def refreshed (s : Screen) : Screen := ⟨s.memory, s.memory⟩

theorem after_append (s : Screen) (rx rx' : List Rx) : s.after (rx ++ rx') = (s.after rx).after rx' :=
  List.foldl_append

theorem memory_after (s : Screen) (rx : List Rx) : (s.after rx).memory = memories s.memory rx := by
  induction rx generalizing s with
  | nil => rfl
  | cons x rx ih => exact ih (s.take x)

/-- Without a refresh command nothing new is to be seen. -/
theorem glass_after (s : Screen) {rx : List Rx} (h : ∀ x ∈ rx, x.op ≠ EL133_DRF) : (s.after rx).glass = s.glass := by
  induction rx generalizing s with
  | nil => rfl
  | cons x rx ih =>
    refine (ih _ fun y hy => h y (List.mem_cons_of_mem _ hy)).trans ?_
    funext c
    apply if_neg
    intro hx
    exact h x List.mem_cons_self (congrArg Rx.op hx)

end Screen

/-! ## Commands as they are received -/

/-- Data of a refresh command is not seen. -/
theorem Screen.after_data (s : Screen) (chips : List Chip) (data : Bytes) :
    s.after (data.flatMap fun byte => chips.map (Rx.data · EL133_DRF byte)) = s := by
  have hdata : ∀ rx : List Rx, (∀ x ∈ rx, ∃ c byte, x = .data c EL133_DRF byte) → s.after rx = s := by
    intro rx
    induction rx with
    | nil => exact fun _ => rfl
    | cons x rx ih =>
      intro h
      obtain ⟨c, byte, rfl⟩ := h x List.mem_cons_self
      have htake : s.take (.data c EL133_DRF byte) = s := by
        have hmemory : receive s.memory (.data c EL133_DRF byte) = s.memory := by
          funext c'
          exact if_neg fun hop => absurd hop.2 (by decide)
        rw [take, hmemory]
        rfl
      refine Eq.trans ?_ (ih fun y hy => h y (List.mem_cons_of_mem _ hy))
      exact congrArg (Screen.after · rx) htake
  apply hdata
  intro x hx
  obtain ⟨byte, -, hx⟩ := List.mem_flatMap.1 hx
  obtain ⟨c, -, rfl⟩ := List.mem_map.1 hx
  exact ⟨c, byte, rfl⟩

/-- A refresh command is for both controllers; other commands, a load apart, change nothing on the screen. -/
theorem Screen.after_received (s : Screen) {which : Cs} {op : UInt8} {data : Bytes} (hop : op ≠ EL133_DTM)
    (hboth : op = EL133_DRF → which = .EL133_CS_BOTH) :
    s.after (received which op data) = if op = EL133_DRF then s.refreshed else s := by
  by_cases hdrf : op = EL133_DRF
  · rw [if_pos hdrf, hboth hdrf, hdrf]
    unfold received
    rw [after_append, after_data]
    have hmemory (s : Screen) (c : Chip) : receive s.memory (.cmd c EL133_DRF) = s.memory := by
      funext c'
      exact if_neg fun h => absurd h.2 (by decide)
    change (s.take (.cmd .c0 EL133_DRF)).take (.cmd .c1 EL133_DRF) = s.refreshed
    simp only [take, hmemory, refreshed, Screen.mk.injEq, true_and]
    funext c
    cases c with
    | c0 => simp
    | c1 => simp
  · rw [if_neg hdrf]
    have hglass : (s.after (received which op data)).glass = s.glass := by
      apply s.glass_after
      intro x hx h
      exact hdrf ((op_received x hx).symm.trans h)
    have hmem : (s.after (received which op data)).memory = s.memory := by
      rw [memory_after]
      apply memories_other
      intro x hx h
      exact hop ((op_received x hx).symm.trans h)
    generalize s.after (received which op data) = s' at hglass hmem
    cases s'
    cases s
    simp only at hglass hmem
    rw [hglass, hmem]

/-- A command goes out whole, or it fails behind some first part of it. -/
theorem xfer_cmd_received (which : Cs) (cmd : UInt8) (data : Bytes) {d : Driver} (hr : d.panel.Rested) :
    (xfer_cmd which cmd data d).2.panel.Rested ∧ ∃ new, (xfer_cmd which cmd data d).2.panel.rx = d.panel.rx ++ new ∧
      ((xfer_cmd which cmd data d).1 < 0 ∧ new = [] ∨ ∃ sent, new = received which cmd sent ∧
        ((xfer_cmd which cmd data d).1 < 0 ∨ (xfer_cmd which cmd data d).1 = 0 ∧ sent = data)) := by
  obtain ⟨b, hb, hwire, hret⟩ := xfer_cmd_burst which cmd data d
  obtain ⟨hr', hrx⟩ := panel_burst hwire hr
  refine ⟨hr', b.received, hrx, ?_⟩
  rw [hb.received]
  cases hsent : b.sent with
  | none =>
    rw [hsent] at hret
    exact .inl ⟨hret.resolve_right fun hok => (nomatch hok.2), rfl⟩
  | some sent =>
    rw [hsent] at hret
    exact .inr ⟨sent, rfl, hret.imp_right fun hok => ⟨hok.1, Option.some.inj hok.2⟩⟩

/-! ## A refresh -/

/-- Commands for the controllers: they show their memories, or what they have shown before. -/
def Plain (new : List Rx) : Prop := ∀ s : Screen, s.after new = s ∨ s.after new = s.refreshed

theorem Plain.append {new new' : List Rx} (h : Plain new) (h' : Plain new') : Plain (new ++ new') := by
  intro s
  rw [Screen.after_append]
  rcases h s with h | h
  · rw [h]
    exact h' s
  · rw [h]
    exact .inr ((h' s.refreshed).elim id id)

theorem plain_received {which : Cs} {op : UInt8} {data : Bytes} (hop : op ≠ EL133_DTM)
    (hboth : op = EL133_DRF → which = .EL133_CS_BOTH) : Plain (received which op data) := by
  intro s
  rw [s.after_received hop hboth]
  split
  · exact .inr rfl
  · exact .inl rfl

/-- A command, and the wait behind it. -/
theorem xfer_and_wait_received {which : Cs} {cmd : UInt8} (data : Bytes) (hop : cmd ≠ EL133_DTM)
    (hboth : cmd = EL133_DRF → which = .EL133_CS_BOTH) {d : Driver} (hr : d.panel.Rested) :
    (xfer_and_wait which cmd data d).2.panel.Rested ∧
      ∃ new, (xfer_and_wait which cmd data d).2.panel.rx = d.panel.rx ++ new ∧ Plain new ∧
        ((xfer_and_wait which cmd data d).1 < 0 ∨
          (xfer_and_wait which cmd data d).1 = 0 ∧ new = received which cmd data) := by
  unfold xfer_and_wait
  simp only [bind_app]
  obtain ⟨hr1, new, hrx, hres⟩ := xfer_cmd_received which cmd data hr
  generalize xfer_cmd which cmd data d = r at hr1 hrx hres ⊢
  obtain ⟨ret, d1⟩ := r
  dsimp only at hr1 hrx hres ⊢
  have hplain : Plain new := by
    rcases hres with ⟨-, rfl⟩ | ⟨sent, rfl, -⟩
    · exact fun s => .inl rfl
    · exact plain_received hop hboth
  by_cases hneg : ret < 0
  · rw [if_pos hneg]
    exact ⟨hr1, new, hrx, hplain, .inl hneg⟩
  obtain ⟨sent, rfl, hsent⟩ := hres.resolve_left fun h => hneg h.1
  obtain rfl := (hsent.resolve_left hneg).2
  rw [if_neg hneg]
  refine ⟨hr1, _, hrx, hplain, ?_⟩
  unfold wait_ready
  dsimp only
  split
  · exact .inr ⟨rfl, rfl⟩
  · exact .inl (by decide)

/-- Commands one after the other, up to the first that fails. -/
theorem each_until_received {l : List (Cs × UInt8 × Bytes)}
    (hl : ∀ c ∈ l, c.2.1 ≠ EL133_DTM ∧ (c.2.1 = EL133_DRF → c.1 = .EL133_CS_BOTH)) {d : Driver} (hr : d.panel.Rested) :
    (each_until (fun c => xfer_and_wait c.1 c.2.1 c.2.2) l d).2.panel.Rested ∧
      ∃ new, (each_until (fun c => xfer_and_wait c.1 c.2.1 c.2.2) l d).2.panel.rx = d.panel.rx ++ new ∧ Plain new ∧
        ((each_until (fun c => xfer_and_wait c.1 c.2.1 c.2.2) l d).1 < 0 ∨
          (each_until (fun c => xfer_and_wait c.1 c.2.1 c.2.2) l d).1 = 0 ∧
            new = l.flatMap fun c => received c.1 c.2.1 c.2.2) := by
  induction l generalizing d with
  | nil => exact ⟨hr, [], (List.append_nil _).symm, fun s => .inl rfl, .inr ⟨rfl, rfl⟩⟩
  | cons c l ih =>
    obtain ⟨hop, hboth⟩ := hl _ List.mem_cons_self
    obtain ⟨hr1, new, hrx, hplain, hres⟩ := xfer_and_wait_received c.2.2 hop hboth hr
    simp only [each_until, bind_app]
    generalize xfer_and_wait c.1 c.2.1 c.2.2 d = r at hr1 hrx hres ⊢
    obtain ⟨ret, d1⟩ := r
    dsimp only at hr1 hrx hres ⊢
    by_cases hneg : ret < 0
    · rw [if_pos hneg]
      exact ⟨hr1, new, hrx, hplain, .inl hneg⟩
    rw [if_neg hneg]
    obtain ⟨hr2, new', hrx', hplain', hres'⟩ := ih (fun c hc => hl c (List.mem_cons_of_mem _ hc)) hr1
    refine ⟨hr2, new ++ new', by rw [hrx', hrx, List.append_assoc], hplain.append hplain', ?_⟩
    refine hres'.imp id fun h => ⟨h.1, ?_⟩
    rw [h.2, (hres.resolve_left hneg).2, List.flatMap_cons]

theorem Screen.after_flatMap {l : List (Cs × UInt8 × Bytes)}
    (hl : ∀ c ∈ l, c.2.1 ≠ EL133_DTM ∧ (c.2.1 = EL133_DRF → c.1 = .EL133_CS_BOTH)) (s : Screen) :
    s.after (l.flatMap fun c => received c.1 c.2.1 c.2.2) = if ∃ c ∈ l, c.2.1 = EL133_DRF then s.refreshed else s := by
  induction l generalizing s with
  | nil => rfl
  | cons c l ih =>
    obtain ⟨hop, hboth⟩ := hl _ List.mem_cons_self
    rw [List.flatMap_cons, after_append, s.after_received hop hboth, ih fun c hc => hl c (List.mem_cons_of_mem _ hc)]
    by_cases hc : c.2.1 = EL133_DRF
    · simp [hc, refreshed]
    · rw [if_neg hc]
      exact if_congr (by simp [hc]) rfl rfl

/-- A refresh that ends well was received whole. -/
theorem refresh_received {d : Driver} (hr : d.panel.Rested) :
    (refresh d).2.panel.Rested ∧ ∃ new, (refresh d).2.panel.rx = d.panel.rx ++ new ∧ Plain new ∧
      ((refresh d).1 < 0 ∨ (refresh d).1 = 0 ∧ ∀ s : Screen, s.after new = s.refreshed) := by
  obtain ⟨hr', new, hrx, hplain, hres⟩ := @each_until_received refresh_commands (by decide) d hr
  refine ⟨hr', new, hrx, hplain, hres.imp id fun h => ⟨h.1, fun s => ?_⟩⟩
  rw [h.2, s.after_flatMap (by decide)]
  exact if_pos (by decide)

/-! ## Transfers that are not supported -/

/-- No transfer ends in `-ENOTSUP`, which the end of a write takes for a success. -/
def AllSupported (spi : List (Option (Nat × Nat))) : Prop :=
  ∀ e n, some (e, n) ∈ spi → -((e + 1 : Nat) : Int) ≠ -ENOTSUP

def Supported (d : Driver) : Prop := AllSupported d.spi

theorem supported_spi_write (bytes : Bytes) :
    Ensures Supported (spi_write bytes) fun ret d => Supported d ∧ ret ≠ -ENOTSUP := by
  intro d h
  rw [wp_iff]
  unfold spi_write
  cases hspi : d.spi with
  | nil => exact ⟨fun e n hmem => absurd hmem List.not_mem_nil, show (0 : Int) ≠ -ENOTSUP by decide⟩
  | cons fate spi =>
    have htail (d' : Driver) (hd' : d'.spi = spi) : Supported d' := by
      intro e n hmem
      apply h e n
      rw [hspi]
      exact List.mem_cons_of_mem _ (hd' ▸ hmem)
    cases fate with
    | none => exact ⟨htail _ rfl, show (0 : Int) ≠ -ENOTSUP by decide⟩
    | some fate => exact ⟨htail _ rfl, h fate.1 fate.2 (by rw [hspi]; exact List.mem_cons_self)⟩

/-- What is in store stays without such a transfer. -/
def KeepsSupported (d d' : Driver) : Prop := Supported d → Supported d'

instance : IsPreorder Driver KeepsSupported where
  refl _ := id
  trans _ _ _ h h' := h' ∘ h

theorem onWires_supported : OnWires KeepsSupported where
  pin _ _ := id
  transfer bytes d h := (supported_spi_write bytes d h).1

theorem supported_xfer_cmd (which : Cs) (cmd : UInt8) (data : Bytes) :
    Ensures Supported (xfer_cmd which cmd data) fun ret d => Supported d ∧ ret ≠ -ENOTSUP := by
  have hrelease (ret : Int) : Ensures (fun d => Supported d ∧ ret ≠ -ENOTSUP) (do cs_set which false; pure ret)
      fun ret d => Supported d ∧ ret ≠ -ENOTSUP :=
    fun d h => ⟨onWires_supported.keeps_cs_set which false d h.1, h.2⟩
  have hpin (op : Op) : Ensures Supported (put op) fun _ => Supported := fun _ h => h
  have hselect : Ensures Supported (cs_set which true) fun _ => Supported :=
    fun d h => onWires_supported.keeps_cs_set which true d h
  refine ensures_bind hselect fun _ => ensures_bind (hpin _) fun _ => ?_
  refine ensures_bind (supported_spi_write _) fun ret => ?_
  refine ensures_ite (fun _ => hrelease ret) fun _ => ensures_ite (fun _ => hrelease ret) fun _ => ?_
  refine ensures_bind ((hpin _).imp (fun _ h => h.1) fun _ _ h => h) fun _ => ?_
  exact ensures_bind (supported_spi_write _) fun ret' => hrelease ret'

theorem supported_refresh : Ensures Supported refresh fun ret d => Supported d ∧ ret ≠ -ENOTSUP := by
  have hall (l : List (Cs × UInt8 × Bytes)) :
      Ensures Supported (each_until (fun c => xfer_and_wait c.1 c.2.1 c.2.2) l)
        fun ret d => Supported d ∧ ret ≠ -ENOTSUP := by
    induction l with
    | nil => exact fun d h => ⟨h, show (0 : Int) ≠ -ENOTSUP by decide⟩
    | cons c l ih =>
      have hwait (d : Driver) (h : Supported d) : Supported (wait_ready d).2 ∧ (wait_ready d).1 ≠ -ENOTSUP := by
        refine ⟨h, ?_⟩
        unfold wait_ready
        dsimp only
        split
        · decide
        · decide
      have hcmd : Ensures Supported (xfer_and_wait c.1 c.2.1 c.2.2) fun ret d => Supported d ∧ ret ≠ -ENOTSUP :=
        ensures_bind (supported_xfer_cmd _ _ _) fun ret =>
          ensures_ite (fun _ => ensures_pure fun _ h => h) fun _ d h => hwait d h.1
      refine ensures_bind hcmd fun ret => ensures_ite (fun _ => ensures_pure fun _ h => h) fun _ => ?_
      exact ih.imp (fun _ h => h.1) fun _ _ h => h
  exact hall refresh_commands

theorem supported_loaded {d : Driver} (h : Supported d) : Supported (loaded d).2 := by
  have hrefresh := (supported_refresh { d with dirty := true } h).1
  unfold loaded
  dsimp only
  split
  · exact h
  · generalize refresh { d with dirty := true } = r at hrefresh ⊢
    obtain ⟨ret, d'⟩ := r
    dsimp only at hrefresh ⊢
    split
    · exact hrefresh
    · exact hrefresh

section
variable {σ : Type} {fill : Nat → StateM σ (Except Int Bytes)}

theorem supported_stream_write {s : Driver × σ} (h : Supported s.1) :
    Supported (el133uf1_stream_write fill s).2.1 := by
  unfold el133uf1_stream_write
  have h0 := onWires_supported.keeps_stream_half fill .EL133_CS0 s h
  have h1 := onWires_supported.keeps_stream_half fill .EL133_CS1 _ h0
  simp only [bind_app]
  split
  · exact h0
  simp only [bind_app]
  split
  · exact h1
  · exact supported_loaded h1

end

/-! ## One command -/

/-- What a command that comes to `ret` does to the screen: what is new there is a frame of `P`, and after a success
there is one. -/
structure Displays (P : Bytes → Prop) (supported : Prop) (ret : Int) (new : List Rx) : Prop where
  only : ∀ s : Screen, (s.after new).glass = s.glass ∨ ∃ frame, P frame ∧ HoldsFrame (s.after new).glass frame
  done : ret = 0 → supported → ∃ frame, P frame ∧ ∀ s : Screen, HoldsFrame (s.after new).glass frame

theorem Displays.imp {P Q : Bytes → Prop} {supported supported' : Prop} {ret : Int} {new : List Rx}
    (h : Displays P supported ret new) (hPQ : ∀ frame, P frame → Q frame) (hs : supported' → supported) :
    Displays Q supported' ret new where
  only s := (h.only s).imp id fun ⟨frame, hP, hholds⟩ => ⟨frame, hPQ frame hP, hholds⟩
  done hret hs' :=
    have ⟨frame, hP, hholds⟩ := h.done hret (hs hs')
    ⟨frame, hPQ frame hP, hholds⟩

theorem Displays.of_error {P : Bytes → Prop} {supported : Prop} {ret : Int} (h : ret < 0) :
    Displays P supported ret [] where
  only _ := .inl rfl
  done hret := absurd (hret ▸ h) (Int.lt_irrefl 0)

/-- Bytes of a load are not seen. -/
theorem glass_load {frame : Bytes} {load : List Rx} (h : Sent frame load) (s : Screen) :
    (s.after load).glass = s.glass := by
  apply s.glass_after
  have hload : ∀ x ∈ load, x.op = EL133_DTM := by
    cases h with
    | nothing => exact List.forall_mem_nil _
    | left => exact op_half
    | right =>
      intro x hx
      exact (List.mem_append.1 hx).elim (op_half x) (op_half x)
  intro x hx hop
  exact absurd ((hload x hx).symm.trans hop) (by decide)

theorem write_stream_displays (ready : Bool) (stream : StreamFile) {s : Device} (hr : s.1.panel.Rested) :
    ∃ new, (write_stream ready stream s).2.1.panel.rx = s.1.panel.rx ++ new ∧
      (write_stream ready stream s).2.1.panel.Rested ∧
      Displays (· = (Streaming.left (s.2, stream)).take EL133_PAYLOAD_BYTES) (Supported s.1)
        (write_stream ready stream s).1 new := by
  obtain ⟨d, disk⟩ := s
  unfold write_stream write_stream_to_display
  cases ready with
  | false => exact ⟨[], (List.append_nil _).symm, hr, .of_error (show -ENODEV < 0 by decide)⟩
  | true =>
    -- Blanking is on while the frame is loaded, so that only `blanking_off` refreshes.
    have hon : drv el133_blanking_on (d, (disk, stream)) = (0, ({ d with blanking_on := true }, (disk, stream))) := rfl
    obtain ⟨load, hrx, hr1, hsent, hres⟩ :=
      stream_write_spec feeds_stream (s := ({ d with blanking_on := true }, (disk, stream))) hr rfl
    have hsupported (h : Supported d) : Supported
        (el133uf1_stream_write stream_fill_cb ({ d with blanking_on := true }, (disk, stream))).2.1 :=
      supported_stream_write h
    simp only [Bool.not_true, Bool.false_eq_true, if_false, bind_app]
    rw [hon]
    simp only [Int.lt_irrefl, false_and, if_false, bind_app]
    generalize el133uf1_stream_write stream_fill_cb ({ d with blanking_on := true }, (disk, stream)) = r
      at hrx hr1 hres hsupported ⊢
    obtain ⟨ret, d1, u⟩ := r
    dsimp only at hrx hr1 hres hsupported ⊢
    by_cases hneg : ret < 0
    · rw [if_pos hneg]
      exact ⟨load, hrx, hr1, fun s => .inl (glass_load hsent s), fun h => absurd (h ▸ hneg) (Int.lt_irrefl 0)⟩
    obtain ⟨hdirty, s0, s1, rfl, hpre, hlen0, hlen1⟩ := hres.resolve_left hneg
    rw [if_neg hneg]
    obtain ⟨hr2, shown, hrx2, hplain, hshown⟩ := refresh_received hr1
    have hnotsup (h : Supported d) := (supported_refresh d1 (hsupported h)).2
    simp only [bind_app]
    rw [blanking_off_dirty hdirty]
    generalize refresh d1 = r at hr2 hrx2 hshown hnotsup ⊢
    obtain ⟨ret', d2⟩ := r
    dsimp only at hr2 hrx2 hshown hnotsup ⊢
    have hnew : d2.panel.rx = d.panel.rx ++ (half .c0 s0 ++ half .c1 s1 ++ shown) := by
      rw [hrx2, hrx, List.append_assoc]
      rfl
    have hmemory (s : Screen) : HoldsFrame (s.after (half .c0 s0 ++ half .c1 s1)).memory
        ((Streaming.left (disk, stream)).take EL133_PAYLOAD_BYTES) := by
      rw [s.memory_after]
      exact holdsFrame_halves _ hpre hlen0 hlen1
    have hdisplays (final : Int) (hfinal : final = 0 → ret' = 0 ∨ ret' = -ENOTSUP) :
        Displays (· = (Streaming.left (disk, stream)).take EL133_PAYLOAD_BYTES) (Supported d) final
          (half .c0 s0 ++ half .c1 s1 ++ shown) := by
      constructor
      · intro s
        rw [s.after_append]
        rcases hplain (s.after (half .c0 s0 ++ half .c1 s1)) with h | h
        · rw [h]
          exact .inl (glass_load hsent s)
        · rw [h]
          exact .inr ⟨_, rfl, hmemory s⟩
      · intro hret hs
        refine ⟨_, rfl, fun s => ?_⟩
        have hzero := (hfinal hret).resolve_right (hnotsup hs)
        have hrefreshed := (hshown.resolve_left fun h => absurd (hzero ▸ h) (Int.lt_irrefl 0)).2
        rw [s.after_append, hrefreshed]
        exact hmemory s
    refine ⟨half .c0 s0 ++ half .c1 s1 ++ shown, ?_, ?_, ?_⟩
    · split
      · exact hnew
      · exact hnew
    · split
      · exact hr2
      · exact hr2
    · split
      · exact hdisplays ret' .inl
      · next hoff =>
        refine hdisplays 0 fun _ => ?_
        by_cases hnot : ret' = -ENOTSUP
        · exact .inr hnot
        · refine .inl (hshown.resolve_left fun h => hoff ⟨h, hnot⟩).1

/-- The frames that a command may show: white, or what is in a file that it has found valid. -/
inductive FrameOf (b : Build) (lib : Lz4Lib) (r : Request) : Bytes → Prop where
  | white (htype : r.cmd.type = .CLEAR) : FrameOf b lib r (List.replicate EL133_PAYLOAD_BYTES 0x11)
  | file {es6f_path : Path} {file : Bytes} {hdr : Header} (htype : r.cmd.type ≠ .CLEAR)
      (hpath : (eink_store_materialize_es6f lib b r.cmd.path.val 320 r.disk).1 = .ok es6f_path)
      (hfile : (eink_store_materialize_es6f lib b r.cmd.path.val 320 r.disk).2.files es6f_path = some file)
      (hframe : IsFrame file hdr) : FrameOf b lib r (frame_payload file)

theorem show_file_displays {b : Build} {lib : Lz4Lib} {r : Request} (htype : r.cmd.type ≠ .CLEAR) {d : Driver}
    (hr : d.panel.Rested) :
    ∃ new, (show_file b lib r.ready r.cmd.path.val (d, r.disk)).2.1.panel.rx = d.panel.rx ++ new ∧
      (show_file b lib r.ready r.cmd.path.val (d, r.disk)).2.1.panel.Rested ∧
      Displays (FrameOf b lib r) (Supported d) (show_file b lib r.ready r.cmd.path.val (d, r.disk)).1 new := by
  rcases show_file_cases b lib r.ready r.cmd.path.val d r.disk with
    ⟨e, disk', hneg, hshow⟩ | ⟨es6f_path, file, hdr, disk', hpath, hfile, hframe, hfiles, hshow⟩
  · rw [hshow]
    exact ⟨[], (List.append_nil _).symm, hr, .of_error hneg⟩
  · rw [hshow]
    obtain ⟨new, hrx, hr', hdisplays⟩ := write_stream_displays r.ready (payloadStream es6f_path) (s := (d, disk')) hr
    refine ⟨new, hrx, hr', hdisplays.imp ?_ id⟩
    rintro frame rfl
    -- The file that is streamed is the one that has validated.
    rw [left_payloadStream (hfiles ▸ hfile)]
    exact .file htype hpath hfile hframe

/-- What a command does to the screen, whatever fails. -/
theorem serve_displays (b : Build) (lib : Lz4Lib) {d : Driver} (r : Request) (hr : d.panel.Rested) :
    ∃ new, (served b lib d r).panel.rx = d.panel.rx ++ new ∧ (served b lib d r).panel.Rested ∧
      Displays (FrameOf b lib r) (AllSupported r.spi) (serve b lib d r).1 new := by
  unfold served serve perform
  by_cases hclear : r.cmd.type = .CLEAR
  · simp only [if_pos hclear]
    obtain ⟨new, hrx, hr', hdisplays⟩ :=
      write_stream_displays r.ready white_stream (s := ({ d with spi := r.spi, busy := r.busy }, r.disk)) hr
    refine ⟨new, hrx, hr', hdisplays.imp ?_ id⟩
    rintro frame rfl
    have hwhite : (Streaming.left (r.disk, white_stream)).take EL133_PAYLOAD_BYTES =
        List.replicate EL133_PAYLOAD_BYTES 0x11 := by
      refine (List.take_replicate ..).trans ?_
      rw [show white_stream.payload_left = EL133_PAYLOAD_BYTES from rfl, Nat.min_self]
      rfl
    rw [hwhite]
    exact .white hclear
  · simp only [if_neg hclear]
    exact show_file_displays hclear (d := { d with spi := r.spi, busy := r.busy }) hr

end EinkNode.Display
