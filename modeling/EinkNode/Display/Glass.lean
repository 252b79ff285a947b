import EinkNode.Display.Panel
import EinkNode.Display.Service
import EinkNode.Lib.Runs
import EinkNode.Store.Expand
/-!
# From the file to the glass

What the work handler does with a command in a build that streams: a path is
expanded if need be, validated, opened again and streamed to the panel. Of a
file only validated frames reach the panel, and it is refreshed only when a
whole frame is in.
-/
open NodeLib EinkNode.Store EinkNode.El133

namespace EinkNode.Display

def EINK_COLOR_WHITE : UInt8 := 0x1

/-- `struct stream_file`: an open file with its offset, or one byte over and over. -/
structure StreamFile where
  path : Path
  pos : Nat
  payload_left : Nat
  solid : Option UInt8

def stream_open_path (path : Path) : FS (Except Int StreamFile) := do
  let ret ← fs_open path false false
  if ret < 0 then pure (.error ret)
  else
    let ret ← fs_seek path
    if ret < 0 then pure (.error ret) else pure (.ok ⟨path, EINK_FRAME_HEADER_SIZE, EINK_PAYLOAD_LEN, none⟩)

/-- The stream of a frame that is open at its payload. -/
def payloadStream (path : Path) : StreamFile := ⟨path, EINK_FRAME_HEADER_SIZE, EINK_PAYLOAD_LEN, none⟩

/-- The stream of a clear command. -/
def white_stream : StreamFile :=
  ⟨[], 0, EINK_PAYLOAD_LEN, some (((EINK_COLOR_WHITE &&& 0x0f) <<< 4) ||| (EINK_COLOR_WHITE &&& 0x0f))⟩

/-- The disk and the stream that is open on it. -/
abbrev Streaming := Disk Path × StreamFile

def stream_fill_cb (max_len : Nat) : StateM Streaming (Except Int Bytes) := fun (d, s) =>
  let want := min max_len s.payload_left
  if want = 0 then (.error (-EINVAL), (d, s))
  else
    match s.solid with
    | some solid_byte =>
      (.ok (List.replicate want solid_byte), (d, { s with payload_left := s.payload_left - want }))
    | none =>
      match fs_read s.path s.pos want d with
      | (.error e, d) => (.error e, (d, s))
      | (.ok bs, d) =>
        let s := { s with pos := s.pos + bs.length }
        if bs.length ≠ want then (.error (-EINVAL), (d, s))
        else (.ok bs, (d, { s with payload_left := s.payload_left - want }))

/-- `ready` is `device_is_ready`. -/
def write_stream_to_display (ready : Bool) : StateM (Driver × Streaming) Int := do
  if !ready then pure (-ENODEV)
  else
    let ret ← drv el133_blanking_on
    if ret < 0 ∧ ret ≠ -ENOTSUP then pure ret
    else
      let ret ← el133uf1_stream_write stream_fill_cb
      if ret < 0 then pure ret
      else
        let ret ← drv el133_blanking_off
        if ret < 0 ∧ ret ≠ -ENOTSUP then pure ret else pure 0

/-- The driver and the disk. -/
abbrev Device := Driver × Disk Path

def on_disk {α : Type} (m : FS α) : StateM Device α := fun s => ((m s.2).1, (s.1, (m s.2).2))

/-- Write a stream to the display, and close it. -/
def write_stream (ready : Bool) (stream : StreamFile) : StateM Device Int := fun s =>
  let r := write_stream_to_display ready (s.1, (s.2, stream))
  (r.1, (r.2.1, r.2.2.1))

variable (b : Build) (lib : Lz4Lib)

def show_file (ready : Bool) (path : Path) : StateM Device Int := do
  match ← on_disk (eink_store_materialize_es6f lib b path 320) with
  | .error e => pure e
  | .ok es6f_path =>
    match ← on_disk (eink_store_validate_path es6f_path) with
    | .error e => pure e
    | .ok _ =>
      match ← on_disk (stream_open_path es6f_path) with
      | .error e => pure e
      | .ok stream => write_stream ready stream

/-- The middle of `eink_work_handler`, from the command to its result. -/
def perform (ready : Bool) (cmd : Cmd) : StateM Device Int :=
  if cmd.type = .CLEAR then write_stream ready white_stream else show_file b lib ready cmd.path.val

/-! ## The stream -/

/-- What the stream has yet to give. -/
def Streaming.left (u : Streaming) : Bytes :=
  match u.2.solid with
  | some solid_byte => List.replicate u.2.payload_left solid_byte
  | none => ((u.1.files u.2.path).getD []).drop u.2.pos

theorem feeds_stream : Feeds Streaming.left stream_fill_cb where
  ok := by
    rintro want ⟨d, s⟩ chunk h hlen
    unfold stream_fill_cb at h ⊢
    dsimp only at h ⊢
    split at h
    · cases h
    · next hwant =>
      rw [if_neg hwant]
      cases hs : s.solid with
      | some solid_byte =>
        rw [hs] at h
        dsimp only at h ⊢
        cases h
        simp only [Streaming.left, hs, List.replicate_append_replicate]
        congr 1
        omega
      | none =>
        rw [hs] at h
        dsimp only at h ⊢
        have hok := @fs_read_ok Path _ s.path s.pos (min want s.payload_left) d
        have hfiles : (fs_read s.path s.pos (min want s.payload_left) d).2.files = d.files := rfl
        generalize fs_read s.path s.pos (min want s.payload_left) d = r at h hok hfiles ⊢
        obtain ⟨r, d'⟩ := r
        cases r with
        | error e => cases h
        | ok bs =>
          dsimp only at h hfiles ⊢
          split at h
          · cases h
          · next hn =>
            cases h
            obtain ⟨-, hpre⟩ := hok rfl
            rw [if_neg hn]
            simp only [Streaming.left, hs, hfiles]
            rw [← List.drop_drop]
            exact (List.prefix_iff_eq_append.1 hpre).symm
  err := by
    rintro want ⟨d, s⟩
    unfold stream_fill_cb
    dsimp only
    split
    · exact show -EINVAL < 0 by decide
    · split
      · trivial
      · have hread := negErr_fs_read s.path s.pos (min want s.payload_left) d
        split
        · next e d' h =>
          rw [h] at hread
          exact hread
        · split
          · exact show -EINVAL < 0 by decide
          · trivial

theorem stream_open_ok {path : Path} {d : Disk Path} {stream : StreamFile}
    (h : (stream_open_path path d).1 = .ok stream) :
    stream = payloadStream path ∧ (stream_open_path path d).2.files = d.files := by
  unfold stream_open_path at h ⊢
  simp only [bind_app] at h ⊢
  by_cases hopen : (fs_open path false false d).1 < 0
  · rw [if_pos hopen] at h
    cases h
  · obtain ⟨-, -, hfiles⟩ := fs_open_read_ok hopen
    rw [if_neg hopen] at h ⊢
    simp only [bind_app] at h ⊢
    split at h
    · cases h
    · next hseek =>
      cases h
      rw [if_neg hseek]
      exact ⟨rfl, hfiles⟩

theorem negErr_stream_open (path : Path) : Always NegErr (stream_open_path path) := by
  refine always_then fun ret => always_ite (fun h => always_pure h) fun _ => ?_
  exact always_then fun ret => always_ite (fun h => always_pure h) fun _ => always_pure trivial

/-! ## One load -/

/-- A load of some of `frame`, and then, if both halves are in, a refresh. -/
structure Glass (frame : Bytes) (ret : Int) (new : List Rx) : Prop where
  split : ∃ load shown, new = load ++ shown ∧ Sent frame load ∧ (∀ x ∈ shown, x.op ≠ EL133_DTM) ∧
    (ret < 0 ∧ shown = [] ∨ ∃ s0 s1, load = half .c0 s0 ++ half .c1 s1 ∧ s0 ++ s1 <+: frame ∧
      s0.length = EL133_HALF_BYTES ∧ s1.length = EL133_HALF_BYTES)

/-- Blanking off a panel that has been loaded is a refresh. -/
theorem blanking_off_dirty {σ : Type} {d : Driver} (hdirty : d.dirty = true) (u : σ) :
    drv el133_blanking_off (d, u) =
      ((refresh d).1, ({ (refresh d).2 with
        dirty := if (refresh d).1 = 0 then false else (refresh d).2.dirty, blanking_on := false }, u)) := by
  simp only [drv, el133_blanking_off, hdirty, if_true]
  rfl

theorem write_stream_spec (ready : Bool) (stream : StreamFile) {s : Device} (hr : s.1.panel.Rested) :
    ∃ new, (write_stream ready stream s).2.1.panel.rx = s.1.panel.rx ++ new ∧
      (write_stream ready stream s).2.1.panel.Rested ∧
      Glass (Streaming.left (s.2, stream)) (write_stream ready stream s).1 new := by
  obtain ⟨d, disk⟩ := s
  unfold write_stream write_stream_to_display
  cases ready with
  | false =>
    refine ⟨[], by simp, hr, ⟨[], [], rfl, .nothing, nofun, .inl ⟨?_, rfl⟩⟩⟩
    exact show -ENODEV < 0 by decide
  | true =>
    -- Blanking is on while the frame is loaded, so that only `blanking_off` refreshes.
    have hon : drv el133_blanking_on (d, (disk, stream)) = (0, ({ d with blanking_on := true }, (disk, stream))) := rfl
    obtain ⟨load, hrx, hr1, hsent, hres⟩ :=
      stream_write_spec feeds_stream (s := ({ d with blanking_on := true }, (disk, stream))) hr rfl
    simp only [Bool.not_true, Bool.false_eq_true, if_false, bind_app]
    rw [hon]
    simp only [Int.lt_irrefl, false_and, if_false, bind_app]
    generalize el133uf1_stream_write stream_fill_cb ({ d with blanking_on := true }, (disk, stream)) = r
      at hrx hr1 hres ⊢
    obtain ⟨ret, d1, u⟩ := r
    dsimp only at hrx hr1 hres ⊢
    by_cases hneg : ret < 0
    · rw [if_pos hneg]
      exact ⟨load, hrx, hr1, ⟨load, [], by rw [List.append_nil], hsent, nofun, .inl ⟨hneg, rfl⟩⟩⟩
    obtain ⟨hdirty, hdone⟩ := hres.resolve_left hneg
    rw [if_neg hneg]
    have hshown := sends_refresh d1 hr1
    simp only [bind_app]
    rw [blanking_off_dirty hdirty]
    generalize refresh d1 = r at hshown ⊢
    obtain ⟨ret', d2⟩ := r
    obtain ⟨hr2, shown, hrx2, hop⟩ := hshown
    dsimp only at hr2 hrx2 ⊢
    have hnew : d2.panel.rx = d.panel.rx ++ (load ++ shown) := by
      rw [hrx2, hrx, List.append_assoc]
      rfl
    refine ⟨load ++ shown, ?_, ?_, ⟨load, shown, rfl, hsent, hop, .inr hdone⟩⟩
    · split <;> exact hnew
    · split <;> exact hr2

/-- What a refresh and the bytes before it show of a payload. -/
structure Shown (payload : Bytes) (new : List Rx) : Prop where
  streamed : frame_bytes new <+: payload
  left : frame_bytes_of .c0 new = (frame_bytes new).take EL133_HALF_BYTES
  right : frame_bytes_of .c1 new = (frame_bytes new).drop EL133_HALF_BYTES
  refreshed : ∀ pre x post, new = pre ++ x :: post → x.op = EL133_DRF →
    frame_bytes_of .c0 pre = payload.take EL133_HALF_BYTES ∧ frame_bytes_of .c1 pre = payload.drop EL133_HALF_BYTES

theorem Glass.shown {frame payload : Bytes} {ret : Int} {new : List Rx} (h : Glass frame ret new)
    (hp : payload = frame.take EINK_PAYLOAD_LEN) : Shown payload new := by
  obtain ⟨load, shown, rfl, hsent, hop, hres⟩ := h.split
  obtain ⟨hstreamed, hleft, hright⟩ := hsent.frame_bytes
  have hall (chips : List Chip) (rest : List Rx) (hrest : ∀ x ∈ rest, x.op ≠ EL133_DTM) :
      (load ++ rest).filterMap (Rx.frame_byte chips) = load.filterMap (Rx.frame_byte chips) := by
    rw [List.filterMap_append, filterMap_of_op_ne hrest, List.append_nil]
  refine ⟨?_, ?_, ?_, ?_⟩
  · rw [hp, frame_bytes, hall _ _ hop]
    exact hstreamed
  · rw [frame_bytes, frame_bytes_of, hall _ _ hop, hall _ _ hop]
    exact hleft
  · rw [frame_bytes, frame_bytes_of, hall _ _ hop, hall _ _ hop]
    exact hright
  · -- A refresh command stands behind the whole load.
    intro pre x post hsplit hx
    have hload : ∀ y ∈ load, y.op = EL133_DTM := by
      cases hsent with
      | nothing =>
        intro y hy
        cases hy
      | left => exact op_half
      | right =>
        intro y hy
        rcases List.mem_append.1 hy with hy | hy
        · exact op_half y hy
        · exact op_half y hy
    have hnot : x ∉ load := fun hmem => absurd ((hload x hmem).symm.trans hx) (by decide)
    obtain ⟨t, rfl, hshown⟩ : ∃ t, pre = load ++ t ∧ shown = t ++ x :: post := by
      rcases List.append_eq_append_iff.1 hsplit with ⟨t, hpre, hshown⟩ | ⟨t, hload', hpost⟩
      · exact ⟨t, hpre, hshown⟩
      · cases t with
        | nil => exact ⟨[], by rw [hload', List.append_nil, List.append_nil], hpost.symm⟩
        | cons y t =>
          obtain rfl : x = y := (List.cons.inj hpost).1
          exact absurd (hload' ▸ List.mem_append_right _ List.mem_cons_self) hnot
    have ht : ∀ y ∈ t, y.op ≠ EL133_DTM := fun y hy => hop y (hshown ▸ List.mem_append_left _ hy)
    rcases hres with ⟨-, rfl⟩ | ⟨s0, s1, rfl, hpre, hlen0, hlen1⟩
    · exact absurd hshown (by simp)
    · have hpayload : payload = s0 ++ s1 := by
        have htwo : EINK_PAYLOAD_LEN = (s0 ++ s1).length := by
          rw [List.length_append, hlen0, hlen1]
          decide
        rw [hp, htwo]
        exact (List.prefix_iff_eq_take.1 hpre).symm
      simp only [frame_bytes_of, hall _ _ ht, List.filterMap_append, filterMap_half]
      rw [hpayload, List.take_left' hlen0, List.drop_left' hlen0]
      exact ⟨List.append_nil s0, List.nil_append s1⟩

/-! ## One command -/

/-- What a path command does to the panel: nothing before a file has validated,
and then only what its payload allows. -/
structure OnlyValidated (path : Path) (d : Disk Path) (ret : Int) (new : List Rx) : Prop where
  framed : (∃ x ∈ new, x.op = EL133_DTM) → ∃ es6f_path file hdr,
    (eink_store_materialize_es6f lib b path 320 d).1 = .ok es6f_path ∧
      (eink_store_materialize_es6f lib b path 320 d).2.files es6f_path = some file ∧ IsFrame file hdr ∧
      Shown (frame_payload file) new
  otherwise : (∀ x ∈ new, x.op ≠ EL133_DTM) → ret < 0 ∧ ∀ x ∈ new, x.op ≠ EL133_DRF

variable {b lib}

theorem OnlyValidated.of_error {path : Path} {d : Disk Path} {ret : Int} (h : ret < 0) :
    OnlyValidated b lib path d ret [] := ⟨by rintro ⟨x, ⟨⟩, -⟩, fun _ => ⟨h, nofun⟩⟩

theorem negErr_materialize (path : Path) (cap : Nat) :
    Always NegErr (eink_store_materialize_es6f lib b path cap) := by
  have hpath (p : Path) : NegErr (if p.length + 1 > cap then (.error (-ENOMEM) : Except Int Path) else .ok p) := by
    split
    · exact show -ENOMEM < 0 by decide
    · trivial
  refine always_ite (fun _ => always_pure (show -EINVAL < 0 by decide)) fun _ => ?_
  refine always_bind (negErr_read_head path 8) ?_
  rintro (e | head) he
  · exact always_pure he
  · refine always_ite (fun _ => always_pure (show -EINVAL < 0 by decide)) fun _ => ?_
    refine always_ite (fun _ => always_then fun ret => always_pure ?_) fun _ => always_pure (hpath _)
    split
    · next h => exact h
    · exact hpath _

/-- Without the load command nothing was sent. -/
theorem Glass.otherwise {frame : Bytes} {ret : Int} {new : List Rx} (h : Glass frame ret new)
    (hnone : ∀ x ∈ new, x.op ≠ EL133_DTM) : ret < 0 ∧ ∀ x ∈ new, x.op ≠ EL133_DRF := by
  obtain ⟨load, shown, rfl, hsent, hop, hres⟩ := h.split
  have hcmd : .cmd .c0 EL133_DTM ∉ load := fun hmem => hnone _ (List.mem_append_left _ hmem) rfl
  have hempty : load = [] := by
    cases hsent with
    | nothing => rfl
    | left => exact absurd List.mem_cons_self hcmd
    | right => exact absurd (List.mem_append_left _ List.mem_cons_self) hcmd
  rcases hres with ⟨hneg, rfl⟩ | ⟨s0, s1, rfl, -⟩
  · subst hempty
    exact ⟨hneg, nofun⟩
  · exact absurd (List.mem_append_left _ List.mem_cons_self) hcmd

/-- A path command ends with an error before the display is touched, or streams a
file that has validated. -/
theorem show_file_cases (b : Build) (lib : Lz4Lib) (ready : Bool) (path : Path) (d : Driver) (disk : Disk Path) :
    (∃ e disk', e < 0 ∧ show_file b lib ready path (d, disk) = (e, d, disk')) ∨
      ∃ es6f_path file hdr disk', (eink_store_materialize_es6f lib b path 320 disk).1 = .ok es6f_path ∧
        (eink_store_materialize_es6f lib b path 320 disk).2.files es6f_path = some file ∧ IsFrame file hdr ∧
        disk'.files = (eink_store_materialize_es6f lib b path 320 disk).2.files ∧
        show_file b lib ready path (d, disk) = write_stream ready (payloadStream es6f_path) (d, disk') := by
  unfold show_file
  simp only [bind_app, on_disk]
  have hmat : NegErr (eink_store_materialize_es6f lib b path 320 disk).1 := negErr_materialize path 320 disk
  generalize (eink_store_materialize_es6f lib b path 320 disk).2 = d1
  cases hm : (eink_store_materialize_es6f lib b path 320 disk).1 with
  | error e =>
    rw [hm] at hmat
    exact .inl ⟨e, d1, hmat, rfl⟩
  | ok es6f_path =>
    simp only [bind_app, on_disk]
    have hval := negErr_validate_path es6f_path d1
    have hfiles1 := (reading_validate_path es6f_path d1).1
    cases hv : (eink_store_validate_path es6f_path d1).1 with
    | error e =>
      rw [hv] at hval
      exact .inl ⟨e, _, hval, rfl⟩
    | ok hdr =>
      obtain ⟨file, hfile, hframe⟩ := validate_path_ok hv
      simp only [bind_app, on_disk]
      generalize (eink_store_validate_path es6f_path d1).2 = d2 at hfiles1 ⊢
      have hopen := negErr_stream_open es6f_path d2
      cases ho : (stream_open_path es6f_path d2).1 with
      | error e =>
        rw [ho] at hopen
        exact .inl ⟨e, _, hopen, rfl⟩
      | ok stream =>
        obtain ⟨rfl, hfiles2⟩ := stream_open_ok ho
        exact .inr ⟨es6f_path, file, hdr, _, rfl, hfile, hframe, hfiles2.trans hfiles1, rfl⟩

/-- The stream of a frame gives its payload. -/
theorem left_payloadStream {path : Path} {disk : Disk Path} {file : Bytes} (hfile : disk.files path = some file) :
    (Streaming.left (disk, payloadStream path)).take EL133_PAYLOAD_BYTES = frame_payload file := by
  simp only [Streaming.left, payloadStream, hfile, Option.getD_some, frame_payload]
  rfl

theorem show_file_spec (ready : Bool) (path : Path) {s : Device} (hr : s.1.panel.Rested) :
    ∃ new, (show_file b lib ready path s).2.1.panel.rx = s.1.panel.rx ++ new ∧
      (show_file b lib ready path s).2.1.panel.Rested ∧
      OnlyValidated b lib path s.2 (show_file b lib ready path s).1 new := by
  obtain ⟨d, disk⟩ := s
  rcases show_file_cases b lib ready path d disk with
    ⟨e, disk', hneg, hshow⟩ | ⟨es6f_path, file, hdr, disk', hpath, hfile, hframe, hfiles, hshow⟩
  · rw [hshow]
    exact ⟨[], (List.append_nil _).symm, hr, .of_error hneg⟩
  · rw [hshow]
    obtain ⟨new, hrx, hr', hglass⟩ := write_stream_spec ready (payloadStream es6f_path) (s := (d, disk')) hr
    -- The file that is streamed is the one that has validated.
    have hleft := left_payloadStream (hfiles ▸ hfile)
    refine ⟨new, hrx, hr', fun _ => ?_, hglass.otherwise⟩
    exact ⟨es6f_path, file, hdr, hpath, hfile, hframe, hglass.shown hleft.symm⟩

theorem perform_spec (ready : Bool) (cmd : Cmd) {s : Device} (hr : s.1.panel.Rested) :
    ∃ new, (perform b lib ready cmd s).2.1.panel.rx = s.1.panel.rx ++ new ∧
      (perform b lib ready cmd s).2.1.panel.Rested ∧
      (cmd.type = .SHOW_PATH → OnlyValidated b lib cmd.path.val s.2 (perform b lib ready cmd s).1 new) := by
  unfold perform
  by_cases hclear : cmd.type = .CLEAR
  · simp only [if_pos hclear]
    obtain ⟨new, hrx, hr', -⟩ := write_stream_spec ready white_stream hr
    exact ⟨new, hrx, hr', fun hshow => absurd (hclear.symm.trans hshow) nofun⟩
  · simp only [if_neg hclear]
    obtain ⟨new, hrx, hr', hvalid⟩ := show_file_spec ready cmd.path.val hr
    exact ⟨new, hrx, hr', fun _ => hvalid⟩

/-! ## Every command -/

/-- A command, with the disk that it finds and what the bus and the panel answer. -/
structure Request where
  cmd : Cmd
  disk : Disk Path
  ready : Bool
  spi : List (Option (Nat × Nat))
  busy : List Bool

variable (b lib)

def serve (d : Driver) (r : Request) : Int × Device :=
  perform b lib r.ready r.cmd ({ d with spi := r.spi, busy := r.busy }, r.disk)

def served (d : Driver) (r : Request) : Driver := (serve b lib d r).2.1

/-- What a path command adds to what the controllers have received. -/
def ShowsValidated (d : Driver) (r : Request) : Prop :=
  r.cmd.type = .SHOW_PATH → ∃ new, (serve b lib d r).2.1.panel.rx = d.panel.rx ++ new ∧
    OnlyValidated b lib r.cmd.path.val r.disk (serve b lib d r).1 new

/-- After initialisation and any commands, a path command shows validated frames only. -/
theorem only_validated_reach_glass (spi : List (Option (Nat × Nat))) (busy : List Bool) (rs : List Request) :
    Meets (served b lib) (ShowsValidated b lib) (el133_init spi busy).2 rs := by
  have hspec (d : Driver) (r : Request) (hr : d.panel.Rested) :
      ∃ new, (serve b lib d r).2.1.panel.rx = d.panel.rx ++ new ∧ (serve b lib d r).2.1.panel.Rested ∧
        (r.cmd.type = .SHOW_PATH → OnlyValidated b lib r.cmd.path.val r.disk (serve b lib d r).1 new) :=
    perform_spec r.ready r.cmd (s := ({ d with spi := r.spi, busy := r.busy }, r.disk)) hr
  refine meets_of_invariant (·.panel.Rested) (rested_init spi busy) (fun d r hr => ?_) fun d r hr htype => ?_
  · obtain ⟨new, -, hr', -⟩ := hspec d r hr
    exact hr'
  · obtain ⟨new, hrx, -, hvalid⟩ := hspec d r hr
    exact ⟨new, hrx, hvalid htype⟩

end EinkNode.Display
