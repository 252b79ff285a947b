import EinkNode.Display.Mixed
import EinkNode.Display.Preview
import EinkNode.Store.Intact
/-!
# From the generator to the glass

A picture that the generator packs and frames, that the store accepts and that a
path command shows is in the memories of the controllers pixel by pixel, whenever
the panel is told to refresh.
-/
open NodeLib EinkNode.Store EinkNode.El133

namespace EinkNode.Display

/-! ## Pixels in the memories -/

/-- The four bits of a pixel: the left half of the panel has the first controller, two pixels share a byte. -/
def glass_nibble (m : Chip → Dtm) (x y : Nat) : UInt8 :=
  let chip := if x < EINK_HALF_WIDTH then Chip.c0 else Chip.c1
  let hx := if x < EINK_HALF_WIDTH then x else x - EINK_HALF_WIDTH
  let byte := (m chip).cell (y * 300 + hx / 2)
  if hx % 2 = 0 then byte >>> 4 else byte &&& 0x0f

/-- Every pixel has its palette code. -/
def ShowsPicture (img : GenEinkFrame.PaletteImage) (m : Chip → Dtm) : Prop :=
  ∀ x < 1200, ∀ y < 1600, glass_nibble m x y = img.code x y

/-- A byte of one half, in the memory of its controller. -/
theorem holdsFrame_cell {m : Chip → Dtm} {frame : Bytes} (h : HoldsFrame m frame) (right : Bool) {i : Nat}
    (hi : i < EL133_HALF_BYTES) {byte : UInt8}
    (hbyte : frame[(if right then EL133_HALF_BYTES else 0) + i]? = some byte) :
    (m (if right then .c1 else .c0)).cell i = byte := by
  cases right with
  | false =>
    apply h.left
    rw [List.getElem?_take_of_lt hi, ← hbyte, if_neg Bool.false_ne_true, Nat.zero_add]
  | true =>
    apply h.right
    rw [List.getElem?_drop, ← hbyte, if_pos rfl]

theorem shows_of_holds {img : GenEinkFrame.PaletteImage} {m : Chip → Dtm} (h : HoldsFrame m img.fill_image) :
    ShowsPicture img m := by
  have hhalf (right : Bool) (hx y : Nat) (hlt : hx < 600) (hy : y < 1600) :
      (if hx % 2 = 0 then (m (if right then .c1 else .c0)).cell (y * 300 + hx / 2) >>> 4
        else (m (if right then .c1 else .c0)).cell (y * 300 + hx / 2) &&& 0x0f) =
        img.code ((if right then 1 else 0) * 600 + hx) y := by
    have hright : (if right then 1 else 0) < 2 := by
      split
      · decide
      · decide
    have hget := img.fill_image_get (y := y) hy hright (show hx / 2 < 300 by omega)
    obtain ⟨hhigh, hlow⟩ := img.nibbles_packed (y := y) hy hright (show hx / 2 < 300 by omega)
    have hbase : (if right then 1 else 0) * GenEinkFrame.HALF = if right then EL133_HALF_BYTES else 0 := by
      cases right
      · rfl
      · rfl
    have hhalf : EL133_HALF_BYTES = 480000 := rfl
    rw [hbase, Nat.add_assoc] at hget
    rw [holdsFrame_cell h right (by omega) hget, hhigh, hlow]
    split
    · next heven => rw [Nat.div_mul_cancel (Nat.dvd_of_mod_eq_zero heven)]
    · next hodd => rw [Nat.add_assoc, show hx / 2 * 2 + 1 = hx by omega]
  intro x hx y hy
  have hwidth : EINK_HALF_WIDTH = 600 := rfl
  unfold glass_nibble
  rw [hwidth]
  by_cases hleft : x < 600
  · simp only [if_pos hleft]
    have hpixel := hhalf false x y hleft hy
    rwa [if_neg Bool.false_ne_true, if_neg Bool.false_ne_true, Nat.zero_mul, Nat.zero_add] at hpixel
  · simp only [if_neg hleft]
    have hpixel := hhalf true (x - 600) y (by omega) hy
    rwa [if_pos rfl, if_pos rfl, Nat.one_mul, Nat.add_sub_cancel' (by omega)] at hpixel

/-! ## Showing a raw frame -/

variable {b : Build} {lib : Lz4Lib} {path : Path} {file : Bytes}

/-- A raw file stands for itself, if its head is read at all. -/
theorem materialize_raw (b : Build) (lib : Lz4Lib) {disk : Disk Path} (hfile : disk.files path = some file)
    (hraw : ∀ head, head <+: file → eink_lz4_is_frame head = false) (cap : Nat) :
    (eink_store_materialize_es6f lib b path cap disk).2.files = disk.files ∧
      ∀ es6f_path, (eink_store_materialize_es6f lib b path cap disk).1 = .ok es6f_path → es6f_path = path := by
  unfold eink_store_materialize_es6f
  by_cases hcap : cap < 16
  · rw [if_pos hcap]
    exact ⟨rfl, nofun⟩
  rw [if_neg hcap]
  simp only [bind_app]
  have hfiles := (reading_read_head path 8 disk).1
  cases hhead : (read_head path 8 disk).1 with
  | error e => exact ⟨hfiles, nofun⟩
  | ok head =>
    obtain ⟨bs, hbs, hprefix⟩ := read_head_ok hhead
    obtain rfl : bs = file := Option.some.inj (hbs.symm.trans hfile)
    dsimp only
    rw [hraw head hprefix, Bool.and_false]
    by_cases hshort : head.length < 4
    · rw [if_pos hshort]
      exact ⟨hfiles, nofun⟩
    · rw [if_neg hshort, if_neg Bool.false_ne_true]
      refine ⟨hfiles, fun es6f_path h => ?_⟩
      simp only [pure_app] at h
      split at h
      · cases h
      · exact (Except.ok.inj h).symm

/-- A raw file that is shown: nothing is sent, or it is streamed from its payload on. -/
theorem show_file_raw {disk : Disk Path} (hfile : disk.files path = some file)
    (hraw : ∀ head, head <+: file → eink_lz4_is_frame head = false) (ready : Bool) (d : Driver) :
    (show_file b lib ready path (d, disk)).2.1 = d ∨ ∃ disk' : Disk Path, disk'.files = disk.files ∧
      show_file b lib ready path (d, disk) = write_stream ready (payloadStream path) (d, disk') := by
  obtain ⟨hfiles1, hpath⟩ := materialize_raw b lib hfile hraw 320
  rcases show_file_cases b lib ready path d disk with
    ⟨e, disk', -, hshow⟩ | ⟨es6f_path, _, _, disk', hes6f, -, -, hfiles, hshow⟩
  · rw [hshow]
    exact .inl rfl
  · obtain rfl := hpath es6f_path hes6f
    exact .inr ⟨disk', hfiles.trans hfiles1, hshow⟩

/-- Every refresh of a write shows the payload of the stream, whatever the memories held. -/
theorem write_stream_shows {payload : Bytes} {stream : StreamFile} {disk : Disk Path}
    (hleft : (Streaming.left (disk, stream)).take EL133_PAYLOAD_BYTES = payload) (ready : Bool) {d : Driver}
    (hr : d.panel.Rested) (m : Chip → Dtm) {pre post : List Rx} {x : Rx}
    (hrx : (write_stream ready stream (d, disk)).2.1.panel.rx = pre ++ x :: post)
    (hlen : d.panel.rx.length ≤ pre.length) (hx : x.op = EL133_DRF) : HoldsFrame (memories m pre) payload := by
  obtain ⟨new, hnew, -, hglass⟩ := write_stream_spec ready stream (s := (d, disk)) hr
  obtain ⟨load, shown, rfl, hsent, hop, hres⟩ := hglass.split
  have hload : ∀ y ∈ load, y.op = EL133_DTM := by
    cases hsent with
    | nothing => exact List.forall_mem_nil _
    | left => exact op_half
    | right => exact fun y hy => (List.mem_append.1 hy).elim (op_half y) (op_half y)
  rw [hnew] at hrx
  rcases hres with ⟨-, rfl⟩ | ⟨s0, s1, hhalves, hpre, hlen0, hlen1⟩
  · -- Without a refresh there is no such command.
    obtain ⟨t, rfl, htail⟩ := split_of_length hrx hlen
    have hmem : x ∈ load := by
      rw [List.append_nil] at htail
      rw [htail]
      exact List.mem_append_right _ List.mem_cons_self
    exact absurd ((hload x hmem).symm.trans hx) (by decide)
  · rw [← hleft]
    exact showsLast_load hrx hlen hx hload hop hhalves hpre hlen0 hlen1

/-! ## Showing where nothing fails -/

section
variable {files : Path → Option Bytes} (hfile : files path = some file)
include hfile

/-- A request in the middle of the file. -/
theorem stream_fill_calm (want : Nat) {pos left : Nat} (hpos : pos + left ≤ file.length) (hwant : 0 < want)
    (hle : want ≤ left) :
    stream_fill_cb want (.calm files, ⟨path, pos, left, none⟩) =
      (.ok ((file.drop pos).take want), (.calm files, ⟨path, pos + want, left - want, none⟩)) := by
  have hlen : ((file.drop pos).take want).length = want := by
    rw [List.length_take, List.length_drop]
    omega
  have hread : fs_read path pos want (.calm files) = (.ok ((file.drop pos).take want), .calm files) := by
    simp only [fs_read, hfile, Disk.err_calm, Disk.files_calm, Disk.outcome_calm, Disk.called_calm, Fault.moved,
      Option.getD_some]
  unfold stream_fill_cb
  dsimp only
  rw [Nat.min_eq_left hle, if_neg (Nat.ne_of_gt hwant), hread]
  dsimp only
  rw [hlen, if_neg (not_not.2 rfl)]

theorem answers_stream (n : Nat) {pos left : Nat} (hpos : pos + left ≤ file.length) (hle : n ≤ left) :
    Answers stream_fill_cb (requests n) (.calm files, ⟨path, pos, left, none⟩) ∧
      asked stream_fill_cb (requests n) (.calm files, ⟨path, pos, left, none⟩) =
        (.calm files, ⟨path, pos + n, left - n, none⟩) := by
  fun_induction requests n generalizing pos left with
  | case1 n hn ih =>
    have hchunk : 0 < EL133_CHUNK := by decide
    have hcall := stream_fill_calm hfile (min EL133_CHUNK n) hpos (by omega) (by omega)
    obtain ⟨hanswers, hasked⟩ := @ih (pos + min EL133_CHUNK n) (left - min EL133_CHUNK n) (by omega) (by omega)
    refine ⟨⟨⟨_, by rw [hcall], ?_⟩, by rw [hcall]; exact hanswers⟩, ?_⟩
    · rw [List.length_take, List.length_drop]
      omega
    · rw [asked, List.foldl_cons, hcall]
      refine hasked.trans ?_
      rw [Nat.add_assoc, Nat.sub_sub, Nat.add_sub_cancel' (Nat.min_le_right _ _)]
  | case2 n hn =>
    obtain rfl : n = 0 := by omega
    exact ⟨trivial, rfl⟩

/-- The whole payload is handed out, half by half. -/
theorem loadsWhole_stream (hsize : file.length = EINK_FRAME_FILE_SIZE) :
    LoadsWhole stream_fill_cb [] (.calm files, payloadStream path) := by
  have hpayload : EINK_PAYLOAD_LEN = EL133_HALF_BYTES + EL133_HALF_BYTES := by decide
  have hpos : EINK_FRAME_HEADER_SIZE + EINK_PAYLOAD_LEN ≤ file.length := Nat.le_of_eq hsize.symm
  obtain ⟨hanswers0, hasked⟩ := answers_stream hfile EL133_HALF_BYTES hpos (by omega)
  refine ⟨fun fate hfate => by simp at hfate, answers_append.2 ⟨hanswers0, ?_⟩⟩
  have hasked' : asked stream_fill_cb (requests EL133_HALF_BYTES) (.calm files, payloadStream path) = _ := hasked
  rw [hasked']
  exact (answers_stream hfile EL133_HALF_BYTES (by omega) (by omega)).1

end

section
variable {σ : Type} {fill : Nat → StateM σ (Except Int Bytes)}

/-- The queue of the waits is the same. -/
def SameWaits (d d' : Driver) : Prop := d'.busy = d.busy

instance : IsPreorder Driver SameWaits where
  refl _ := rfl
  trans _ _ _ h h' := h'.trans h

theorem onWires_sameWaits : OnWires SameWaits where
  pin _ _ := rfl
  transfer bytes d := by
    unfold spi_write
    split
    · exact rfl
    · exact rfl

/-- With blanking on, a load without a fault ends well, and leaves a quiet bus. -/
theorem stream_write_ends {s : Driver × σ} (h : LoadsWhole fill s.1.spi s.2) (hspi : s.1.spi = [])
    (hbusy : s.1.busy = []) (hblank : s.1.blanking_on = true) :
    (el133uf1_stream_write fill s).1 = 0 ∧ (el133uf1_stream_write fill s).2.1.spi = [] ∧
      (el133uf1_stream_write fill s).2.1.busy = [] := by
  obtain ⟨hanswers0, hanswers1⟩ := answers_append.1 h.2
  obtain ⟨hzero0, hqueue0, huser0⟩ := stream_half_quiet .EL133_CS0 (h.1.mono (by omega)) hanswers0
  rw [hspi, List.drop_nil] at hqueue0
  have hquiet : El133.Quiet ((requests EL133_HALF_BYTES).length + 1) (stream_half fill .EL133_CS0 s).2.1.spi := by
    rw [hqueue0]
    exact fun fate hfate => by simp at hfate
  obtain ⟨hzero1, hqueue1, -⟩ := stream_half_quiet .EL133_CS1 hquiet (huser0 ▸ hanswers1)
  rw [hqueue0, List.drop_nil] at hqueue1
  have hbusy0 := onWires_sameWaits.keeps_stream_half fill .EL133_CS0 s
  have hbusy1 := onWires_sameWaits.keeps_stream_half fill .EL133_CS1 (stream_half fill .EL133_CS0 s).2
  obtain ⟨hzero, hend⟩ := stream_write_blanked hzero0 hzero1 hblank
  rw [hend]
  exact ⟨hzero, hqueue1, hbusy1.trans (hbusy0.trans hbusy)⟩

end

/-- A refresh of a panel that is ready ends well. -/
theorem refresh_zero {d : Driver} (hspi : d.spi = []) (hbusy : d.busy = []) : (refresh d).1 = 0 := by
  rw [refresh, each_until_ready hspi hbusy]

/-- A write without a fault ends well, with a refresh. -/
theorem write_stream_whole {disk : Disk Path} {stream : StreamFile}
    (hload : LoadsWhole stream_fill_cb [] (disk, stream)) {d : Driver} (hspi : d.spi = []) (hbusy : d.busy = [])
    (hr : d.panel.Rested) :
    (write_stream true stream (d, disk)).1 = 0 ∧
      ∃ pre x post, (write_stream true stream (d, disk)).2.1.panel.rx = pre ++ x :: post ∧
        d.panel.rx.length ≤ pre.length ∧ x.op = EL133_DRF := by
  have hon : drv el133_blanking_on (d, (disk, stream)) = (0, ({ d with blanking_on := true }, (disk, stream))) := rfl
  have hload' : LoadsWhole stream_fill_cb d.spi (disk, stream) := by rwa [hspi]
  obtain ⟨hzero, hspi1, hbusy1⟩ := stream_write_ends
    (s := ({ d with blanking_on := true }, (disk, stream))) hload' hspi hbusy rfl
  have hdirty := stream_write_whole (s := ({ d with blanking_on := true }, (disk, stream))) hload' rfl
  obtain ⟨load, hrx, hr1, -⟩ :=
    stream_write_spec feeds_stream (s := ({ d with blanking_on := true }, (disk, stream))) hr rfl
  unfold write_stream write_stream_to_display
  simp only [Bool.not_true, Bool.false_eq_true, if_false, bind_app]
  rw [hon]
  simp only [Int.lt_irrefl, false_and, if_false, bind_app, hzero]
  generalize (el133uf1_stream_write stream_fill_cb ({ d with blanking_on := true }, (disk, stream))).2 = s1
    at hspi1 hbusy1 hdirty hrx hr1 ⊢
  obtain ⟨d1, u⟩ := s1
  dsimp only at hspi1 hbusy1 hdirty hrx hr1
  have hrefresh := refresh_zero hspi1 hbusy1
  rw [blanking_off_dirty hdirty]
  simp only [hrefresh, Int.lt_irrefl, false_and, if_false, pure_app]
  obtain ⟨pre, post, hshown⟩ := refresh_ready hspi1 hbusy1 hr1
  refine ⟨trivial, _, _, _, hshown, ?_, rfl⟩
  rw [hrx, List.length_append, List.length_append]
  change d.panel.rx.length ≤ d.panel.rx.length + _ + _
  omega

/-! ## A generated picture -/

/-- The beginning of a frame does not look compressed either. -/
theorem not_lz4_of_head {head : Bytes} (hframe : IsES6F file) (h : head <+: file) : eink_lz4_is_frame head = false := by
  apply Bool.eq_false_iff.2
  intro hlooks
  exact absurd ((not_lz4_of_es6f hframe).symm.trans (lz4_of_head h hlooks)) Bool.false_ne_true

section
variable {files : Path → Option Bytes} (hfile : files path = some file) (hframe : IsES6F file)
include hfile hframe

theorem validate_es6f : ∃ hdr, eink_store_validate_path path (.calm files) = (.ok hdr, .calm files) := by
  obtain ⟨hdr, hverdict⟩ := (verdict_iff_es6f file).2 hframe
  refine ⟨hdr, Prod.ext ((validate_path_calm hfile).trans hverdict) ?_⟩
  have htouches : Touches (fun _ => False) (.calm files) (eink_store_validate_path path (.calm files)).2 :=
    keeps_validate_path touches_fs_open_read touches_fs_read touches_fs_seek (.calm files)
  rw [htouches.eq_calm, (reading_validate_path path (.calm files)).1]
  rfl

theorem check_es6f (b : Build) : (check_temp_image b path (.calm files)).1 = .ok .ES6F := by
  have hsize : 4 ≤ file.length := by
    rw [hframe.size]
    decide
  have hlooks : eink_lz4_is_frame (file.take 8) = false := not_lz4_of_head hframe (List.take_prefix 8 file)
  have hshort : ¬ (file.take 8).length < 4 := by
    rw [List.length_take]
    omega
  obtain ⟨hdr, hvalid⟩ := validate_es6f hfile hframe
  unfold check_temp_image
  rw [bind_app, read_head_calm hfile]
  dsimp only
  rw [if_neg hshort, hlooks, Bool.and_false, if_neg Bool.false_ne_true, bind_app, hvalid]
  rfl

/-- Where nothing fails a frame is streamed from its payload on. -/
theorem show_file_calm (b : Build) (lib : Lz4Lib) (hpath : path.length < 320) (ready : Bool) (d : Driver) :
    show_file b lib ready path (d, .calm files) = write_stream ready (payloadStream path) (d, .calm files) := by
  have hlooks : eink_lz4_is_frame (file.take 8) = false := not_lz4_of_head hframe (List.take_prefix 8 file)
  have hshort : ¬ (file.take 8).length < 4 := by
    rw [List.length_take, hframe.size]
    decide
  have hraw : eink_store_materialize_es6f lib b path 320 (.calm files) = (.ok path, .calm files) := by
    unfold eink_store_materialize_es6f
    rw [if_neg (by decide), bind_app, read_head_calm hfile]
    dsimp only
    rw [if_neg hshort, hlooks, Bool.and_false, if_neg Bool.false_ne_true, if_neg (by omega)]
    rfl
  have hopen : stream_open_path path (.calm files) = (.ok (payloadStream path), .calm files) := by
    simp [stream_open_path, bind_app, fs_open, fs_seek, hfile, payloadStream]
  obtain ⟨hdr, hvalid⟩ := validate_es6f hfile hframe
  unfold show_file
  simp only [bind_app, on_disk, hraw, hvalid, hopen]

end

/-- The controllers are deselected between two commands. -/
theorem rested_served (b : Build) (lib : Lz4Lib) (spi : List (Option (Nat × Nat))) (busy : List Bool)
    (rs : List Request) : (run (served b lib) (el133_init spi busy).2 rs).panel.Rested := by
  refine run_inv (fun d : Driver => d.panel.Rested) (rested_init spi busy) fun d r _ hr => ?_
  obtain ⟨new, -, hr', -⟩ := @perform_spec b lib r.ready r.cmd ({ d with spi := r.spi, busy := r.busy }, r.disk) hr
  exact hr'

/-- A path command shows the picture: whatever fails, no refresh shows anything else, and where nothing fails
there is one. -/
structure ShowsOnGlass (b : Build) (lib : Lz4Lib) (img : GenEinkFrame.PaletteImage) (cmd : Cmd)
    (files : Path → Option Bytes) (d : Driver) : Prop where
  nothing_else : ∀ r : Request, r.cmd = cmd → r.disk.files = files → ∀ m pre x post,
    (served b lib d r).panel.rx = pre ++ x :: post → d.panel.rx.length ≤ pre.length → x.op = EL133_DRF →
    ShowsPicture img (memories m pre)
  shown : (serve b lib d ⟨cmd, .calm files, true, [], []⟩).1 = 0 ∧ ∃ pre x post,
    (served b lib d ⟨cmd, .calm files, true, [], []⟩).panel.rx = pre ++ x :: post ∧
      d.panel.rx.length ≤ pre.length ∧ x.op = EL133_DRF

theorem showsOnGlass_of_file {b : Build} {lib : Lz4Lib} {img : GenEinkFrame.PaletteImage} {cmd : Cmd}
    {files : Path → Option Bytes} {d : Driver} (hr : d.panel.Rested) (htype : cmd.type = .SHOW_PATH)
    (hfile : files cmd.path.val = some file) (hframe : IsES6F file) (hpayload : frame_payload file = img.fill_image) :
    ShowsOnGlass b lib img cmd files d := by
  have hserve (r : Request) (hcmd : r.cmd = cmd) :
      serve b lib d r = show_file b lib r.ready cmd.path.val ({ d with spi := r.spi, busy := r.busy }, r.disk) := by
    rw [serve, perform, hcmd, if_neg (by rw [htype]; exact nofun)]
  constructor
  · intro r hcmd hdisk m pre x post hrx hlong hx
    rw [served, hserve r hcmd] at hrx
    rw [← hdisk] at hfile
    have hraw := fun head (h : head <+: file) => not_lz4_of_head hframe h
    rcases @show_file_raw b lib cmd.path.val file r.disk hfile hraw r.ready
      { d with spi := r.spi, busy := r.busy } with hnone | ⟨disk, hfiles, hshow⟩
    · -- Where nothing is sent, there is no such command.
      rw [hnone] at hrx
      have hmore := congrArg List.length (show d.panel.rx = pre ++ x :: post from hrx)
      rw [List.length_append, List.length_cons] at hmore
      omega
    · rw [hshow] at hrx
      apply shows_of_holds
      have hleft := left_payloadStream (congrFun hfiles cmd.path.val |>.trans hfile)
      exact write_stream_shows (hleft.trans hpayload) r.ready (d := { d with spi := r.spi, busy := r.busy }) hr m hrx
        hlong hx
  · have hshort : cmd.path.val.length < 320 := by
      have hcap := cmd.path.fits
      omega
    rw [served, hserve _ rfl, show_file_calm hfile hframe b lib hshort]
    exact write_stream_whole (loadsWhole_stream hfile hframe.size) (d := { d with spi := [], busy := [] }) rfl rfl hr

/-! ## From the generator on -/

/-- What the generator writes is a frame of the format, with the planes of the picture. -/
theorem built_frame {img : GenEinkFrame.PaletteImage} {orientation : UInt8}
    (h : GenEinkFrame.build img.fill_image orientation.toNat = some file) :
    IsES6F file ∧ frame_payload file = img.fill_image := by
  have hlen : img.fill_image.length = EINK_PAYLOAD_LEN := img.length_fill_image
  generalize img.fill_image = bytes at h hlen ⊢
  obtain ⟨payload, rfl⟩ : ∃ payload : Payload, payload.bytes = bytes := ⟨⟨bytes, hlen⟩, rfl⟩
  rw [gen_build_eq payload.length] at h
  obtain rfl := Option.some.inj h
  refine ⟨(verdict_iff_es6f _).1 ⟨_, verdict_build payload orientation⟩, ?_⟩
  rw [frame_payload, List.drop_left' (length_pack rfl)]
  exact List.take_of_length_le (Nat.le_of_eq hlen)

/-- A path that is short enough comes whole through the slot of the display. -/
theorem show_image_cmd (b : Build) (image_id : CStr 64) (job_id : Option Bytes)
    (hroom : b.root.val.length + image_id.val.length + 13 < 256) :
    (show_path_cmd (eink_store_image_path b image_id.val) job_id).path.val = eink_store_image_path b image_id.val := by
  have hfits : Fits b image_id.val := by
    rw [Fits]
    omega
  have hnul : (0 : UInt8) ∉ image_file b image_id.val (ascii ".es6f") := by
    simp only [image_file, List.mem_append, not_or]
    exact ⟨⟨⟨b.root.noNul, by decide⟩, image_id.noNul⟩, by decide⟩
  have hroot : (ascii "/images/").length = 8 := by decide
  have hsuffix : (ascii ".es6f").length = 5 := by decide
  rw [image_path_eq hfits]
  change (CStr.copy 256 _).val = _
  rw [CStr.val_copy, cstring_of_notMem hnul]
  apply List.take_of_length_le
  simp only [image_file, List.length_append]
  omega

/-- A picture of one colour. -/
def whitePicture : GenEinkFrame.PaletteImage where
  indices := List.replicate (GenEinkFrame.WIDTH * GenEinkFrame.HEIGHT) 1
  length := List.length_replicate
  inPalette := by
    intro c hc
    rw [List.eq_of_mem_replicate hc]
    decide

end EinkNode.Display
