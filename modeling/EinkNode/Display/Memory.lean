import EinkNode.Display.Picture
import EinkNode.Lib.Alike
/-!
# A frame in memory

In a build with the full framebuffer a command can bring its frame along. What
`write_payload_to_display` does with it is what showing a file with that payload
does, but for the question whether the display is ready.
-/
open NodeLib EinkNode.Store

namespace EinkNode.El133

section
variable {σ τ : Type} {R : σ → τ → Prop} {fill : Nat → StateM σ (Except Int Bytes)}
  {fill' : Nat → StateM τ (Except Int Bytes)}

/-! ## Callbacks that answer alike -/

theorem alike_drv {α : Type} (m : StateM Driver α) : Alike (Beside R) (drv (σ := σ) m) (drv m) := by
  rintro ⟨d, u⟩ ⟨d', v⟩ ⟨rfl, h⟩
  exact ⟨rfl, rfl, h⟩

/-- The loop asks both for the same, and passes on what they have given. -/
theorem alike_stream_loop (h : ∀ want, Alike R (fill want) (fill' want)) (filled : Nat) :
    Alike (Beside R) (stream_loop fill filled) (stream_loop fill' filled) := by
  rintro s ⟨d', v⟩ ⟨hd, hrel⟩
  dsimp only at hd
  subst hd
  fun_induction stream_loop fill filled s generalizing v with
  | case1 filled s hlt want e u hcall =>
    obtain ⟨v', hcall', hrest⟩ := (h want).follow hrel hcall
    rw [stream_loop.eq_def fill', dif_pos hlt]
    simp only [show min EL133_CHUNK (EL133_HALF_BYTES - filled) = want from rfl, hcall']
    exact ⟨trivial, rfl, hrest⟩
  | case2 filled s hlt want chunk u hcall hn =>
    obtain ⟨v', hcall', hrest⟩ := (h want).follow hrel hcall
    rw [stream_loop.eq_def fill', dif_pos hlt]
    simp only [show min EL133_CHUNK (EL133_HALF_BYTES - filled) = want from rfl, hcall', dif_pos hn]
    exact ⟨trivial, rfl, hrest⟩
  | case3 filled s hlt want chunk u hcall hn ret d hspi hneg =>
    obtain ⟨v', hcall', hrest⟩ := (h want).follow hrel hcall
    rw [stream_loop.eq_def fill', dif_pos hlt]
    simp only [show min EL133_CHUNK (EL133_HALF_BYTES - filled) = want from rfl, hcall', dif_neg hn, hspi, if_pos hneg]
    exact ⟨trivial, rfl, hrest⟩
  | case4 filled s hlt want chunk u hcall hn ret d hspi hneg ih =>
    obtain ⟨v', hcall', hrest⟩ := (h want).follow hrel hcall
    rw [stream_loop.eq_def fill', dif_pos hlt]
    simp only [show min EL133_CHUNK (EL133_HALF_BYTES - filled) = want from rfl, hcall', dif_neg hn, hspi, if_neg hneg]
    exact ih v' hrest
  | case5 filled s hge =>
    rw [stream_loop.eq_def fill', dif_neg hge]
    exact ⟨rfl, rfl, hrel⟩

theorem alike_stream_half (h : ∀ want, Alike R (fill want) (fill' want)) (which : Cs) :
    Alike (Beside R) (stream_half fill which) (stream_half fill' which) := by
  refine alike_bind (alike_drv _) fun _ => alike_bind (alike_drv _) fun _ => alike_bind (alike_drv _) fun ret => ?_
  refine alike_ite (alike_bind (alike_drv _) fun _ => alike_pure _) (alike_bind (alike_drv _) fun _ => ?_)
  exact alike_bind (alike_stream_loop h 0) fun _ => alike_bind (alike_drv _) fun _ => alike_pure _

/-- The driver does the same for two callbacks that answer alike. -/
theorem alike_stream_write (h : ∀ want, Alike R (fill want) (fill' want)) :
    Alike (Beside R) (el133uf1_stream_write fill) (el133uf1_stream_write fill') := by
  refine alike_bind (alike_stream_half h _) fun ret => alike_ite (alike_pure _) ?_
  exact alike_bind (alike_stream_half h _) fun ret => alike_ite (alike_pure _) (alike_drv _)

end

end EinkNode.El133

namespace EinkNode.Display

/-! ## The payload of a command -/

/-- `struct mem_stream`. -/
structure MemStream where
  p : Bytes
  left : Nat

def mem_fill_cb (max_len : Nat) : StateM MemStream (Except Int Bytes) := fun m =>
  let n := min max_len m.left
  if n = 0 then (.error (-EINVAL), m) else (.ok (m.p.take n), ⟨m.p.drop n, m.left - n⟩)

/-- With the driver of the panel. Nothing asks whether its device is ready. -/
def write_mem_to_display : StateM (El133.Driver × MemStream) Int := do
  let ret ← El133.drv El133.el133_blanking_on
  if ret < 0 ∧ ret ≠ -ENOTSUP then pure ret
  else
    let ret ← El133.el133uf1_stream_write mem_fill_cb
    if ret < 0 then pure ret
    else
      let ret ← El133.drv El133.el133_blanking_off
      if ret < 0 ∧ ret ≠ -ENOTSUP then pure ret else pure 0

def write_payload_to_display (payload : Bytes) : StateM El133.Driver Int := fun d =>
  let r := write_mem_to_display (d, ⟨payload, EINK_PAYLOAD_LEN⟩)
  (r.1, r.2.1)

/-! ## The file of a payload -/

variable {files : Path → Option Bytes} {path : Path} {file : Bytes}

/-- The stream on the file has as much before it as the pointer. -/
def AsFar (files : Path → Option Bytes) (path : Path) (file : Bytes) (s : Streaming) (m : MemStream) : Prop :=
  ∃ pos, s = (.calm files, ⟨path, pos, m.left, none⟩) ∧ m.p = file.drop pos ∧ pos + m.left ≤ file.length

/-- No more is asked for than there is. -/
theorem stream_fill_min (want : Nat) (d : Disk Path) (s : StreamFile) :
    stream_fill_cb want (d, s) = stream_fill_cb (min want s.payload_left) (d, s) := by
  unfold stream_fill_cb
  dsimp only
  rw [Nat.min_assoc, Nat.min_self]

theorem alike_fill (hfile : files path = some file) (want : Nat) :
    Alike (AsFar files path file) (stream_fill_cb want) (mem_fill_cb want) := by
  rintro s m ⟨pos, rfl, hp, hlen⟩
  by_cases hwant : min want m.left = 0
  · unfold stream_fill_cb mem_fill_cb
    simp only [if_pos hwant]
    exact ⟨trivial, pos, rfl, hp, hlen⟩
  · have hcall := stream_fill_calm hfile (min want m.left) hlen (by omega) (Nat.min_le_right _ _)
    rw [stream_fill_min, mem_fill_cb, if_neg hwant]
    dsimp only
    rw [hcall, hp]
    refine ⟨rfl, pos + min want m.left, rfl, List.drop_drop, ?_⟩
    change pos + min want m.left + (m.left - min want m.left) ≤ file.length
    omega

theorem alike_write (hfile : files path = some file) :
    Alike (Beside (AsFar files path file)) (write_stream_to_display true) write_mem_to_display := by
  refine alike_bind (El133.alike_drv _) fun ret => alike_ite (alike_pure _) ?_
  refine alike_bind (El133.alike_stream_write (alike_fill hfile)) fun ret => alike_ite (alike_pure _) ?_
  exact alike_bind (El133.alike_drv _) fun ret => alike_ite (alike_pure _) (alike_pure _)

/-- What is open on the file at its payload has the same to give as the payload in memory. -/
theorem asFar_payload (hsize : file.length = EINK_FRAME_FILE_SIZE) :
    AsFar files path file (.calm files, payloadStream path) ⟨frame_payload file, EINK_PAYLOAD_LEN⟩ := by
  refine ⟨EINK_FRAME_HEADER_SIZE, rfl, ?_, Nat.le_of_eq hsize.symm⟩
  apply List.take_of_length_le
  rw [List.length_drop, hsize]
  decide

/-- A frame that a command brings along is shown as its file is: with the result, and with all that goes over the
wires, whatever the bus and the panel do. -/
theorem payload_as_file (b : Build) (lib : Lz4Lib) (files : Path → Option Bytes) (path : Path) (file : Bytes)
    (hfile : files path = some file) (hframe : IsES6F file) (hpath : path.length < 320) (d : El133.Driver) :
    let shown := show_file b lib true path (d, .calm files)
    let written := write_payload_to_display (frame_payload file) d
    shown.1 = written.1 ∧ shown.2.1 = written.2 ∧ shown.2.2.files = files := by
  have halike := alike_write hfile (d, (.calm files, payloadStream path)) (d, ⟨frame_payload file, EINK_PAYLOAD_LEN⟩)
    (beside_mk (asFar_payload hframe.size))
  obtain ⟨hret, hdriver, pos, hdisk, -⟩ := halike
  rw [show_file_calm hfile hframe b lib hpath]
  exact ⟨hret, hdriver, congrArg (fun u => u.1.files) hdisk⟩

/-- The frame of the white picture, with the second transfer failing. -/
theorem payload_as_file_white : ∃ file, GenEinkFrame.build whitePicture.fill_image (2 : UInt8).toNat = some file ∧
    let lib : Lz4Lib := ⟨fun _ => true, fun _ => none⟩
    let files := fun p => if p = ascii "a" then some file else none
    let d : El133.Driver := ⟨false, false, [], [none, some (4, 100)], []⟩
    let shown := show_file lz4Build lib true (ascii "a") (d, .calm files)
    let written := write_payload_to_display (frame_payload file) d
    shown.1 = written.1 ∧ shown.2.1 = written.2 ∧ shown.2.2.files = files := by
  obtain ⟨file, hbuild⟩ : ∃ file, GenEinkFrame.build whitePicture.fill_image (2 : UInt8).toNat = some file :=
    ⟨_, gen_build_eq whitePicture.length_fill_image 2⟩
  exact ⟨file, hbuild, payload_as_file lz4Build _ _ (ascii "a") file (if_pos rfl) (built_frame hbuild).1 (by decide) _⟩

end EinkNode.Display
