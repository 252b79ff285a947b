import EinkNode.Display.Picture
import EinkNode.Lib.Alike
/-!
# The previews

A display that is no e-paper gets the picture through a row reader: the LCD
scaled down to its size, the window of the simulator turned or cut. The rows
come from the file, or from the frame that a command has brought along.
-/
open NodeLib EinkNode.Store

namespace EinkNode

def eink_frame_nibble_to_rgb565 (nibble : UInt8) : UInt16 :=
  let argb := eink_frame_nibble_to_argb nibble
  let r := ((argb >>> 16) &&& 0xff).toUInt8
  let g := ((argb >>> 8) &&& 0xff).toUInt8
  let b := (argb &&& 0xff).toUInt8
  ((r >>> 3).toUInt16 <<< 11) ||| ((g >>> 2).toUInt16 <<< 5) ||| (b >>> 3).toUInt16

theorem rgb565_palette : GenEinkFrame.PALETTE_CODES.map eink_frame_nibble_to_rgb565 =
    [0x0000, 0xFFFF, 0xFFE0, 0xF800, 0x001F, 0x07E0] := rfl

/-- No two colours of the palette are one on the LCD. -/
theorem rgb565_inj {c c' : UInt8} (hc : c ∈ GenEinkFrame.PALETTE_CODES) (hc' : c' ∈ GenEinkFrame.PALETTE_CODES)
    (h : eink_frame_nibble_to_rgb565 c = eink_frame_nibble_to_rgb565 c') : c = c' := by
  have hnodup : (GenEinkFrame.PALETTE_CODES.map eink_frame_nibble_to_rgb565).Nodup := by
    rw [rgb565_palette]
    simp
  exact List.inj_on_of_nodup_map hnodup hc hc' h

namespace Display

def EINK_LCD_W : Nat := 720
def EINK_LCD_H : Nat := 1280

def fb_read_row (y : Nat) (right : Bool) : StateM Bytes (Except Int Bytes) := fun payload =>
  let off := (if right then EINK_BYTES_PER_HALF else 0) + y * 300
  (.ok ((payload.drop off).take 300), payload)

section
variable {σ : Type} (read_row : Nat → Bool → StateM σ (Except Int Bytes))

/-- A turn of the loops over the rows: the two halves of a row are read, and `row` makes assignments of them. -/
def row_turn {β : Type} (y : Nat) (row : Bytes → Bytes → List β) (rest : StateM σ (Except Int (List β))) :
    StateM σ (Except Int (List β)) := do
  match ← read_row y false with
  | .error ret => pure (.error ret)
  | .ok left_row =>
    match ← read_row y true with
    | .error ret => pure (.error ret)
    | .ok right_row =>
      match ← rest with
      | .error ret => pure (.error ret)
      | .ok writes => pure (.ok (row left_row right_row ++ writes))

variable (lcd_w lcd_h : Nat)

/-- The assignments of the row `ly` of the LCD. -/
def lcd_row_writes (ly : Nat) (left_row right_row : Bytes) : List (Nat × UInt16) :=
  (List.range lcd_w).map fun lx =>
    let src_x := lx * EINK_PANEL_WIDTH.toNat / lcd_w
    (ly * lcd_w + lx, eink_frame_nibble_to_rgb565 (row_nibble left_row right_row src_x))

/-- The assignments of the rows `lys`; a row that is not read ends the loop. -/
def lcd_writes : List Nat → StateM σ (Except Int (List (Nat × UInt16)))
  | [] => pure (.ok [])
  | ly :: lys =>
    let src_y := ly * EINK_PANEL_HEIGHT.toNat / lcd_h
    row_turn read_row src_y (lcd_row_writes lcd_w ly) (lcd_writes lys)

/-- What is given to `display_write`: as much of `eink_lcd_fb` as the LCD has pixels. -/
def write_lcd_preview_from_halves (eink_lcd_fb : List UInt16) : StateM σ (Except Int (List UInt16)) := do
  if lcd_w = 0 ∨ lcd_h = 0 then pure (.error (-EINVAL))
  else if lcd_w > EINK_LCD_W ∨ lcd_h > EINK_LCD_H then pure (.error (-ENOMEM))
  else
    match ← lcd_writes read_row lcd_w lcd_h (List.range lcd_h) with
    | .error ret => pure (.error ret)
    | .ok writes => pure (.ok ((writeAll eink_lcd_fb writes).take (lcd_w * lcd_h)))

end

/-! ## Rows from memory and from the file -/

section
variable {σ τ : Type} {R : σ → τ → Prop} {read_row : Nat → Bool → StateM σ (Except Int Bytes)}
  {read_row' : Nat → Bool → StateM τ (Except Int Bytes)}

theorem alike_row_turn {β : Type} {y : Nat} (row : Bytes → Bytes → List β) {rest : StateM σ (Except Int (List β))}
    {rest' : StateM τ (Except Int (List β))} (hrow : ∀ right, Alike R (read_row y right) (read_row' y right))
    (hrest : Alike R rest rest') : Alike R (row_turn read_row y row rest) (row_turn read_row' y row rest') := by
  refine alike_bind (hrow false) fun left => ?_
  cases left with
  | error ret => exact alike_pure _
  | ok left_row =>
    refine alike_bind (hrow true) fun right => ?_
    cases right with
    | error ret => exact alike_pure _
    | ok right_row =>
      refine alike_bind hrest fun writes => ?_
      cases writes with
      | error ret => exact alike_pure _
      | ok writes => exact alike_pure _

/-- The loop of the window is made of the same turns. -/
theorem sdl_writes_cons (cell : Nat → Nat → Nat) (copy_w y : Nat) (ys : List Nat) :
    sdl_writes read_row cell copy_w (y :: ys) =
      row_turn read_row y (row_writes cell copy_w y) (sdl_writes read_row cell copy_w ys) := by
  rw [sdl_writes, row_turn]
  refine bind_congr fun left => ?_
  cases left with
  | error ret => rfl
  | ok left_row =>
    refine bind_congr fun right => ?_
    cases right with
    | error ret => rfl
    | ok right_row =>
      refine bind_congr fun rest => ?_
      cases rest with
      | error ret => rfl
      | ok writes => rfl

theorem alike_sdl_writes (cell : Nat → Nat → Nat) (copy_w : Nat) {ys : List Nat}
    (h : ∀ y ∈ ys, ∀ right, Alike R (read_row y right) (read_row' y right)) :
    Alike R (sdl_writes read_row cell copy_w ys) (sdl_writes read_row' cell copy_w ys) := by
  induction ys with
  | nil => exact alike_pure _
  | cons y ys ih =>
    rw [sdl_writes_cons, sdl_writes_cons]
    exact alike_row_turn _ (h y List.mem_cons_self) (ih fun y' hy' => h y' (List.mem_cons_of_mem _ hy'))

theorem alike_lcd_writes (lcd_w lcd_h : Nat) {lys : List Nat}
    (h : ∀ ly ∈ lys, ∀ right, Alike R (read_row (ly * EINK_PANEL_HEIGHT.toNat / lcd_h) right)
      (read_row' (ly * EINK_PANEL_HEIGHT.toNat / lcd_h) right)) :
    Alike R (lcd_writes read_row lcd_w lcd_h lys) (lcd_writes read_row' lcd_w lcd_h lys) := by
  induction lys with
  | nil => exact alike_pure _
  | cons ly lys ih =>
    exact alike_row_turn _ (h ly List.mem_cons_self) (ih fun ly' hly' => h ly' (List.mem_cons_of_mem _ hly'))

/-- A row of the LCD is one of the panel. -/
theorem src_lt {n i size : Nat} (h : i < n) (hsize : 0 < size) : i * size / n < size := by
  rw [Nat.div_lt_iff_lt_mul (by omega), Nat.mul_comm]
  exact Nat.mul_lt_mul_of_pos_left h hsize

/-- The two previews of readers that give the same rows of the panel. -/
theorem alike_previews (h : ∀ y < EINK_PANEL_HEIGHT.toNat, ∀ right, Alike R (read_row y right) (read_row' y right)) :
    (∀ lcd_w lcd_h fb, Alike R (write_lcd_preview_from_halves read_row lcd_w lcd_h fb)
        (write_lcd_preview_from_halves read_row' lcd_w lcd_h fb)) ∧
      ∀ sdl_w sdl_h,
        Alike R (write_sdl_from_halves read_row sdl_w sdl_h) (write_sdl_from_halves read_row' sdl_w sdl_h) := by
  constructor
  · intro lcd_w lcd_h fb
    refine alike_ite (alike_pure _) (alike_ite (alike_pure _) ?_)
    refine alike_bind (alike_lcd_writes lcd_w lcd_h fun ly hly => h _ (src_lt (List.mem_range.1 hly) (by decide))) ?_
    intro r
    cases r with
    | error ret => exact alike_pure _
    | ok writes => exact alike_pure _
  · intro sdl_w sdl_h
    have hwindow : Alike R (window_writes read_row sdl_w sdl_h) (window_writes read_row' sdl_w sdl_h) := by
      refine alike_ite (alike_sdl_writes _ _ fun y hy => h y (List.mem_range.1 hy))
        (alike_sdl_writes _ _ fun y hy => h y ?_)
      have := List.mem_range.1 hy
      omega
    refine alike_ite (alike_pure _) (alike_ite (alike_pure _) (alike_bind hwindow fun r => ?_))
    cases r with
    | error ret => exact alike_pure _
    | ok writes => exact alike_pure _

end

/-- The file is open, and its payload is in memory. -/
def FileOf (files : Path → Option Bytes) (path : Path) (payload : Bytes) (s : Streaming) (t : Bytes) : Prop :=
  OpenOn files path s ∧ t = payload

theorem alike_read_row {files : Path → Option Bytes} {path : Path} {head payload : Bytes}
    (hfile : files path = some (head ++ payload)) (hhead : head.length = EINK_FRAME_HEADER_SIZE)
    (hlen : payload.length = EINK_PAYLOAD_LEN) {y : Nat} (hy : y < EINK_PANEL_HEIGHT.toNat) (right : Bool) :
    Alike (FileOf files path payload) (stream_read_row y right) (fb_read_row y right) := by
  rintro s t ⟨hopen, rfl⟩
  obtain ⟨hrow, hopen'⟩ := stream_read_row_eq hfile hhead hlen hy right hopen
  exact ⟨hrow, hopen', rfl⟩

/-! ## The picture on the LCD -/

/-- The assignments when every row is read. -/
theorem lcd_writes_eq (payload : Bytes) (lcd_w lcd_h : Nat) (lys : List Nat) :
    lcd_writes fb_read_row lcd_w lcd_h lys payload =
      (.ok (lys.flatMap fun ly => lcd_row_writes lcd_w ly
        (plane_row payload (ly * EINK_PANEL_HEIGHT.toNat / lcd_h) false)
        (plane_row payload (ly * EINK_PANEL_HEIGHT.toNat / lcd_h) true)), payload) := by
  induction lys with
  | nil => rfl
  | cons ly lys ih =>
    unfold lcd_writes row_turn
    dsimp only
    rw [bind_app, fb_read_row]
    dsimp only
    rw [bind_app, fb_read_row]
    dsimp only
    rw [bind_app, ih]
    rfl

/-- No pixel of the LCD is assigned twice. -/
theorem nodup_lcd_writes {lcd_w : Nat} (lys : List Nat) (hlys : lys.Nodup) (left right : Nat → Bytes) :
    ((lys.flatMap fun ly => lcd_row_writes lcd_w ly (left ly) (right ly)).map Prod.fst).Nodup := by
  have hkeys (ly : Nat) : (lcd_row_writes lcd_w ly (left ly) (right ly)).map Prod.fst =
      (List.range lcd_w).map fun lx => ly * lcd_w + lx := by
    rw [lcd_row_writes, List.map_map]
    rfl
  rw [List.map_flatMap]
  simp only [hkeys]
  refine nodup_flatMap_of_disjoint hlys ?_ ?_
  · intro ly _
    refine List.nodup_range.map fun i j h => ?_
    simpa using h
  · intro ly _ ly' _ k hk hk'
    simp only [List.mem_map, List.mem_range] at hk hk'
    obtain ⟨lx, hlx, rfl⟩ := hk
    obtain ⟨lx', hlx', heq⟩ := hk'
    have hdiv := congrArg (· / lcd_w) heq
    simpa [Nat.mul_add_div (show lcd_w > 0 by omega), Nat.mul_comm, Nat.div_eq_of_lt, hlx, hlx'] using hdiv.symm

/-- A pixel of the picture has a colour of the palette. -/
theorem code_mem (img : GenEinkFrame.PaletteImage) {x y : Nat} (hx : x < 1200) (hy : y < 1600) :
    img.code x y ∈ GenEinkFrame.PALETTE_CODES := by
  have hin : y * GenEinkFrame.WIDTH + x < GenEinkFrame.WIDTH * GenEinkFrame.HEIGHT := by
    simp only [GenEinkFrame.WIDTH, GenEinkFrame.HEIGHT]
    omega
  obtain ⟨k, hk⟩ := img.codeAt_cases hin
  rw [GenEinkFrame.PaletteImage.code, hk]
  clear hk
  revert k
  decide

/-- The LCD from memory: each pixel has the colour of the pixel of the picture that is at its place. -/
theorem lcd_from_memory (img : GenEinkFrame.PaletteImage) {lcd_w lcd_h : Nat} (hw : 0 < lcd_w)
    (hwmax : lcd_w ≤ EINK_LCD_W) (hh : 0 < lcd_h) (hhmax : lcd_h ≤ EINK_LCD_H) {fb : List UInt16}
    (hfb : fb.length = EINK_LCD_W * EINK_LCD_H) :
    ∃ frame, (write_lcd_preview_from_halves fb_read_row lcd_w lcd_h fb img.fill_image).1 = .ok frame ∧
      frame.length = lcd_w * lcd_h ∧ ∀ lx < lcd_w, ∀ ly < lcd_h,
        frame[ly * lcd_w + lx]? =
          some (eink_frame_nibble_to_rgb565 (img.code (lx * 1200 / lcd_w) (ly * 1600 / lcd_h))) := by
  have hsize : lcd_w * lcd_h ≤ fb.length := hfb ▸ Nat.mul_le_mul hwmax hhmax
  unfold write_lcd_preview_from_halves
  rw [if_neg (by omega), if_neg (by omega), bind_app, lcd_writes_eq]
  refine ⟨_, rfl, ?_, fun lx hlx ly hly => ?_⟩
  · rw [List.length_take, length_writeAll]
    omega
  · have hcell : ly * lcd_w + lx < lcd_w * lcd_h := by
      calc ly * lcd_w + lx < ly * lcd_w + lcd_w := by omega
        _ = (ly + 1) * lcd_w := by rw [Nat.add_mul, Nat.one_mul]
        _ ≤ lcd_h * lcd_w := Nat.mul_le_mul_right _ hly
        _ = lcd_w * lcd_h := Nat.mul_comm _ _
    rw [List.getElem?_take_of_lt hcell]
    refine writeAll_of_mem (nodup_lcd_writes _ List.nodup_range _ _) ?_ (by omega)
    refine List.mem_flatMap.2 ⟨ly, List.mem_range.2 hly, List.mem_map.2 ⟨lx, List.mem_range.2 hlx, ?_⟩⟩
    have hx : lx * EINK_PANEL_WIDTH.toNat / lcd_w < 1200 := src_lt hlx (by decide)
    have hy : ly * EINK_PANEL_HEIGHT.toNat / lcd_h < 1600 := src_lt hly (by decide)
    dsimp only
    rw [row_nibble_fill_image img hx hy]
    rfl

/-- The previews show the same from the file that the generator writes and from memory. On the LCD each pixel tells
the colour of the pixel of the picture that is at its place. -/
theorem preview_shows_picture (img : GenEinkFrame.PaletteImage) (orientation : UInt8) (path : Path)
    (files : Path → Option Bytes) (pos payload_left lcd_w lcd_h : Nat) (fb : List UInt16) (hw : 0 < lcd_w)
    (hwmax : lcd_w ≤ EINK_LCD_W) (hh : 0 < lcd_h) (hhmax : lcd_h ≤ EINK_LCD_H)
    (hfb : fb.length = EINK_LCD_W * EINK_LCD_H) :
    ∃ file, GenEinkFrame.build img.fill_image orientation.toNat = some file ∧
      let stream := openFile files path file pos payload_left
      (∀ sdl_w sdl_h, (write_sdl_from_halves stream_read_row sdl_w sdl_h stream).1 =
        (write_sdl_from_halves fb_read_row sdl_w sdl_h img.fill_image).1) ∧
      ∃ frame, (write_lcd_preview_from_halves stream_read_row lcd_w lcd_h fb stream).1 = .ok frame ∧
        (write_lcd_preview_from_halves fb_read_row lcd_w lcd_h fb img.fill_image).1 = .ok frame ∧
        frame.length = lcd_w * lcd_h ∧ ∀ lx < lcd_w, ∀ ly < lcd_h, ∀ c ∈ GenEinkFrame.PALETTE_CODES,
          (frame[ly * lcd_w + lx]? = some (eink_frame_nibble_to_rgb565 c) ↔
            img.code (lx * 1200 / lcd_w) (ly * 1600 / lcd_h) = c) := by
  have hhead : (build_header img.fill_image orientation).pack.length = EINK_FRAME_HEADER_SIZE := length_pack rfl
  refine ⟨_, gen_build_eq img.length_fill_image orientation, ?_⟩
  generalize (build_header img.fill_image orientation).pack = head at hhead ⊢
  unfold openFile
  generalize hfiles : (fun q => if q = path then some (head ++ img.fill_image) else files q) = files'
  have hfile : files' path = some (head ++ img.fill_image) := by
    rw [← hfiles]
    exact if_pos rfl
  have hrow (y : Nat) (hy : y < EINK_PANEL_HEIGHT.toNat) (right : Bool) :=
    alike_read_row hfile hhead img.length_fill_image hy right
  obtain ⟨hlcd, hsdl⟩ := alike_previews hrow
  have hopen : FileOf files' path img.fill_image (.calm files', ⟨path, pos, payload_left, none⟩) img.fill_image :=
    ⟨⟨rfl, rfl, rfl⟩, rfl⟩
  obtain ⟨frame, hframe, hlength, hpixel⟩ := lcd_from_memory img hw hwmax hh hhmax hfb
  refine ⟨fun sdl_w sdl_h => (hsdl sdl_w sdl_h).result hopen, frame, ((hlcd lcd_w lcd_h fb).result hopen).trans hframe,
    hframe, hlength, fun lx hlx ly hly c hc => ?_⟩
  rw [hpixel lx hlx ly hly, Option.some_inj]
  have hx : lx * 1200 / lcd_w < 1200 := src_lt hlx (by decide)
  have hy : ly * 1600 / lcd_h < 1600 := src_lt hly (by decide)
  exact ⟨rgb565_inj (code_mem img hx hy) hc, congrArg _⟩

/-- The white picture on the LCD of the evaluation kit. -/
theorem preview_shows_picture_white :
    let fb : List UInt16 := List.replicate (EINK_LCD_W * EINK_LCD_H) 0
    ∃ file, GenEinkFrame.build whitePicture.fill_image (2 : UInt8).toNat = some file ∧
      let stream := openFile (fun _ => none) (ascii "a") file 0 0
      (∀ sdl_w sdl_h, (write_sdl_from_halves stream_read_row sdl_w sdl_h stream).1 =
        (write_sdl_from_halves fb_read_row sdl_w sdl_h whitePicture.fill_image).1) ∧
      ∃ frame, (write_lcd_preview_from_halves stream_read_row 720 1280 fb stream).1 = .ok frame ∧
        (write_lcd_preview_from_halves fb_read_row 720 1280 fb whitePicture.fill_image).1 = .ok frame ∧
        frame.length = 720 * 1280 ∧ ∀ lx < 720, ∀ ly < 1280, ∀ c ∈ GenEinkFrame.PALETTE_CODES,
          (frame[ly * 720 + lx]? = some (eink_frame_nibble_to_rgb565 c) ↔
            whitePicture.code (lx * 1200 / 720) (ly * 1600 / 1280) = c) :=
  preview_shows_picture whitePicture 2 (ascii "a") _ 0 0 720 1280 _ (by decide) (by decide) (by decide) (by decide)
    List.length_replicate

end Display

end EinkNode
