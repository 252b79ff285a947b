import EinkNode.Display.Glass
import EinkNode.Frame.Build
import EinkNode.Lib.Writes
/-!
# Pixels, from the picture to the window

`fill_image` of `scripts/gen-eink-frame.py` packs a picture of palette indices
into two half-panel planes, two pixels a byte. The simulator's window reads a
row of each plane, takes the bytes apart and turns the picture by 90 degrees.
-/
open NodeLib

namespace EinkNode.GenEinkFrame

def PALETTE_CODES : List UInt8 := [0x0, 0x1, 0x2, 0x3, 0x5, 0x6]

/-- A picture of 1200x1600 palette indices, row by row. -/
structure PaletteImage where
  indices : Bytes
  length : indices.length = WIDTH * HEIGHT
  inPalette : ∀ c ∈ indices, c.toNat < PALETTE_CODES.length

namespace PaletteImage

variable (img : PaletteImage)

/-- The code of the pixel that the index `i` of the row-wise list is. -/
def codeAt (i : Nat) : UInt8 := PALETTE_CODES.getD (img.indices.getD i 0).toNat 0

/-- The palette code of a pixel. -/
def code (x y : Nat) : UInt8 := img.codeAt (y * WIDTH + x)

/-- One turn of the innermost loop: the byte for two pixels and where it goes. -/
def packed (y half xb : Nat) : Nat × UInt8 :=
  let src := y * WIDTH + half * 600
  let dst := half * HALF + y * 300
  (dst + xb, (img.codeAt (src + xb * 2) <<< 4) ||| img.codeAt (src + xb * 2 + 1))

/-- The assignments of the three loops. -/
def pack : List (Nat × UInt8) :=
  (List.range HEIGHT).flatMap fun y => (List.range 2).flatMap fun half => (List.range 300).map (img.packed y half)

/-- What `fill_image` returns for the quantized picture. -/
def fill_image : Bytes := writeAll (List.replicate PAYLOAD 0) img.pack

/-! ### Where a pixel goes -/

/-- No byte of the planes is assigned twice. -/
theorem nodup_pack : (img.pack.map Prod.fst).Nodup := by
  have hkeys : img.pack.map Prod.fst = (List.range HEIGHT).flatMap fun y => (List.range 2).flatMap fun half =>
      (List.range 300).map fun xb => half * HALF + y * 300 + xb := by
    simp only [pack, List.map_flatMap, List.map_map]
    rfl
  rw [hkeys]
  refine nodup_flatMap_of_disjoint List.nodup_range ?_ ?_
  · intro y _
    refine nodup_flatMap_of_disjoint List.nodup_range ?_ ?_
    · intro half _
      refine List.nodup_range.map fun i j h => ?_
      simpa using h
    · intro half _ half' _ k hk hk'
      simp only [List.mem_map, List.mem_range, HALF] at hk hk'
      obtain ⟨xb, hxb, rfl⟩ := hk
      obtain ⟨xb', hxb', heq⟩ := hk'
      omega
  · intro y hy y' hy' k hk hk'
    simp only [List.mem_flatMap, List.mem_map, List.mem_range, HEIGHT, HALF] at hy hy' hk hk'
    obtain ⟨half, hhalf, xb, hxb, rfl⟩ := hk
    obtain ⟨half', hhalf', xb', hxb', heq⟩ := hk'
    omega

theorem mem_pack {y half xb : Nat} (hy : y < HEIGHT) (hhalf : half < 2) (hxb : xb < 300) :
    img.packed y half xb ∈ img.pack := by
  rw [pack, List.mem_flatMap]
  refine ⟨y, List.mem_range.2 hy, List.mem_flatMap.2 ⟨half, List.mem_range.2 hhalf, ?_⟩⟩
  exact List.mem_map_of_mem (List.mem_range.2 hxb)

theorem length_fill_image : img.fill_image.length = PAYLOAD := by
  rw [fill_image, length_writeAll, List.length_replicate]

/-- The byte of two pixels. -/
theorem fill_image_get {y half xb : Nat} (hy : y < HEIGHT) (hhalf : half < 2) (hxb : xb < 300) :
    img.fill_image[half * HALF + y * 300 + xb]? = some (img.packed y half xb).2 := by
  refine writeAll_of_mem img.nodup_pack (img.mem_pack hy hhalf hxb) ?_
  simp only [List.length_replicate, HALF, PAYLOAD, HEIGHT] at hy ⊢
  omega

theorem codeAt_cases {i : Nat} (hi : i < WIDTH * HEIGHT) : ∃ k : Fin 6, img.codeAt i = PALETTE_CODES.getD k.val 0 := by
  have hlen : i < img.indices.length := by rw [img.length]; exact hi
  have hmem : img.indices.getD i 0 ∈ img.indices := by
    rw [List.getD_eq_getElem?_getD, List.getElem?_eq_getElem hlen]
    exact List.getElem_mem hlen
  exact ⟨⟨(img.indices.getD i 0).toNat, img.inPalette _ hmem⟩, rfl⟩

/-- The two pixels of a byte are taken apart again. -/
theorem nibbles_packed {y half xb : Nat} (hy : y < HEIGHT) (hhalf : half < 2) (hxb : xb < 300) :
    (img.packed y half xb).2 >>> 4 = img.code (half * 600 + xb * 2) y ∧
      (img.packed y half xb).2 &&& 0x0f = img.code (half * 600 + xb * 2 + 1) y := by
  have hcodes : ∀ j k : Fin 6,
      ((PALETTE_CODES.getD j.val 0 <<< 4) ||| PALETTE_CODES.getD k.val 0) >>> 4 = PALETTE_CODES.getD j.val 0 ∧
      ((PALETTE_CODES.getD j.val 0 <<< 4) ||| PALETTE_CODES.getD k.val 0) &&& 0x0f = PALETTE_CODES.getD k.val 0 := by
    decide
  have hin : y * WIDTH + half * 600 + xb * 2 + 1 < WIDTH * HEIGHT := by
    simp only [WIDTH, HEIGHT] at hy ⊢
    omega
  obtain ⟨j, hj⟩ := img.codeAt_cases (Nat.lt_of_succ_lt hin)
  obtain ⟨k, hk⟩ := img.codeAt_cases hin
  simp only [packed, code, ← Nat.add_assoc, hj, hk]
  exact hcodes j k

end PaletteImage

end EinkNode.GenEinkFrame

namespace EinkNode

def eink_frame_nibble_to_argb (nibble : UInt8) : UInt32 :=
  match nibble &&& 0x0f with
  | 0x0 => 0xFF000000
  | 0x1 => 0xFFFFFFFF
  | 0x2 => 0xFFFFFF00
  | 0x3 => 0xFFFF0000
  | 0x5 => 0xFF0000FF
  | 0x6 => 0xFF00FF00
  | _ => 0xFF808080

namespace Display

def EINK_HALF_WIDTH : Nat := 600

/-- 300 bytes of one half of a row. -/
def stream_read_row (y : Nat) (right : Bool) : StateM Streaming (Except Int Bytes) := fun (d, s) =>
  let row_off := y * 300
  let base := if right then EINK_BYTES_PER_HALF else 0
  match s.solid with
  | some solid_byte => (.ok (List.replicate 300 solid_byte), (d, s))
  | none =>
    match fs_seek s.path d with
    | (n, d) =>
      if n < 0 then (.error n, (d, s))
      else
        match fs_read s.path (EINK_FRAME_HEADER_SIZE + base + row_off) 300 d with
        | (.error e, d) => (.error e, (d, { s with pos := EINK_FRAME_HEADER_SIZE + base + row_off }))
        | (.ok row, d) =>
          (if row.length = 300 then .ok row else .error (-EINVAL),
            (d, { s with pos := EINK_FRAME_HEADER_SIZE + base + row_off + row.length }))

/-- The four bits of the pixel `x` of a row. -/
def row_nibble (left_row right_row : Bytes) (x : Nat) : UInt8 :=
  let half := if x < EINK_HALF_WIDTH then left_row else right_row
  let hx := if x < EINK_HALF_WIDTH then x else x - EINK_HALF_WIDTH
  if hx % 2 = 0 then half.getD (hx / 2) 0 >>> 4 else half.getD (hx / 2) 0 &&& 0x0f

section
variable {σ : Type} (read_row : Nat → Bool → StateM σ (Except Int Bytes))

/-- The assignments of one row of `copy_w` pixels, where `cell x y` is the index in the frame. -/
def row_writes (cell : Nat → Nat → Nat) (copy_w y : Nat) (left_row right_row : Bytes) : List (Nat × UInt32) :=
  (List.range copy_w).map fun x => (cell x y, eink_frame_nibble_to_argb (row_nibble left_row right_row x))

/-- The assignments of the rows `ys`; a row that is not read ends the loop. -/
def sdl_writes (cell : Nat → Nat → Nat) (copy_w : Nat) : List Nat → StateM σ (Except Int (List (Nat × UInt32)))
  | [] => pure (.ok [])
  | y :: ys => do
    match ← read_row y false with
    | .error ret => pure (.error ret)
    | .ok left_row =>
      match ← read_row y true with
      | .error ret => pure (.error ret)
      | .ok right_row =>
        match ← sdl_writes cell copy_w ys with
        | .error ret => pure (.error ret)
        | .ok writes => pure (.ok (row_writes cell copy_w y left_row right_row ++ writes))

/-- (x,y) -> (y, width-1-x) -/
def rotated_cell (sdl_w x y : Nat) : Nat := (EINK_PANEL_WIDTH.toNat - 1 - x) * sdl_w + y

def upright_cell (sdl_w x y : Nat) : Nat := y * sdl_w + x

/-- The assignments for a window of this size. -/
def window_writes (sdl_w sdl_h : Nat) : StateM σ (Except Int (List (Nat × UInt32))) :=
  if sdl_w = EINK_PANEL_HEIGHT.toNat ∧ sdl_h = EINK_PANEL_WIDTH.toNat then
    sdl_writes read_row (rotated_cell sdl_w) EINK_PANEL_WIDTH.toNat (List.range EINK_PANEL_HEIGHT.toNat)
  else
    sdl_writes read_row (upright_cell sdl_w) (min EINK_PANEL_WIDTH.toNat sdl_w)
      (List.range (min EINK_PANEL_HEIGHT.toNat sdl_h))

/-- The frame that is given to `display_write`. -/
def write_sdl_from_halves (sdl_w sdl_h : Nat) : StateM σ (Except Int (List UInt32)) := do
  if sdl_w = 0 ∨ sdl_h = 0 then pure (.error (-EINVAL))
  else if sdl_w * sdl_h > 1600 * 1200 then pure (.error (-ENOMEM))
  else
    match ← window_writes read_row sdl_w sdl_h with
    | .error ret => pure (.error ret)
    | .ok writes => pure (.ok (writeAll (List.replicate (sdl_w * sdl_h) 0xFFFFFFFF) writes))

end

/-! ## Reading rows back -/

/-- 300 bytes of a plane of the payload. -/
def plane_row (payload : Bytes) (y : Nat) (right : Bool) : Bytes :=
  (payload.drop ((if right then EINK_BYTES_PER_HALF else 0) + y * 300)).take 300

/-- The file is open, and no call on it fails. -/
def OpenOn (files : Path → Option Bytes) (path : Path) (s : Streaming) : Prop :=
  s.1 = .calm files ∧ s.2.path = path ∧ s.2.solid = none

/-- Reading a row gives a row of the plane, and leaves the file open. -/
theorem stream_read_row_eq {files : Path → Option Bytes} {path : Path} {head payload : Bytes}
    (hfile : files path = some (head ++ payload)) (hhead : head.length = EINK_FRAME_HEADER_SIZE)
    (hlen : payload.length = EINK_PAYLOAD_LEN) {y : Nat} (hy : y < EINK_PANEL_HEIGHT.toNat) (right : Bool)
    {s : Streaming} (hs : OpenOn files path s) :
    (stream_read_row y right s).1 = .ok (plane_row payload y right) ∧
      OpenOn files path (stream_read_row y right s).2 := by
  obtain ⟨d, fpath, pos, payload_left, solid⟩ := s
  obtain ⟨hd, hp, hsolid⟩ := hs
  dsimp only at hd hp hsolid
  subst hd hp hsolid
  have hbase : (if right then EINK_BYTES_PER_HALF else 0) ≤ EINK_BYTES_PER_HALF := by
    split
    · exact Nat.le_refl _
    · exact Nat.zero_le _
  have hrow : ((head ++ payload).drop (EINK_FRAME_HEADER_SIZE + (if right then EINK_BYTES_PER_HALF else 0) +
      y * 300)).take 300 = plane_row payload y right := by
    rw [plane_row, Nat.add_assoc, ← List.drop_drop, List.drop_left' hhead]
  have hlength : (plane_row payload y right).length = 300 := by
    have hhalf : EINK_BYTES_PER_HALF = 480000 := rfl
    have hpayload : EINK_PAYLOAD_LEN = 960000 := rfl
    have hheight : EINK_PANEL_HEIGHT.toNat = 1600 := rfl
    rw [plane_row, List.length_take, List.length_drop, hlen]
    omega
  have hread : fs_read fpath (EINK_FRAME_HEADER_SIZE + (if right then EINK_BYTES_PER_HALF else 0) + y * 300) 300
      (.calm files) = (.ok (plane_row payload y right), .calm files) := by
    simp only [fs_read, hfile, Disk.err_calm, Disk.files_calm, Disk.outcome_calm, Disk.called_calm, Fault.moved,
      Option.getD_some, hrow]
  have hseek : fs_seek fpath (.calm files : Disk Path) = (0, .calm files) := by simp [fs_seek]
  unfold stream_read_row
  simp only [hseek, hread, if_neg (Int.lt_irrefl 0), if_pos hlength]
  exact ⟨trivial, rfl, rfl, rfl⟩

theorem plane_row_get (payload : Bytes) (y : Nat) (right : Bool) {xb : Nat} (hxb : xb < 300) :
    (plane_row payload y right)[xb]? = payload[(if right then EINK_BYTES_PER_HALF else 0) + y * 300 + xb]? := by
  rw [plane_row, List.getElem?_take_of_lt hxb, List.getElem?_drop]

/-- A pixel of one half is found in its plane. -/
theorem half_nibble (img : GenEinkFrame.PaletteImage) {y hx : Nat} (right : Bool) (hy : y < 1600) (hhx : hx < 600) :
    (if hx % 2 = 0 then (plane_row img.fill_image y right).getD (hx / 2) 0 >>> 4
      else (plane_row img.fill_image y right).getD (hx / 2) 0 &&& 0x0f) =
      img.code ((if right then 600 else 0) + hx) y := by
  have hxb : hx / 2 < 300 := by omega
  have hhalf : (if right then 1 else 0) < 2 := by
    split
    · decide
    · decide
  -- Two pixels share a byte, the even one in its upper half.
  have hget := img.fill_image_get (y := y) hy hhalf hxb
  obtain ⟨hhigh, hlow⟩ := img.nibbles_packed (y := y) hy hhalf hxb
  have hbase : (if right then 1 else 0) * GenEinkFrame.HALF = if right then EINK_BYTES_PER_HALF else 0 := by
    cases right
    · rfl
    · rfl
  have hsix : (if right then 1 else 0) * 600 = if right then 600 else 0 := by
    cases right
    · rfl
    · rfl
  rw [hbase] at hget
  rw [List.getD_eq_getElem?_getD, plane_row_get _ _ _ hxb, hget, Option.getD_some, hhigh, hlow, hsix]
  split
  · next heven => rw [Nat.div_mul_cancel (Nat.dvd_of_mod_eq_zero heven)]
  · next hodd => rw [Nat.add_assoc, show hx / 2 * 2 + 1 = hx by omega]

/-- The pixel is found in the rows of the two planes. -/
theorem row_nibble_fill_image (img : GenEinkFrame.PaletteImage) {x y : Nat} (hx : x < 1200) (hy : y < 1600) :
    row_nibble (plane_row img.fill_image y false) (plane_row img.fill_image y true) x = img.code x y := by
  have hwidth : EINK_HALF_WIDTH = 600 := rfl
  unfold row_nibble
  rw [hwidth]
  by_cases hleft : x < 600
  · simp only [if_pos hleft]
    rw [half_nibble img false hy hleft]
    simp
  · simp only [if_neg hleft]
    rw [half_nibble img true hy (by omega), if_pos rfl, Nat.add_sub_cancel' (by omega)]

section
variable {σ : Type} {read_row : Nat → Bool → StateM σ (Except Int Bytes)} {I : σ → Prop} {row : Nat → Bool → Bytes}
  {cell : Nat → Nat → Nat} {copy_w : Nat}

/-- The assignments when every row is read. -/
theorem sdl_writes_eq {ys : List Nat}
    (hrow : ∀ y ∈ ys, ∀ right s, I s → (read_row y right s).1 = .ok (row y right) ∧ I (read_row y right s).2)
    {s : σ} (hs : I s) :
    (sdl_writes read_row cell copy_w ys s).1 =
      .ok (ys.flatMap fun y => row_writes cell copy_w y (row y false) (row y true)) := by
  induction ys generalizing s with
  | nil => rfl
  | cons y ys ih =>
    obtain ⟨hleft, hs1⟩ := hrow y (List.mem_cons_self ..) false s hs
    obtain ⟨hright, hs2⟩ := hrow y (List.mem_cons_self ..) true _ hs1
    have hrest := ih (fun y' hy' => hrow y' (List.mem_cons_of_mem _ hy')) hs2
    rw [sdl_writes, bind_app, hleft]
    dsimp only
    rw [bind_app, hright]
    dsimp only
    rw [bind_app, hrest]
    rfl

end

/-- The cells of the turned window, in the order of the loops. -/
theorem perm_rotated_cells : ((List.range 1600).flatMap fun y => (List.range 1200).map fun x =>
    rotated_cell 1600 x y).Perm (List.range (1600 * 1200)) := by
  have hwidth : EINK_PANEL_WIDTH.toNat = 1200 := rfl
  apply perm_range_of_nodup
  · refine nodup_flatMap_of_disjoint List.nodup_range ?_ ?_
    · intro y _
      refine List.Nodup.map_on ?_ List.nodup_range
      intro x hx x' hx' h
      simp only [List.mem_range, rotated_cell, hwidth] at hx hx' h
      omega
    · intro y hy y' hy' k hk hk'
      simp only [List.mem_map, List.mem_range, rotated_cell, hwidth] at hy hy' hk hk'
      obtain ⟨x, hx, rfl⟩ := hk
      obtain ⟨x', hx', heq⟩ := hk'
      omega
  · intro i
    simp only [List.mem_flatMap, List.mem_map, List.mem_range, rotated_cell, hwidth]
    constructor
    · rintro ⟨y, hy, x, hx, rfl⟩
      omega
    · intro hi
      exact ⟨i % 1600, by omega, 1199 - i / 1600, by omega, by omega⟩

/-- The stream of a file that is open on a disk where no call fails. -/
def openFile (files : Path → Option Bytes) (path : Path) (file : Bytes) (pos payload_left : Nat) : Streaming :=
  (.calm fun q => if q = path then some file else files q, ⟨path, pos, payload_left, none⟩)

/-- Every pixel comes out with the code it went in with, and the turned window
gives each cell once the colour of its pixel. -/
theorem pixels_come_out (img : GenEinkFrame.PaletteImage) (orientation : UInt8) (path : Path)
    (files : Path → Option Bytes) (pos payload_left : Nat) :
    ∃ file, GenEinkFrame.build img.fill_image orientation.toNat = some file ∧
      (∀ x < 1200, ∀ y < 1600, ∃ left_row right_row,
        (stream_read_row y false (openFile files path file pos payload_left)).1 = .ok left_row ∧
        (stream_read_row y true (openFile files path file pos payload_left)).1 = .ok right_row ∧
        row_nibble left_row right_row x = img.code x y) ∧
      ∃ writes frame,
        (window_writes stream_read_row 1600 1200 (openFile files path file pos payload_left)).1 = .ok writes ∧
        (writes.map Prod.fst).Perm (List.range (1600 * 1200)) ∧
        (write_sdl_from_halves stream_read_row 1600 1200 (openFile files path file pos payload_left)).1 = .ok frame ∧
        ∀ x < 1200, ∀ y < 1600,
          frame[(1199 - x) * 1600 + y]? = some (eink_frame_nibble_to_argb (img.code x y)) := by
  have hlen := img.length_fill_image
  have hhead : (build_header img.fill_image orientation).pack.length = EINK_FRAME_HEADER_SIZE := length_pack rfl
  refine ⟨_, gen_build_eq hlen orientation, ?_⟩
  generalize (build_header img.fill_image orientation).pack = head at hhead ⊢
  unfold openFile
  generalize hfiles : (fun q => if q = path then some (head ++ img.fill_image) else files q) = files'
  have hfile : files' path = some (head ++ img.fill_image) := by rw [← hfiles]; exact if_pos rfl
  have hrow (y : Nat) (hy : y < 1600) (right : Bool) (s : Streaming) (hs : OpenOn files' path s) :=
    stream_read_row_eq hfile hhead hlen hy right hs
  have hopen : OpenOn files' path (.calm files', ⟨path, pos, payload_left, none⟩) := ⟨rfl, rfl, rfl⟩
  refine ⟨fun x hx y hy => ⟨_, _, (hrow y hy false _ hopen).1, (hrow y hy true _ hopen).1,
    row_nibble_fill_image img hx hy⟩, ?_⟩
  have hwrites : (window_writes stream_read_row 1600 1200 (.calm files', ⟨path, pos, payload_left, none⟩)).1 =
      .ok ((List.range 1600).flatMap fun y => row_writes (rotated_cell 1600) 1200 y
        (plane_row img.fill_image y false) (plane_row img.fill_image y true)) := by
    rw [window_writes, if_pos ⟨rfl, rfl⟩]
    exact sdl_writes_eq (fun y hy => hrow y (List.mem_range.1 hy)) hopen
  generalize hw : ((List.range 1600).flatMap fun y => row_writes (rotated_cell 1600) 1200 y
    (plane_row img.fill_image y false) (plane_row img.fill_image y true)) = writes at hwrites
  -- No cell is assigned twice, so that what is assigned last is what is assigned at all.
  have hperm : (writes.map Prod.fst).Perm (List.range (1600 * 1200)) := by
    rw [← hw, List.map_flatMap]
    simp only [row_writes, List.map_map]
    exact perm_rotated_cells
  refine ⟨writes, writeAll (List.replicate (1600 * 1200) 0xFFFFFFFF) writes, hwrites, hperm, ?_, fun x hx y hy => ?_⟩
  · rw [write_sdl_from_halves, if_neg (by decide), if_neg (by decide), bind_app, hwrites]
    rfl
  · have hmem : ((1199 - x) * 1600 + y, eink_frame_nibble_to_argb (img.code x y)) ∈ writes := by
      rw [← hw, List.mem_flatMap]
      refine ⟨y, List.mem_range.2 hy, List.mem_map.2 ⟨x, List.mem_range.2 hx, ?_⟩⟩
      rw [row_nibble_fill_image img hx hy]
      rfl
    apply writeAll_of_mem (hperm.nodup_iff.2 List.nodup_range) hmem
    rw [List.length_replicate]
    omega

end Display

end EinkNode
