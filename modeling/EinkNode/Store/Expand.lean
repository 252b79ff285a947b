import EinkNode.Store.Images
/-!
# Expanding compressed images

`eink_lz4.c`, and the store's scratch file for the panel. The LZ4 library is a
parameter: what each of its calls consumes, puts out and returns.
-/
open NodeLib

namespace EinkNode.Store

/-- What `LZ4F_decompress` returns: an error, 0 at the end of the frame, or a hint. -/
inductive Lret where
  | error
  | done
  | more
deriving DecidableEq

/-- One call of `LZ4F_decompress`. -/
structure Lz4Call where
  consumed : Nat
  out : Bytes
  lret : Lret

/-- The heap and the LZ4 library. `calls` is `none` when there is no context; calls
beyond the list are errors. -/
structure Lz4Lib where
  malloc : Nat → Bool
  calls : Bytes → Option (List Lz4Call)

variable (lib : Lz4Lib) (b : Build)

def is_es6f_magic (buf : Bytes) : Bool := buf.length ≥ 4 && le32 buf 0 = EINK_FRAME_MAGIC

/-- The reading loop. Every turn but the last moves at least one byte. -/
def read_all_loop (path : Path) (size : Nat) : Nat → Bytes → FS (Except Int Bytes)
  | 0, buf => pure (if buf.length ≠ size then .error (-EIOERR) else .ok buf)
  | turns + 1, buf => do
    if buf.length ≥ size then pure (.ok buf)
    else
      match ← fs_read path buf.length (size - buf.length) with
      | .error e => pure (.error e)
      | .ok [] => pure (.error (-EIOERR))
      | .ok chunk => read_all_loop path size turns (buf ++ chunk)

def read_all (path : Path) : FS (Except Int Bytes) := do
  match ← fs_stat path with
  | .error e => pure (.error e)
  | .ok size =>
    if size = 0 ∨ size > EINK_LZ4_COMPRESSED_MAX then pure (.error (-EFBIG))
    else if !lib.malloc size then pure (.error (-ENOMEM))
    else
      let ret ← fs_open path false false
      if ret < 0 then pure (.error ret) else read_all_loop path size size []

/-- Nothing is written when nothing was put out. -/
def write_out (dst_path : Path) (off : Nat) (out : Bytes) : FS Int :=
  if out ≠ [] then fs_write dst_path off out else pure 0

/-- The pumping loop, over the calls of the library. The result is `total_out` or an error. -/
def expand_loop (dst_path : Path) (src_len : Nat) : Nat → Nat → List Lz4Call → FS (Except Int Nat)
  | src_off, total_out, calls => do
    if src_off < src_len ∨ total_out < EINK_FRAME_FILE_SIZE then
      match calls with
      | [] => pure (.error (-EIOERR))
      | call :: calls =>
        if call.lret = .error then pure (.error (-EIOERR))
        else if call.out ≠ [] ∧ total_out + call.out.length > EINK_FRAME_FILE_SIZE then pure (.error (-EFBIG))
        else
          let nw ← write_out dst_path total_out call.out
          if nw ≠ call.out.length then pure (.error (if nw < 0 then nw else -EIOERR))
          else if call.lret = .done then pure (.ok (total_out + call.out.length))
          else if call.consumed = 0 ∧ call.out = [] ∧ src_off ≥ src_len then pure (.error (-EIOERR))
          else expand_loop dst_path src_len (src_off + call.consumed) (total_out + call.out.length) calls
    else pure (.ok total_out)

/-- From the open destination on. -/
def expand_into (src : Bytes) (dst_path : Path) : FS Int := do
  match lib.calls src with
  | none => pure (-ENOMEM)
  | some calls =>
    match ← expand_loop dst_path src.length 0 0 calls with
    | .error e => pure e
    | .ok total_out =>
      let ret ← fs_sync dst_path
      if ret < 0 then pure ret
      else pure (if total_out ≠ EINK_FRAME_FILE_SIZE then -EINVAL else 0)

def eink_lz4_decompress_file (src_path dst_path : Path) : FS Int := do
  match ← read_all lib src_path with
  | .error e => pure e
  | .ok src =>
    let ret ← fs_open dst_path true true
    if ret < 0 then pure ret
    else
      let ret ← expand_into lib src dst_path
      if ret < 0 then
        let _ ← fs_unlink dst_path
        pure ret
      else pure ret

/-- 1 if the file was expanded, 0 if it is raw already. -/
def eink_lz4_expand_if_framed (src_path dst_path : Path) : FS Int := do
  match ← read_head src_path 8 with
  | .error e => pure e
  | .ok head =>
    if head.length < 4 then pure (-EINVAL)
    else if is_es6f_magic head then pure 0
    else if !eink_lz4_is_frame head then pure (-ENOTSUP)
    else
      let ret ← eink_lz4_decompress_file lib src_path dst_path
      pure (if ret < 0 then ret else 1)

/-- Where compressed images are expanded to for the panel. -/
def paint_path : Path := snprintf 320 (b.root.val ++ ascii "/images/.paint.es6f")

/-- The path of a raw image with the content of `path`. -/
def eink_store_materialize_es6f (path : Path) (out_cap : Nat) : FS (Except Int Path) := do
  if out_cap < 16 then pure (.error (-EINVAL))
  else
    match ← read_head path 8 with
    | .error e => pure (.error e)
    | .ok head =>
      if head.length < 4 then pure (.error (-EINVAL))
      else if b.LZ4 && eink_lz4_is_frame head then
        let ret ← eink_lz4_decompress_file lib path (paint_path b)
        pure (if ret < 0 then .error ret
          else if (paint_path b).length + 1 > out_cap then .error (-ENOMEM) else .ok (paint_path b))
      else pure (if path.length + 1 > out_cap then .error (-ENOMEM) else .ok path)

/-! ## Reading where nothing fails -/

section
variable {files : Path → Option Bytes} {path : Path} {file : Bytes}

/-- One turn moves the whole file. -/
theorem read_all_loop_calm (h : files path = some file) (hne : file ≠ []) {turns : Nat} (hturns : 0 < turns) :
    read_all_loop path file.length turns [] (.calm files) = (.ok file, .calm files) := by
  have hread : fs_read path 0 file.length (.calm files) = (.ok file, .calm files) := by
    simp [fs_read, h, Fault.moved]
  have hpos : ¬ ([] : Bytes).length ≥ file.length := not_le.2 (List.length_pos_iff.2 hne)
  obtain ⟨turns, rfl⟩ := Nat.exists_eq_succ_of_ne_zero (Nat.ne_of_gt hturns)
  obtain ⟨c, tail, rfl⟩ := List.exists_cons_of_ne_nil hne
  rw [read_all_loop, if_neg hpos, bind_app, List.length_nil, Nat.sub_zero, hread]
  dsimp only
  cases turns with
  | zero => simp [read_all_loop]
  | succ turns => simp [read_all_loop]

theorem read_all_calm (lib : Lz4Lib) (h : files path = some file) (hne : file ≠ [])
    (hmax : file.length ≤ EINK_LZ4_COMPRESSED_MAX) (hmalloc : lib.malloc file.length = true) :
    read_all lib path (.calm files) = (.ok file, .calm files) := by
  have hstat : fs_stat path (.calm files) = (.ok file.length, .calm files) := by simp [fs_stat, h]
  have hopen : fs_open path false false (.calm files) = (0, .calm files) := by simp [fs_open, h]
  have hpos := List.length_pos_iff.2 hne
  unfold read_all
  rw [bind_app, hstat]
  dsimp only
  rw [if_neg (by omega), hmalloc, Bool.not_true, if_neg Bool.false_ne_true, bind_app, hopen]
  dsimp only
  rw [if_neg (Int.lt_irrefl 0)]
  exact read_all_loop_calm h hne hpos

end

/-! ## What expanding writes to -/

section
variable {W : Path → Prop}

theorem touches_read_head (path : Path) (len : Nat) : Keeps (Touches W) (read_head path len) :=
  keeps_read_head touches_fs_open_read touches_fs_read len

theorem touches_resolve (image_id : Bytes) (cap : Nat) :
    Keeps (Touches W) (eink_store_resolve_show_path b image_id cap) := by
  have hfile (path : Path) : Keeps (Touches W) (path_is_file path) := by
    refine keeps_bind touches_fs_stat ?_
    rintro (e | size)
    · exact keeps_pure _
    · exact keeps_pure _
  refine keeps_bind (hfile _) fun raw => keeps_ite (keeps_pure _) (keeps_ite ?_ (keeps_pure _))
  exact keeps_bind (hfile _) fun lz4 => keeps_ite (keeps_pure _) (keeps_pure _)

/-- Looking for an image writes nothing. -/
theorem touches_has_valid_image (image_id : Bytes) :
    Keeps (Touches W) (eink_store_has_valid_image b image_id) := by
  have hquick : Keeps (Touches W) (eink_store_has_image_quick b image_id) := by
    refine keeps_bind (touches_resolve b image_id 300) ?_
    rintro (e | ⟨path, is_lz4⟩)
    · exact keeps_pure _
    · refine keeps_bind touches_fs_stat ?_
      rintro (e | size)
      · exact keeps_pure _
      · refine keeps_ite (keeps_ite (keeps_pure _) (keeps_bind (touches_read_head _ _) ?_)) ?_
        · rintro (e | head)
          · exact keeps_pure _
          · exact keeps_pure _
        · refine keeps_ite (keeps_pure _) (keeps_bind (touches_read_head _ _) ?_)
          rintro (e | hdr)
          · exact keeps_pure _
          · refine keeps_ite (keeps_pure _) ?_
            split
            · exact keeps_pure _
            · exact keeps_pure _
  refine keeps_bind (touches_resolve b image_id 300) ?_
  rintro (e | ⟨path, is_lz4⟩)
  · exact keeps_pure _
  · refine keeps_ite hquick (keeps_bind (touches_resolve b image_id 300) fun again => ?_)
    dsimp only
    refine keeps_ite (keeps_bind (touches_read_head _ _) ?_) (keeps_bind ?_ ?_)
    · rintro (e | head)
      · exact keeps_pure _
      · exact keeps_pure _
    · exact keeps_validate_path touches_fs_open_read touches_fs_read touches_fs_seek
    · rintro (e | hdr)
      · exact keeps_pure _
      · exact keeps_pure _

theorem touches_read_all (path : Path) : Keeps (Touches W) (read_all lib path) := by
  have hloop (size turns : Nat) (buf : Bytes) : Keeps (Touches W) (read_all_loop path size turns buf) := by
    induction turns generalizing buf with
    | zero => exact keeps_pure _
    | succ turns ih =>
      refine keeps_ite (keeps_pure _) (keeps_bind (touches_fs_read _ _) ?_)
      rintro (e | _ | ⟨c, chunk⟩)
      · exact keeps_pure _
      · exact keeps_pure _
      · exact ih _
  refine keeps_bind touches_fs_stat ?_
  rintro (e | size)
  · exact keeps_pure _
  · refine keeps_ite (keeps_pure _) (keeps_ite (keeps_pure _) ?_)
    exact keeps_bind touches_fs_open_read fun ret => keeps_ite (keeps_pure _) (hloop size size [])

variable {dst_path : Path} (hd : W dst_path)
include hd

theorem touches_expand_loop (src_len : Nat) (calls : List Lz4Call) (src_off total_out : Nat) :
    Keeps (Touches W) (expand_loop dst_path src_len src_off total_out calls) := by
  induction calls generalizing src_off total_out with
  | nil =>
    rw [expand_loop]
    exact keeps_ite (keeps_pure _) (keeps_pure _)
  | cons call calls ih =>
    rw [expand_loop]
    refine keeps_ite (keeps_ite (keeps_pure _) (keeps_ite (keeps_pure _) ?_)) (keeps_pure _)
    refine keeps_bind (keeps_ite (touches_fs_write hd _ _) (keeps_pure _)) fun nw => keeps_ite (keeps_pure _) ?_
    exact keeps_ite (keeps_pure _) (keeps_ite (keeps_pure _) (ih _ _))

theorem touches_expand_into (src : Bytes) : Keeps (Touches W) (expand_into lib src dst_path) := by
  unfold expand_into
  cases lib.calls src with
  | none => exact keeps_pure _
  | some calls =>
    refine keeps_bind (touches_expand_loop hd _ _ _ _) ?_
    rintro (e | total_out)
    · exact keeps_pure _
    · exact keeps_bind touches_fs_sync fun ret => keeps_ite (keeps_pure _) (keeps_pure _)

theorem touches_decompress_file (src_path : Path) :
    Keeps (Touches W) (eink_lz4_decompress_file lib src_path dst_path) := by
  refine keeps_bind (touches_read_all lib src_path) ?_
  rintro (e | src)
  · exact keeps_pure _
  · refine keeps_bind (touches_fs_open hd true true) fun ret => keeps_ite (keeps_pure _) ?_
    refine keeps_bind (touches_expand_into lib hd src) fun ret => keeps_ite ?_ (keeps_pure _)
    exact keeps_bind (touches_fs_unlink hd) fun _ => keeps_pure _

theorem touches_expand_if_framed (src_path : Path) :
    Keeps (Touches W) (eink_lz4_expand_if_framed lib src_path dst_path) := by
  refine keeps_bind (touches_read_head src_path 8) ?_
  rintro (e | head)
  · exact keeps_pure _
  · refine keeps_ite (keeps_pure _) (keeps_ite (keeps_pure _) (keeps_ite (keeps_pure _) ?_))
    exact keeps_bind (touches_decompress_file lib hd src_path) fun ret => keeps_pure _

end

theorem touches_materialize {W : Path → Prop} (hp : W (paint_path b)) (path : Path) (cap : Nat) :
    Keeps (Touches W) (eink_store_materialize_es6f lib b path cap) := by
  refine keeps_ite (keeps_pure _) (keeps_bind (touches_read_head path 8) ?_)
  rintro (e | head)
  · exact keeps_pure _
  · refine keeps_ite (keeps_pure _) (keeps_ite ?_ (keeps_pure _))
    exact keeps_bind (touches_decompress_file lib hp path) fun ret => keeps_pure _

end EinkNode.Store
