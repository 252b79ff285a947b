import EinkNode.Http.Download
import EinkNode.Lib.Cleanup
/-!
# What a download leaves behind

A download goes through up to four temporary files, and returns early at more
than a dozen places. Each function cleans up what it has opened unless it hands
the file on; the file that is handed on is renamed or removed by the next one.
-/
open NodeLib EinkNode.Store

namespace EinkNode.Http

/-- The temporary files of an image. -/
def image_temps (b : Build) (image_id : Bytes) : List Path :=
  [download_path b image_id, download_path b image_id ++ ascii ".tmp", download_path b image_id ++ ascii ".unc",
    content_hash_tmp b image_id]

/-! ## From the network or a file to a file -/

section
variable {path tmp : Path}

theorem removes_finish_download (hne : tmp ≠ path) (reply : Reply) :
    Removes tmp (fun _ => True) (finish_download path tmp reply) := by
  refine removes_ite (fun _ => removes_then (touches_read_head (W := fun _ => True) _ _) fun _ => ?_) fun _ => ?_
  · exact removes_unlink_then tmp _
  · refine removes_bind (removes_fs_rename hne) (fun ret hret => cleansUp_ite (fun _ => ?_) fun _ => cleansUp_pure _)
      fun ret hret => removes_ite (fun _ => removes_unlink_then tmp _) fun hneg => absurd (Int.not_lt.1 hneg) hret
    exact (removes_unlink_then tmp _).cleansUp

theorem cleansUp_finish_download (hne : path ≠ tmp) (reply : Reply) :
    CleansUp path (· ≠ 0) (finish_download path tmp reply) := by
  have hgone (ret : Int) : CleansUp path (· ≠ 0) (do let _ ← fs_unlink tmp; pure ret : FS Int) :=
    cleansUp_then (touches_fs_unlink (W := (· = tmp)) rfl) hne fun _ => cleansUp_pure _
  refine cleansUp_ite (fun _ => cleansUp_then (touches_read_head (W := (· = tmp)) _ _) hne fun _ => hgone _) fun _ => ?_
  refine cleansUp_bind (cleansUp_fs_rename tmp path) (fun ret _ => cleansUp_ite (fun _ => hgone _) fun _ => ?_)
    fun ret hret => removes_ite (fun hneg => absurd hneg hret) fun _ => removes_pure (by simp)
  exact cleansUp_pure _

theorem touches_request {W : Path → Prop} (ht : W tmp) (reply : Reply) :
    Keeps (Touches W) (request_to_file tmp reply) :=
  keeps_bind (keeps_bind (touches_response_cb ht _ _) fun _ => keeps_pure _) fun _ =>
    keeps_ite touches_fs_sync (keeps_pure _)

/-- Every way out of the loop takes the file away that arrives under the other name. -/
theorem cleansUp_download_loop_tmp (hne : tmp ≠ path) (left : Nat) (replies : List Reply) :
    CleansUp tmp (fun _ => True) (download_loop path tmp left replies) := by
  have hreq (reply : Reply) : Keeps (Touches fun _ => True) (request_to_file tmp reply) := touches_request trivial reply
  induction left generalizing replies with
  | zero =>
    refine cleansUp_bind (cleansUp_fs_open tmp true true) (fun ret hret => ?_) fun ret hret => ?_
    · exact cleansUp_ite (fun _ => cleansUp_pure _) fun h => absurd hret h
    · refine removes_ite (fun h => absurd h hret) fun _ => removes_then (hreq _) fun _ => ?_
      exact removes_ite (fun _ => removes_unlink_then tmp _) fun _ => removes_finish_download hne _
  | succ left ih =>
    refine cleansUp_bind (cleansUp_fs_open tmp true true) (fun ret hret => ?_) fun ret hret => ?_
    · exact cleansUp_ite (fun _ => cleansUp_pure _) fun h => absurd hret h
    · refine removes_ite (fun h => absurd h hret) fun _ => removes_then (hreq _) fun _ => ?_
      refine removes_ite (fun _ => removes_unlink_then tmp _) fun _ => removes_ite (fun _ => ?_) fun _ =>
        removes_finish_download hne _
      exact removes_bind (removes_fs_unlink tmp fun _ => True) (fun _ _ => ih _) fun _ h => absurd trivial h

/-- Only a return of 0 comes with a file. -/
theorem cleansUp_download_loop (hne : path ≠ tmp) (left : Nat) (replies : List Reply) :
    CleansUp path (· ≠ 0) (download_loop path tmp left replies) := by
  have hopen : Keeps (Touches (· = tmp)) (fs_open tmp true true) :=
    touches_fs_open (W := (· = tmp)) rfl true true
  have hreq (reply : Reply) : Keeps (Touches (· = tmp)) (request_to_file tmp reply) :=
    touches_request (W := (· = tmp)) rfl reply
  have hunlink : Keeps (Touches (· = tmp)) (fs_unlink tmp) := touches_fs_unlink (W := (· = tmp)) rfl
  have hgone (ret : Int) : CleansUp path (· ≠ 0) (do let _ ← fs_unlink tmp; pure ret : FS Int) :=
    cleansUp_then hunlink hne fun _ => cleansUp_pure _
  induction left generalizing replies with
  | zero =>
    refine cleansUp_then hopen hne fun ret => cleansUp_ite (fun _ => cleansUp_pure _) fun _ => ?_
    exact cleansUp_then (hreq _) hne fun ret => cleansUp_ite (fun _ => hgone _) fun _ => cleansUp_finish_download hne _
  | succ left ih =>
    refine cleansUp_then hopen hne fun ret => cleansUp_ite (fun _ => cleansUp_pure _) fun _ => ?_
    refine cleansUp_then (hreq _) hne fun ret => cleansUp_ite (fun _ => hgone _) fun _ => ?_
    refine cleansUp_ite (fun _ => ?_) fun _ => cleansUp_finish_download hne _
    exact cleansUp_then hunlink hne fun _ => ih _

end

theorem copy_loop_nonpos (src dst : Path) (turns off : Nat) : Always (· ≤ 0) (copy_loop src dst turns off) := by
  induction turns generalizing off with
  | zero => exact always_pure (by decide)
  | succ turns ih =>
    refine always_bind (negErr_fs_read src off _) ?_
    rintro (e | _ | ⟨c, chunk⟩) he
    · exact always_pure (Int.le_of_lt he)
    · intro d
      cases hsync : d.err .fs_sync dst with
      | none => simp [fs_sync, hsync]
      | some e => simpa [fs_sync, hsync] using Int.le_of_lt (Disk.err_neg hsync)
    · refine always_then fun ret => always_ite (fun _ => always_pure ?_) fun _ => ih _
      split
      · omega
      · decide

theorem cleansUp_copy_path (src dst : Path) : CleansUp dst (· ≠ 0) (copy_path_chunked src dst) := by
  refine cleansUp_then (W := (· ≠ dst)) touches_fs_open_read (not_not.2 rfl) fun ret =>
    cleansUp_ite (fun _ => cleansUp_pure _) fun _ => ?_
  refine cleansUp_bind (cleansUp_fs_open dst true true) (fun ret hret => ?_) fun ret hret => ?_
  · exact cleansUp_ite (fun _ => cleansUp_pure _) fun h => absurd hret h
  · refine removes_ite (fun h => absurd h hret) fun _ => ?_
    refine removes_then (W := fun _ => True) (fun d => refl_of _ d) fun bytes => ?_
    refine removes_then_of_always (copy_loop_nonpos src dst _ 0) (touches_copy_loop (W := fun _ => True) trivial _ 0) ?_
    exact fun ret hret => removes_ite (fun _ => removes_unlink_then dst _) fun hneg => removes_pure (by omega)

/-! ## Expanding -/

theorem cleansUp_decompress_file (lib : Lz4Lib) (src dst : Path) :
    CleansUp dst (· < 0) (eink_lz4_decompress_file lib src dst) := by
  have hinto (bytes : Bytes) : Keeps (Touches fun _ => True) (expand_into lib bytes dst) :=
    touches_expand_into lib trivial bytes
  refine cleansUp_then (W := (· ≠ dst)) (touches_read_all lib src) (not_not.2 rfl) ?_
  rintro (e | bytes)
  · exact cleansUp_pure _
  · refine cleansUp_bind (cleansUp_fs_open dst true true) (fun ret hret => ?_) fun ret hret => ?_
    · exact cleansUp_ite (fun _ => cleansUp_pure _) fun h => absurd hret h
    · refine removes_ite (fun h => absurd h hret) fun _ => removes_then (hinto bytes) fun ret => ?_
      exact removes_ite (fun _ => removes_unlink_then dst _) fun hneg => removes_pure hneg

/-- Without an expanded file the result is not 1. -/
theorem cleansUp_expand_if_framed (lib : Lz4Lib) (src dst : Path) :
    CleansUp dst (· ≠ 1) (eink_lz4_expand_if_framed lib src dst) := by
  refine cleansUp_then (W := (· ≠ dst)) (touches_read_head src 8) (not_not.2 rfl) ?_
  rintro (e | head)
  · exact cleansUp_pure _
  · refine cleansUp_ite (fun _ => cleansUp_pure _) fun _ => cleansUp_ite (fun _ => cleansUp_pure _) fun _ => ?_
    refine cleansUp_ite (fun _ => cleansUp_pure _) fun _ => ?_
    refine cleansUp_bind (cleansUp_decompress_file lib src dst) (fun ret _ => cleansUp_pure _) fun ret hret => ?_
    exact removes_pure (by rw [if_neg hret]; simp)

/-! ## The check of what has arrived -/

section
variable {b : Build} (lib : Lz4Lib) (tmp : Path)

theorem ne_append_unc : tmp ≠ tmp ++ ascii ".unc" := by
  intro h
  have := congrArg List.length h
  simp [ascii] at this

/-- Unless the file itself is handed on, it is gone. -/
theorem removes_check_download (rename_expanded : Bool) :
    Removes tmp (· ≠ .ok tmp) (check_download b (eink_lz4_expand_if_framed lib) tmp rename_expanded) := by
  have hexpand : Keeps (Touches fun _ => True) (eink_lz4_expand_if_framed lib tmp (tmp ++ ascii ".unc")) :=
    touches_expand_if_framed lib trivial tmp
  refine removes_then (touches_read_head (W := fun _ => True) tmp 8) ?_
  rintro (e | head)
  · exact removes_unlink_then tmp _
  refine removes_ite (fun _ => removes_unlink_then tmp _) fun _ => removes_ite (fun _ => ?_) fun _ => ?_
  · refine removes_ite (fun _ => removes_unlink_then tmp _) fun _ => removes_then hexpand fun expanded => ?_
    refine removes_ite (fun _ => removes_unlink_then tmp _) fun _ => removes_ite (fun _ => ?_) fun _ => ?_
    · refine removes_bind (removes_fs_unlink tmp fun _ => True) (fun _ _ => ?_) fun _ h => absurd trivial h
      refine cleansUp_ite (fun _ => ?_) fun _ => cleansUp_pure _
      -- The expanded file takes the name, or the rename fails and it goes too.
      refine cleansUp_bind (cleansUp_fs_rename _ tmp) (fun ret _ => cleansUp_ite (fun _ => ?_) fun _ => cleansUp_pure _)
        fun ret hret => removes_ite (fun h => absurd h hret) fun _ => removes_pure (by simp)
      exact cleansUp_then (touches_fs_unlink (W := (· ≠ tmp)) (ne_append_unc tmp).symm) (not_not.2 rfl) fun _ =>
        cleansUp_pure _
    · exact removes_pure (by simp)
  · exact removes_pure (by simp)

/-- Unless the expanded file is handed on, there is none. -/
theorem cleansUp_check_download (rename_expanded : Bool) :
    CleansUp (tmp ++ ascii ".unc") (· ≠ .ok (tmp ++ ascii ".unc"))
      (check_download b (eink_lz4_expand_if_framed lib) tmp rename_expanded) := by
  have hunlink : Keeps (Touches (· = tmp)) (fs_unlink tmp) := touches_fs_unlink (W := (· = tmp)) rfl
  have hne := (ne_append_unc tmp).symm
  have hgone (r : Except Int Path) : CleansUp (tmp ++ ascii ".unc") (· ≠ .ok (tmp ++ ascii ".unc"))
      (do let _ ← fs_unlink tmp; pure r : FS (Except Int Path)) :=
    cleansUp_then hunlink hne fun _ => cleansUp_pure r
  refine cleansUp_then (touches_read_head (W := (· = tmp)) tmp 8) hne ?_
  rintro (e | head)
  · exact hgone _
  refine cleansUp_ite (fun _ => hgone _) fun _ => cleansUp_ite (fun _ => ?_) fun _ => cleansUp_pure _
  refine cleansUp_ite (fun _ => hgone _) fun _ => ?_
  refine cleansUp_bind (cleansUp_expand_if_framed lib tmp _) (fun expanded hexp => ?_) fun expanded hexp => ?_
  · refine cleansUp_ite (fun _ => hgone _) fun _ => cleansUp_ite (fun h => absurd h hexp) fun _ => cleansUp_pure _
  · refine removes_ite (fun h => ?_) fun _ => removes_ite (fun _ => ?_) fun h => absurd h hexp
    · omega
    · refine removes_then (touches_fs_unlink (W := fun _ => True) trivial) fun _ => removes_ite (fun _ => ?_) fun _ =>
        removes_pure (by simp)
      refine removes_bind (removes_fs_rename hne) (fun ret _ => cleansUp_ite (fun _ => ?_) fun _ => cleansUp_pure _)
        fun ret hret => removes_ite (fun _ => removes_unlink_then _ _) fun h => absurd (Int.not_lt.1 h) hret
      exact (removes_unlink_then _ _).cleansUp

end

/-! ## The bytes of the URL -/

section
variable {b : Build} (lib : Lz4Lib) (url : Bytes) (replies : List Reply) (tmp : Path)

theorem removes_fetched {tmp : Path} {m : FS Int} {f : Int → FS (Except Int Path)} {e : Int → Except Int Path}
    (hm : CleansUp tmp (· ≠ 0) m) (hf : ∀ ret, Removes tmp (· ≠ .ok tmp) (f ret)) :
    CleansUp tmp (· ≠ .ok tmp) (do let ret ← m; if ret ≠ 0 then pure (e ret) else f ret) := by
  refine cleansUp_bind hm (fun ret hret => cleansUp_ite (fun _ => cleansUp_pure _) fun h => absurd hret h)
    fun ret hret => ?_
  exact removes_ite (fun h => absurd h hret) fun _ => hf ret

/-- Unless the temporary file is handed on, there is none. -/
theorem cleansUp_fetch_temp :
    CleansUp tmp (· ≠ .ok tmp) (fetch_image b (eink_lz4_expand_if_framed lib) url replies tmp) := by
  have hdownload : CleansUp tmp (· ≠ 0) (http_download_to_file tmp replies) :=
    cleansUp_ite (fun _ => cleansUp_pure _) fun _ => cleansUp_download_loop (ne_append_tmp tmp) _ replies
  refine cleansUp_ite (fun _ => removes_fetched (cleansUp_copy_path _ tmp) fun ret => ?_) fun _ => ?_
  · exact removes_ite (fun _ => removes_check_download lib tmp true) fun _ => removes_pure (by simp)
  · refine cleansUp_ite (fun _ => removes_fetched hdownload fun ret => ?_) fun _ => cleansUp_pure _
    exact removes_check_download lib tmp false

/-- The check writes to the file and to the expanded one. -/
theorem touches_check {W : Path → Prop} (ht : W tmp) (hu : W (tmp ++ ascii ".unc")) (rename_expanded : Bool) :
    Keeps (Touches W) (check_download b (eink_lz4_expand_if_framed lib) tmp rename_expanded) :=
  touches_check_download _ ht (.inr ⟨hu, fun src _ hd => touches_expand_if_framed lib hd src⟩) rename_expanded

/-- The file that the network writes to is never left. -/
theorem cleansUp_fetch_tmp : CleansUp (tmp ++ ascii ".tmp") (fun _ => True)
    (fetch_image b (eink_lz4_expand_if_framed lib) url replies tmp) := by
  have hne := (ne_append_tmp tmp).symm
  have hunc : tmp ++ ascii ".tmp" ≠ tmp ++ ascii ".unc" := by simp [ascii]
  have hcheck (rename_expanded : Bool) : CleansUp (tmp ++ ascii ".tmp") (fun _ => True)
      (check_download b (eink_lz4_expand_if_framed lib) tmp rename_expanded) :=
    cleansUp_of_touches (touches_check (W := fun p => p = tmp ∨ p = tmp ++ ascii ".unc") lib tmp (.inl rfl) (.inr rfl)
      rename_expanded) (not_or.2 ⟨hne, hunc⟩)
  have hdownload : CleansUp (tmp ++ ascii ".tmp") (fun _ => True) (http_download_to_file tmp replies) :=
    cleansUp_ite (fun _ => cleansUp_pure _) fun _ => cleansUp_download_loop_tmp hne _ replies
  refine cleansUp_ite (fun _ => ?_) fun _ => cleansUp_ite (fun _ => ?_) fun _ => cleansUp_pure _
  · refine cleansUp_then (touches_copy_path (W := (· = tmp)) rfl) hne fun ret => ?_
    exact cleansUp_ite (fun _ => cleansUp_pure _) fun _ => cleansUp_ite (fun _ => hcheck _) fun _ => cleansUp_pure _
  · refine cleansUp_bind hdownload (fun ret _ => ?_) fun _ h => absurd trivial h
    exact cleansUp_ite (fun _ => cleansUp_pure _) fun _ => hcheck _

/-- Unless the expanded file is handed on, there is none. -/
theorem cleansUp_fetch_unc : CleansUp (tmp ++ ascii ".unc") (· ≠ .ok (tmp ++ ascii ".unc"))
    (fetch_image b (eink_lz4_expand_if_framed lib) url replies tmp) := by
  have hne := (ne_append_unc tmp).symm
  have hfetch : ¬ (fun p => p = tmp ∨ p = tmp ++ ascii ".tmp") (tmp ++ ascii ".unc") :=
    not_or.2 ⟨hne, by simp [ascii]⟩
  refine cleansUp_ite (fun _ => ?_) fun _ => cleansUp_ite (fun _ => ?_) fun _ => cleansUp_pure _
  · refine cleansUp_then (touches_copy_path (W := (· = tmp)) rfl) hne fun ret => ?_
    refine cleansUp_ite (fun _ => cleansUp_pure _) fun _ => cleansUp_ite (fun _ => ?_) fun _ => cleansUp_pure _
    exact cleansUp_check_download lib tmp true
  · refine cleansUp_then (touches_download_to_file (W := fun p => p = tmp ∨ p = tmp ++ ascii ".tmp") (.inl rfl)
      (.inr rfl) replies) hfetch fun ret => ?_
    exact cleansUp_ite (fun _ => cleansUp_pure _) fun _ => cleansUp_check_download lib tmp false

end

/-! ## Acceptance and the hash -/

section
variable {b : Build} {image_id : Bytes} {temp_path : Path}

/-- What was accepted has left its temporary name. -/
theorem removes_accept (hne : temp_path ∉ image_names b image_id) :
    Removes temp_path (· = 0) (eink_store_accept_temp_image b image_id temp_path) := by
  have hcheck : Keeps (Touches fun _ => True) (check_temp_image b temp_path) :=
    keeps_check_temp_image (touches_read_head temp_path 8)
      (keeps_validate_path touches_fs_open_read touches_fs_read touches_fs_seek) touches_fs_stat
  have hgone (p : Path) : Keeps (Touches fun _ => True) (unlink_if_exists p) :=
    keeps_unlink_if_exists touches_fs_stat (touches_fs_unlink trivial)
  refine removes_then_of_always (negErr_check_temp_image b temp_path) hcheck ?_
  rintro (e | format) he
  · exact removes_pure (Int.ne_of_lt he)
  · refine removes_then (hgone _) fun _ => removes_then (hgone _) fun _ => ?_
    have hpath : temp_path ≠ accepted_path b image_id format := by
      rintro h
      refine hne (h ▸ ?_)
      cases format <;> simp [image_names, accepted_path]
    exact (removes_fs_rename hpath).mono fun ret hret => Int.le_of_eq hret.symm

/-- Every way out of the saving of the hash takes its temporary file away. -/
theorem cleansUp_write_and_rename {tmp path : Path} (hne : tmp ≠ path) (line : Bytes) :
    CleansUp tmp (fun _ => True) (write_and_rename tmp path line) := by
  refine cleansUp_bind (cleansUp_fs_open tmp true false) (fun ret hret => ?_) fun ret hret => ?_
  · exact cleansUp_ite (fun _ => cleansUp_pure _) fun h => absurd hret h
  · refine removes_ite (fun h => absurd h hret) fun _ => ?_
    refine removes_then (touches_fs_write (W := fun _ => True) trivial 0 line) fun n => ?_
    refine removes_ite (fun _ => removes_unlink_then tmp _) fun _ => ?_
    refine removes_then (touches_fs_unlink (W := fun _ => True) trivial) fun _ => ?_
    refine removes_bind (removes_fs_rename hne) (fun ret _ => cleansUp_ite (fun _ => ?_) fun _ => cleansUp_pure _)
      fun ret hret => removes_ite (fun _ => removes_unlink_then tmp _) fun h => absurd (Int.not_lt.1 h) hret
    exact (removes_unlink_then tmp _).cleansUp

/-- From the file that was handed on, nothing is left of it. -/
theorem removes_accept_and_record (hne : temp_path ∉ image_names b image_id)
    (hhash : temp_path ≠ eink_store_content_hash_path b image_id) (htmp : temp_path ≠ content_hash_tmp b image_id)
    (sha : Option Bytes) (size : UInt32) :
    Removes temp_path (fun _ => True) (accept_and_record b image_id temp_path sha size) := by
  have hsave : Keeps (Touches (· ≠ temp_path)) (save_declared b image_id sha size) :=
    touches_save_declared htmp.symm hhash.symm sha size
  refine removes_bind (removes_accept hne) (fun ret hret => ?_) fun ret hret => ?_
  · refine cleansUp_ite (fun h => absurd hret h) fun _ => ?_
    exact cleansUp_then hsave (not_not.2 rfl) fun _ => cleansUp_pure _
  · exact removes_ite (fun _ => removes_unlink_then temp_path _) fun h => absurd (not_not.1 h) hret

/-- Another temporary file is left alone. -/
theorem cleansUp_accept_other {t : Path} (ht : t ≠ temp_path) (hne : t ∉ image_names b image_id)
    (hhash : t ≠ eink_store_content_hash_path b image_id) (htmp : t ≠ content_hash_tmp b image_id)
    (sha : Option Bytes) (size : UInt32) :
    CleansUp t (fun _ => True) (accept_and_record b image_id temp_path sha size) := by
  have haccept : Keeps (Touches (· ≠ t)) (eink_store_accept_temp_image b image_id temp_path) :=
    touches_accept ht.symm fun p hp h => hne (h ▸ hp)
  have hsave : Keeps (Touches (· ≠ t)) (save_declared b image_id sha size) :=
    touches_save_declared htmp.symm hhash.symm sha size
  refine cleansUp_then haccept (not_not.2 rfl) fun ret => cleansUp_ite (fun _ => ?_) fun _ => ?_
  · exact cleansUp_then (touches_fs_unlink (W := (· ≠ t)) ht.symm) (not_not.2 rfl) fun _ => cleansUp_pure _
  · exact cleansUp_then hsave (not_not.2 rfl) fun _ => cleansUp_pure _

theorem cleansUp_accept_hash (htmp : content_hash_tmp b image_id ≠ temp_path)
    (hne : content_hash_tmp b image_id ∉ image_names b image_id) (sha : Option Bytes) (size : UInt32) :
    CleansUp (content_hash_tmp b image_id) (fun _ => True) (accept_and_record b image_id temp_path sha size) := by
  have haccept : Keeps (Touches (· ≠ content_hash_tmp b image_id))
      (eink_store_accept_temp_image b image_id temp_path) :=
    touches_accept htmp.symm fun p hp h => hne (h ▸ hp)
  have hsave : CleansUp (content_hash_tmp b image_id) (fun _ => True) (save_declared b image_id sha size) := by
    cases sha with
    | none => exact cleansUp_pure _
    | some sha =>
      have hhash : CleansUp (content_hash_tmp b image_id) (fun _ => True)
          (eink_store_save_content_hash b image_id (lower_sha sha) size) :=
        cleansUp_ite (fun _ => cleansUp_pure _) fun _ =>
          cleansUp_write_and_rename (content_hash_path_ne_tmp b image_id).symm _
      refine cleansUp_ite (fun _ => ?_) fun _ => cleansUp_pure _
      exact cleansUp_bind hhash (fun _ _ => cleansUp_pure _) fun _ h => absurd trivial h
  refine cleansUp_then haccept (not_not.2 rfl) fun ret => cleansUp_ite (fun _ => ?_) fun _ => ?_
  · exact cleansUp_then (touches_fs_unlink (W := (· ≠ content_hash_tmp b image_id)) htmp.symm) (not_not.2 rfl) fun _ =>
      cleansUp_pure _
  · exact cleansUp_bind hsave (fun _ _ => cleansUp_pure _) fun _ h => absurd trivial h

end

/-! ## The names -/

section
variable (b : Build) (image_id : Bytes)

/-- The names in the store are at most eight bytes longer than that of the raw image, even if they are cut. -/
theorem length_names : (eink_store_image_lz4_path b image_id).length ≤ (eink_store_image_path b image_id).length + 8 ∧
    (eink_store_content_hash_path b image_id).length ≤ (eink_store_image_path b image_id).length + 8 ∧
    (eink_store_image_path b image_id).length ≤ (eink_store_content_hash_path b image_id).length ∧
    (eink_store_image_lz4_path b image_id).length ≤ (eink_store_content_hash_path b image_id).length := by
  have h5 : (ascii ".es6f").length = 5 := rfl
  have h9 : (ascii ".es6f.lz4").length = 9 := rfl
  have h13 : (ascii ".es6f.lz4.sha").length = 13 := rfl
  unfold eink_store_image_path eink_store_image_lz4_path eink_store_content_hash_path snprintf
  simp only [List.length_take, List.length_append, h5, h9, h13]
  omega

/-- A temporary file of the download has none of the store's names. -/
theorem not_stored {t : Path} (ht : (eink_store_image_path b image_id).length + 9 ≤ t.length) :
    t ∉ image_names b image_id ∧ t ≠ eink_store_content_hash_path b image_id := by
  obtain ⟨h1, h2, h3, h4⟩ := length_names b image_id
  refine ⟨fun hmem => ?_, fun h => ?_⟩
  · simp only [image_names, List.mem_cons, List.not_mem_nil, or_false] at hmem
    rcases hmem with rfl | rfl
    · omega
    · omega
  · rw [h] at ht
    omega

theorem length_download_path : (download_path b image_id).length = (eink_store_image_path b image_id).length + 9 := by
  rw [download_path, List.length_append]
  rfl

theorem hash_tmp_not_stored : content_hash_tmp b image_id ∉ image_names b image_id := by
  obtain ⟨h1, h2, h3, h4⟩ := length_names b image_id
  have hlen : (content_hash_tmp b image_id).length = (eink_store_content_hash_path b image_id).length + 4 := by
    rw [content_hash_tmp, List.length_append]
    rfl
  intro hmem
  simp only [image_names, List.mem_cons, List.not_mem_nil, or_false] at hmem
  rcases hmem with h | h
  · rw [h] at hlen
    omega
  · rw [h] at hlen
    omega

/-- The files of the download are told from that of the hash by their last byte, or by their length. -/
theorem download_ne_hash_tmp : download_path b image_id ≠ content_hash_tmp b image_id ∧
    download_path b image_id ++ ascii ".tmp" ≠ content_hash_tmp b image_id ∧
    download_path b image_id ++ ascii ".unc" ≠ content_hash_tmp b image_id := by
  have hlast : (content_hash_tmp b image_id).getLast? = some 112 := by simp [content_hash_tmp, ascii]
  refine ⟨fun h => ?_, fun h => ?_, fun h => ?_⟩
  · rw [← h] at hlast
    simp [download_path, ascii] at hlast
  · obtain ⟨-, h2, -, -⟩ := length_names b image_id
    have hlen := congrArg List.length h
    rw [List.length_append, length_download_path, content_hash_tmp, List.length_append] at hlen
    have h4 : (ascii ".tmp").length = 4 := rfl
    omega
  · rw [← h] at hlast
    simp [ascii] at hlast

end

/-! ## The whole download -/

section
variable (b : Build) (lib : Lz4Lib) (image_id url : Bytes) (replies : List Reply) (sha : Option Bytes) (size : UInt32)

/-- A file of the download that is left by the fetch is the one that is handed on, and goes with it. -/
theorem cleansUp_download {t : Path} (ht : (eink_store_image_path b image_id).length + 9 ≤ t.length)
    (htmp : t ≠ content_hash_tmp b image_id)
    (hfetch : CleansUp t (· ≠ .ok t)
      (fetch_image b (eink_lz4_expand_if_framed lib) url replies (download_path b image_id))) :
    CleansUp t (fun _ => True)
      (eink_http_download_image_hashed b (eink_lz4_expand_if_framed lib) image_id url replies sha size) := by
  obtain ⟨hne, hhash⟩ := not_stored b image_id ht
  refine cleansUp_bind hfetch ?_ ?_
  · rintro (e | temp_path) hbad
    · exact cleansUp_pure _
    · exact cleansUp_accept_other (fun h => hbad (congrArg Except.ok h.symm)) hne hhash htmp sha size
  · intro r hgood
    rw [not_not.1 hgood]
    exact removes_accept_and_record hne hhash htmp sha size

theorem cleansUp_download_hash : CleansUp (content_hash_tmp b image_id) (fun _ => True)
    (eink_http_download_image_hashed b (eink_lz4_expand_if_framed lib) image_id url replies sha size) := by
  obtain ⟨hdown, htmp, hunc⟩ := download_ne_hash_tmp b image_id
  have htouch : Keeps (Touches (· ≠ content_hash_tmp b image_id))
      (fetch_image b (eink_lz4_expand_if_framed lib) url replies (download_path b image_id)) :=
    touches_fetch_image _ url replies hdown htmp
      (.inr ⟨hunc, fun src dst hd => touches_expand_if_framed (W := (· ≠ content_hash_tmp b image_id)) lib hd src⟩)
  refine cleansUp_then_of_always (fetch_image_path b _ url replies _) htouch (not_not.2 rfl) ?_
  rintro (e | temp_path) hpath
  · exact cleansUp_pure _
  · have hne : content_hash_tmp b image_id ≠ temp_path := by
      rcases hpath temp_path rfl with rfl | ⟨-, rfl⟩
      · exact hdown.symm
      · exact hunc.symm
    exact cleansUp_accept_hash hne (hash_tmp_not_stored b image_id) sha size

/-- Where every unlink goes through, a download leaves none of its temporary files behind, however it ends. -/
theorem download_leaves_nothing {d : Disk Path} (hunlink : ∀ p, ∀ o ∈ d.faults .fs_unlink p, o.err = none)
    (hclean : ∀ t ∈ image_temps b image_id, d.files t = none) :
    ∀ t ∈ image_temps b image_id,
      (eink_http_download_image_hashed b (eink_lz4_expand_if_framed lib) image_id url replies
        sha size d).2.files t = none := by
  have hlen := length_download_path b image_id
  obtain ⟨hdown, htmp, hunc⟩ := download_ne_hash_tmp b image_id
  intro t ht
  have hclean := hclean t ht
  simp only [image_temps, List.mem_cons, List.not_mem_nil, or_false] at ht
  have hall : CleansUp t (fun _ => True)
      (eink_http_download_image_hashed b (eink_lz4_expand_if_framed lib) image_id url replies sha size) := by
    rcases ht with rfl | rfl | rfl | rfl
    · exact cleansUp_download b lib image_id url replies sha size (Nat.le_of_eq hlen.symm) hdown
        (cleansUp_fetch_temp lib url replies _)
    · refine cleansUp_download b lib image_id url replies sha size ?_ htmp
        ((cleansUp_fetch_tmp lib url replies _).mono fun _ _ => trivial)
      rw [List.length_append, hlen]
      exact Nat.le_add_right _ _
    · refine cleansUp_download b lib image_id url replies sha size ?_ hunc (cleansUp_fetch_unc lib url replies _)
      rw [List.length_append, hlen]
      exact Nat.le_add_right _ _
    · exact cleansUp_download_hash b lib image_id url replies sha size
  exact (hall d ⟨hunlink, hclean⟩).2 trivial

end

/-- Through a redirect, with an image in two pieces, whose hash is recorded. -/
theorem download_leaves_nothing_redirected :
    (eink_http_download_image_hashed lz4Build (eink_lz4_expand_if_framed ⟨fun _ => true, fun _ => none⟩) (ascii "a")
      (ascii "http://h/a") redirected (some (List.replicate 64 97)) 16 (.calm fun _ => none)).1 = 0 ∧
    ∀ t ∈ image_temps lz4Build (ascii "a"), (eink_http_download_image_hashed lz4Build
      (eink_lz4_expand_if_framed ⟨fun _ => true, fun _ => none⟩) (ascii "a") (ascii "http://h/a") redirected
      (some (List.replicate 64 97)) 16 (.calm fun _ => none)).2.files t = none := by
  have hcalm (p : Path) : ∀ o ∈ (Disk.calm fun _ : Path => none).faults .fs_unlink p, o.err = none :=
    fun _ ho => (nomatch ho)
  exact ⟨by decide +kernel, download_leaves_nothing lz4Build ⟨fun _ => true, fun _ => none⟩ (ascii "a")
    (ascii "http://h/a") redirected _ 16 hcalm fun _ _ => rfl⟩

end EinkNode.Http
