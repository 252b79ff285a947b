import EinkNode.Http.PowerCuts
import EinkNode.Store.Reboot
/-!
# What comes back after a power cut

The store keeps five small files. After any operations, each with any failures
or cut off by a loss of power, each of them is the one of the last save that
reported success, and that is what the node starts with.
-/
open NodeLib EinkNode.Store EinkNode.Scheduler

namespace EinkNode.Http

variable (b : Build)

/-! ## Starting up -/

def last_job_key : Bytes := ascii "\"last_displayed_job_id\":\""

/-- The text behind the key, cut to an array of `cap` bytes. -/
def parse_state (line : Bytes) (cap : Nat) : Bytes :=
  match strstr (cstring line) last_job_key with
  | none => []
  | some p => ((p.drop last_job_key.length).takeWhile (· ≠ 34)).take (cap - 1)

/-- The result, and what is in `last_job_id` then. -/
def eink_store_load_state (cap : Nat) : FS (Int × Bytes) := do
  if cap = 0 then pure (-EINVAL, [])
  else
    match ← fs_stat (path_state b) with
    | .error e => pure (if e = -ENOENT then 0 else e, [])
    | .ok _ =>
      match ← read_head (path_state b) 255 with
      | .error e => pure (e, [])
      | .ok line => pure (0, parse_state line cap)

/-- In a build that persists credentials. -/
def eink_http_load_persisted_credentials (cfg : Credentials) : FS (Int × Credentials) := do
  if !cfg.inited then pure (-EINVAL, cfg)
  else
    match ← eink_store_load_http_creds b 192 64 256 with
    | .error e => pure (if e = -ENOENT then 0 else e, cfg)
    | .ok (api_base, device_id, auth_token) =>
      let api_base : CStr 192 := .copy _ api_base
      let device_id : CStr 64 := .copy _ device_id
      pure (0, ⟨true, api_base.val ≠ [] && device_id.val ≠ [], api_base, device_id, .copy _ auth_token⟩)

/-! ## The five files -/

inductive Cell where
  | last_sync | http_creds | state | schedule | location
deriving DecidableEq

namespace Cell

def name : Cell → Bytes
  | last_sync => ascii "/sync_meta.json"
  | http_creds => ascii "/creds.json"
  | state => ascii "/state.json"
  | schedule => ascii "/schedule.json"
  | location => ascii "/location.json"

def path (c : Cell) : Path := snprintf 300 (b.root.val ++ c.name)

end Cell

/-- The file that a save is for. -/
def cell_of : Save → Option Cell
  | .last_sync _ => some .last_sync
  | .http_creds _ _ _ => some .http_creds
  | .state _ => some .state
  | .schedule _ => some .schedule
  | .location _ => some .location
  | .image _ _ => none

/-- What a save leaves in its file when it reports success. The end of a schedule may be cut, which is not noticed. -/
def Leaves : Save → Bytes → Prop
  | .http_creds api_base device_id auth_token, text =>
    text = (Save.http_creds api_base device_id auth_token).contents ∧ text.length + 1 < 768
  | .schedule sched, text =>
    ∃ tail, tail <+: ascii "]\x7d\n" ∧ text = ascii "\x7b\"jobs\":[" ++ entries 0 sched.jobs ++ tail
  | s, text => text = s.contents

/-- The save that an operation is. -/
def StoreOp.save : StoreOp → Option Save
  | .save_last_sync unix_sec => some (.last_sync unix_sec)
  | .save_http_creds api_base device_id auth_token => some (.http_creds api_base device_id auth_token)
  | .save_state last_job_id => some (.state last_job_id)
  | .save_schedule sched => some (.schedule sched)
  | .save_location json => some (.location json)
  | .image _ _ => none
  | .materialize_es6f _ _ _ => none

/-- The save, if it reports success. -/
def StoreEvent.reported (files : Path → Option Bytes) (ev : StoreEvent) : Option Save :=
  ev.op.save.filter fun s => (s.run b ⟨files, ev.faults⟩).1 = 0

/-- The files, and the saves that have reported success. -/
abbrev Logged := (Path → Option Bytes) × List Save

def logged_step (s : Logged) (ev : StoreEvent) : Logged :=
  (store_step b s.1 ev, s.2 ++ (ev.reported b s.1).toList)

def last_save (c : Cell) (saves : List Save) : Option Save := (saves.filter (cell_of · = some c)).getLast?

section
variable {b}

theorem path_eq (hroot : b.root.val.length ≤ 215) (c : Cell) : c.path b = b.root.val ++ c.name := by
  have hname : c.name.length ≤ 15 := by
    cases c <;> decide
  unfold Cell.path snprintf
  apply List.take_of_length_le
  rw [List.length_append]
  omega

/-- The five files and their temporary files have different names. -/
theorem paths_apart (hroot : b.root.val.length ≤ 215) {c c' : Cell} (hne : c ≠ c') :
    c.path b ≠ c'.path b ∧ c.path b ≠ c'.path b ++ ascii ".tmp" := by
  rw [path_eq hroot, path_eq hroot, List.append_assoc]
  constructor
  · intro h
    have hname := List.append_cancel_left h
    revert hname hne
    cases c <;> cases c' <;> decide
  · intro h
    have hname := List.append_cancel_left h
    revert hname
    cases c <;> cases c' <;> decide

theorem target_of_cell {s : Save} {c : Cell} (h : cell_of s = some c) : s.target b = c.path b := by
  cases s with
  | image image_id es6f => cases h
  | _ =>
    cases h
    rfl

/-! ## One save -/

theorem finish_file_le (tmp path : Path) (ret : Int) (d : Disk Path) : (finish_file tmp path ret d).1 ≤ 0 := by
  unfold finish_file
  split
  · next h => exact Int.le_of_lt h
  · rw [bind_app]
    split
    · next h => exact Int.le_of_lt h
    · exact Int.le_refl 0

theorem save_text_le (path json : Bytes) (d : Disk Path) : (save_text path json d).1 ≤ 0 := by
  unfold save_text
  rw [bind_app]
  split
  · next h => exact Int.le_of_lt h
  · exact finish_file_le _ _ _ _

theorem save_schedule_le (sched : Schedule) (d : Disk Path) : (eink_store_save_schedule b sched d).1 ≤ 0 := by
  unfold eink_store_save_schedule
  rw [bind_app]
  split
  · next h => exact Int.le_of_lt h
  · rw [bind_app]
    generalize write_entries _ _ _ _ = r
    obtain ⟨res, d1⟩ := r
    cases res with
    | error e => exact finish_file_le _ _ _ _
    | ok off => exact finish_file_le _ _ _ _

/-- A text that is saved as a whole or not at all. -/
theorem save_text_leaves (path json : Bytes) (d : Disk Path) :
    ((save_text path json d).1 = 0 → (save_text path json d).2.files path = some json) ∧
      ((save_text path json d).1 ≠ 0 → (save_text path json d).2.files path = d.files path) := by
  refine ⟨save_text_zero, fun h => ?_⟩
  have hle := save_text_le path json d
  exact save_text_neg (by omega)

/-- A save that reports success has replaced its file; any other has left it alone. -/
theorem save_leaves {s : Save} {c : Cell} (hc : cell_of s = some c) (d : Disk Path) :
    ((s.run b d).1 = 0 → ∃ text, (s.run b d).2.files (c.path b) = some text ∧ Leaves s text) ∧
      ((s.run b d).1 ≠ 0 → (s.run b d).2.files (c.path b) = d.files (c.path b)) := by
  rw [← target_of_cell hc]
  have htext (json : Bytes) (hrun : s.run b d = save_text (s.target b) json d) (hleaves : Leaves s json) :
      ((s.run b d).1 = 0 → ∃ text, (s.run b d).2.files (s.target b) = some text ∧ Leaves s text) ∧
        ((s.run b d).1 ≠ 0 → (s.run b d).2.files (s.target b) = d.files (s.target b)) := by
    rw [hrun]
    obtain ⟨hzero, hother⟩ := save_text_leaves (s.target b) json d
    exact ⟨fun h => ⟨json, hzero h, hleaves⟩, hother⟩
  cases s with
  | last_sync unix_sec => exact htext _ rfl rfl
  | state last_job_id => exact htext _ rfl rfl
  | location json => exact htext _ rfl rfl
  | image image_id es6f => cases hc
  | http_creds api_base device_id auth_token =>
    have hrun : (Save.http_creds api_base device_id auth_token).run b d =
        eink_store_save_http_creds b api_base device_id auth_token d := rfl
    unfold eink_store_save_http_creds at hrun
    rw [creds_json_eq] at hrun
    by_cases hfits : (creds_text (kept api_base.val) (kept device_id.val) (kept auth_token.val)).length + 1 < 768
    · rw [if_pos hfits] at hrun
      exact htext _ hrun ⟨rfl, hfits⟩
    · -- What does not fit is refused before any file is touched.
      rw [if_neg hfits] at hrun
      rw [hrun]
      exact ⟨fun h => absurd (show -ENOMEM = 0 from h) (by decide), fun _ => rfl⟩
  | schedule sched =>
    refine ⟨fun h => ?_, fun h => ?_⟩
    · obtain ⟨tail, htail, hfile⟩ := save_schedule_file h
      exact ⟨_, hfile, tail, htail, rfl⟩
    · have hle := save_schedule_le (b := b) sched d
      have hneg : (eink_store_save_schedule b sched d).1 < 0 := lt_of_le_of_ne hle h
      exact save_schedule_neg b hneg

/-- A save leaves all other files alone, but for its temporary file. -/
theorem save_elsewhere {s : Save} {c : Cell} (hc : cell_of s = some c) {p : Path} (hp : p ≠ c.path b)
    (hp' : p ≠ c.path b ++ ascii ".tmp") (d : Disk Path) : (s.run b d).2.files p = d.files p := by
  have htext (json : Bytes) : (save_text (c.path b) json d).2.files p = d.files p := by
    have htouches := touches_save_text (W := fun q => q = c.path b ∨ q = c.path b ++ ascii ".tmp") (.inr rfl) (.inl rfl)
    exact (htouches json d).1 p fun h => h.elim hp hp'
  cases s with
  | image image_id es6f => cases hc
  | last_sync unix_sec =>
    cases hc
    exact htext _
  | state last_job_id =>
    cases hc
    exact htext _
  | location json =>
    cases hc
    exact htext _
  | http_creds api_base device_id auth_token =>
    cases hc
    change (eink_store_save_http_creds b api_base device_id auth_token d).2.files p = d.files p
    unfold eink_store_save_http_creds
    cases creds_json api_base.val device_id.val auth_token.val with
    | error e => rfl
    | ok json => exact htext json
  | schedule sched =>
    cases hc
    have htouches := touches_save_schedule (b := b)
      (W := fun q => q = path_sched b ∨ q = path_sched b ++ ascii ".tmp") (.inr rfl) (.inl rfl)
    exact (htouches sched d).1 p fun h => h.elim hp hp'

/-! ## Any run -/

variable (b) in
/-- Every file is what the last save of it that reported success has left there, or missing. -/
def HoldsLast (s : Logged) : Prop :=
  ∀ c : Cell, match last_save c s.2 with
    | none => s.1 (c.path b) = none
    | some save => ∃ text, s.1 (c.path b) = some text ∧ Leaves save text

theorem last_save_append (c : Cell) (saves : List Save) (s : Option Save) :
    last_save c (saves ++ s.toList) = match s with
      | none => last_save c saves
      | some s => if cell_of s = some c then some s else last_save c saves := by
  cases s with
  | none => rw [Option.toList_none, List.append_nil]
  | some s =>
    rw [Option.toList_some, last_save, last_save, List.filter_append]
    by_cases hc : cell_of s = some c
    · simp [hc]
    · simp [hc]

theorem metadata_of_cell (c : Cell) : c.path b ∈ metadata_files b := by
  unfold metadata_files
  apply List.mem_flatMap.2
  refine ⟨c.path b, ?_, by simp⟩
  cases c with
  | last_sync => exact List.mem_of_getElem? (i := 2) rfl
  | http_creds => exact List.mem_of_getElem? (i := 3) rfl
  | state => exact List.mem_of_getElem? (i := 0) rfl
  | schedule => exact List.mem_of_getElem? (i := 1) rfl
  | location => exact List.mem_of_getElem? (i := 4) rfl

/-- What is no save is at the images, whose files are others. -/
theorem other_elsewhere {ev : StoreEvent} (h : ev.op.save = none) (files : Path → Option Bytes) (c : Cell) :
    store_step b files ev (c.path b) = files (c.path b) := by
  refine (touches_store_op b ev.op ⟨files, ev.faults⟩).1 _ fun hmem => ?_
  obtain ⟨op, faults⟩ := ev
  have hmeta := metadata_of_cell (b := b) c
  cases op with
  | image image_id op => exact metadata_off_images hmem hmeta
  | materialize_es6f lib path out_cap =>
    have hpaint : paint_path b ∈ image_files b (ascii ".paint") := paint_mem_image_files.2 rfl
    rw [StoreOp.writes, List.mem_singleton] at hmem
    exact metadata_off_images (hmem ▸ hpaint) hmeta
  | save_last_sync unix_sec => cases h
  | save_http_creds api_base device_id auth_token => cases h
  | save_state last_job_id => cases h
  | save_schedule sched => cases h
  | save_location json => cases h

theorem store_step_save {ev : StoreEvent} {s : Save} (h : ev.op.save = some s) (files : Path → Option Bytes) :
    store_step b files ev = (s.run b ⟨files, ev.faults⟩).2.files := by
  obtain ⟨op, faults⟩ := ev
  cases op with
  | image image_id op => cases h
  | materialize_es6f lib path out_cap => cases h
  | _ =>
    cases h
    rfl

theorem cell_of_save {op : StoreOp} {s : Save} (h : op.save = some s) : ∃ c, cell_of s = some c := by
  cases op with
  | image image_id op => cases h
  | materialize_es6f lib path out_cap => cases h
  | _ =>
    cases h
    exact ⟨_, rfl⟩

theorem holdsLast_step (hroot : b.root.val.length ≤ 215) {s : Logged} (ev : StoreEvent) (h : HoldsLast b s) :
    HoldsLast b (logged_step b s ev) := by
  intro c
  have hc := h c
  simp only [logged_step, last_save_append]
  cases hsave : ev.op.save with
  | none =>
    have hnone : ev.reported b s.1 = none := by rw [StoreEvent.reported, hsave, Option.filter_none]
    rw [hnone, other_elsewhere hsave]
    exact hc
  | some save =>
    obtain ⟨c', hc'⟩ := cell_of_save hsave
    rw [store_step_save hsave]
    by_cases hzero : (save.run b ⟨s.1, ev.faults⟩).1 = 0
    · have hreported : ev.reported b s.1 = some save := by simp [StoreEvent.reported, hsave, hzero]
      rw [hreported]
      by_cases heq : c = c'
      · subst heq
        simp only [if_pos hc']
        exact (save_leaves hc' _).1 hzero
      · have hother : cell_of save ≠ some c := fun h => heq (Option.some.inj (h.symm.trans hc'))
        obtain ⟨hne, hne'⟩ := paths_apart hroot heq
        simp only [if_neg hother, save_elsewhere hc' hne hne']
        exact hc
    · have hreported : ev.reported b s.1 = none := by simp [StoreEvent.reported, hsave, hzero]
      rw [hreported]
      have hsame : (save.run b ⟨s.1, ev.faults⟩).2.files (c.path b) = s.1 (c.path b) := by
        by_cases heq : c = c'
        · subst heq
          exact (save_leaves hc' _).2 hzero
        · obtain ⟨hne, hne'⟩ := paths_apart hroot heq
          exact save_elsewhere hc' hne hne' _
      rw [hsame]
      exact hc

theorem last_save_mem {c : Cell} {saves : List Save} {s : Save} (h : last_save c saves = some s) :
    s ∈ saves ∧ cell_of s = some c := by
  have hmem := List.mem_of_getLast? h
  rw [List.mem_filter] at hmem
  exact ⟨hmem.1, of_decide_eq_true hmem.2⟩

/-! ## Starting from the files -/

/-- The numbers fit 64 bits. -/
def InRange : Save → Prop
  | .last_sync unix_sec => -(2 ^ 63) ≤ unix_sec ∧ unix_sec < 2 ^ 63
  | .schedule sched => ∀ j ∈ sched.jobs, -(2 ^ 63) ≤ j.next_run_unix ∧ j.next_run_unix < 2 ^ 63
  | _ => True

/-- The credentials without their control characters. -/
def restored (api_base : CStr 192) (device_id : CStr 64) (auth_token : CStr 256) : Credentials :=
  ⟨true, kept api_base.val ≠ [] && kept device_id.val ≠ [], .copy _ (kept api_base.val), .copy _ (kept device_id.val),
    .copy _ (kept auth_token.val)⟩

theorem val_copy_kept {n : Nat} (s : CStr n) : (CStr.copy n (kept s.val)).val = kept s.val := by
  rw [CStr.val_copy, cstring_of_notMem (zero_notMem_kept s.val)]
  apply List.take_of_length_le
  exact (length_kept_le s.val).trans s.fits

/-- The id of a job comes back up to its first quote. -/
theorem parse_state_text (id : Id) :
    parse_state (((Save.state id).contents).take 255) 64 = id.val.takeWhile (· ≠ 34) := by
  have hid : id.val.length ≤ 63 := id.fits
  have htext : (Save.state id).contents = 123 :: (last_job_key ++ (id.val ++ ascii "\"\x7d\n")) := by
    simp only [Save.contents, List.append_assoc]
    rfl
  have hlen : (Save.state id).contents.length ≤ 255 := by
    have hkey : last_job_key.length = 25 := rfl
    have hend : (ascii "\"\x7d\n").length = 3 := rfl
    rw [htext, List.length_cons, List.length_append, List.length_append]
    omega
  have hzero : 0 ∉ (Save.state id).contents := by
    rw [htext, List.mem_cons, List.mem_append, List.mem_append]
    simp only [not_or]
    exact ⟨by decide, by decide, id.noNul, by decide⟩
  have hfind : strstr (Save.state id).contents last_job_key =
      some (last_job_key ++ (id.val ++ ascii "\"\x7d\n")) := by
    have hskip : ¬ last_job_key <+: 123 :: (last_job_key ++ (id.val ++ ascii "\"\x7d\n")) := by
      rw [show last_job_key = 34 :: ascii "last_displayed_job_id\":\"" from rfl, List.cons_prefix_cons]
      exact fun h => absurd h.1 (by decide)
    rw [htext, strstr_cons_of_ne hskip, strstr_self]
  rw [List.take_of_length_le hlen, parse_state, cstring_of_notMem hzero, hfind]
  dsimp only
  rw [List.drop_left]
  have hquote : (id.val ++ ascii "\"\x7d\n").takeWhile (· ≠ 34) = id.val.takeWhile (· ≠ 34) := by
    induction id.val with
    | nil => rfl
    | cons c cs ih =>
      rw [List.cons_append, List.takeWhile_cons, List.takeWhile_cons, ih]
  rw [hquote]
  apply List.take_of_length_le
  exact ((List.takeWhile_prefix _).length_le).trans hid

theorem load_state_calm (files : Path → Option Bytes) :
    (eink_store_load_state b 64 (.calm files)).1 =
      (0, match files (path_state b) with
        | none => []
        | some text => parse_state (text.take 255) 64) := by
  unfold eink_store_load_state
  rw [if_neg (by decide)]
  cases hf : files (path_state b) with
  | none => simp [fs_stat, hf]
  | some text =>
    simp only [bind_app, fs_stat, hf, Disk.err_calm, Disk.files_calm, Disk.called_calm, read_head_calm hf]
    rfl

/-- What the node has after a start with these files, where the saves have reported success and no call fails. -/
structure ComesBack (b : Build) (files : Path → Option Bytes) (saves : List Save) : Prop where
  last_sync : (eink_store_load_last_sync b (.calm files)).1 = .ok (match last_save .last_sync saves with
    | some (.last_sync unix_sec) => unix_sec
    | _ => 0)
  credentials : ∀ cfg : Credentials, cfg.inited = true →
    (eink_http_load_persisted_credentials b cfg (.calm files)).1 = (0, match last_save .http_creds saves with
      | some (.http_creds api_base device_id auth_token) => restored api_base device_id auth_token
      | _ => cfg)
  last_job : (eink_store_load_state b 64 (.calm files)).1 = (0, match last_save .state saves with
    | some (.state last_job_id) => last_job_id.val.takeWhile (· ≠ 34)
    | _ => [])
  schedule : match last_save .schedule saves with
    | some (.schedule sched) => (eink_store_load_schedule b (.calm files)).1 = .ok sched ↔
        ∀ i j, sched.jobs[i]? = some j → Survives i j
    | _ => (eink_store_load_schedule b (.calm files)).1 = .error (-ENOENT)
  location : files (path_location b) = match last_save .location saves with
    | some (.location json) => some json
    | _ => none

section
variable {files : Path → Option Bytes} {saves : List Save} (h : HoldsLast b (files, saves))
include h

theorem file_missing {c : Cell} (hlast : last_save c saves = none) : files (c.path b) = none := by
  have hfile := h c
  simp only [hlast] at hfile
  exact hfile

theorem file_left {c : Cell} {save : Save} (hlast : last_save c saves = some save) :
    ∃ text, files (c.path b) = some text ∧ Leaves save text := by
  have hfile := h c
  simp only [hlast] at hfile
  exact hfile

theorem last_sync_back (hrange : ∀ save ∈ saves, InRange save) :
    (eink_store_load_last_sync b (.calm files)).1 = .ok (match last_save .last_sync saves with
      | some (.last_sync unix_sec) => unix_sec
      | _ => 0) := by
  rw [load_last_sync_calm]
  cases hlast : last_save .last_sync saves with
  | none =>
    have hnone : files (path_sync_meta b) = none := file_missing h hlast
    rw [hnone]
  | some save =>
    obtain ⟨hmem, hcell⟩ := last_save_mem hlast
    obtain ⟨text, htext, hleaves⟩ := file_left h hlast
    have hsome : files (path_sync_meta b) = some text := htext
    cases save with
    | last_sync unix_sec =>
      obtain ⟨h0, h1⟩ := hrange _ hmem
      rw [hsome, show text = last_sync_text unix_sec from hleaves]
      exact congrArg Except.ok (parse_last_sync_text h0 h1)
    | _ => cases hcell

theorem credentials_back {cfg : Credentials} (hinited : cfg.inited = true) :
    (eink_http_load_persisted_credentials b cfg (.calm files)).1 = (0, match last_save .http_creds saves with
      | some (.http_creds api_base device_id auth_token) => restored api_base device_id auth_token
      | _ => cfg) := by
  unfold eink_http_load_persisted_credentials
  rw [hinited, Bool.not_true, if_neg Bool.false_ne_true, bind_app]
  cases hlast : last_save .http_creds saves with
  | none =>
    have hnone : files (path_http_creds b) = none := file_missing h hlast
    have hload : (eink_store_load_http_creds b 192 64 256 (.calm files)).1 = .error (-ENOENT) := by
      unfold eink_store_load_http_creds
      rw [if_neg (by decide), bind_app]
      simp [fs_stat, hnone]
    rw [hload]
    rfl
  | some save =>
    obtain ⟨hmem, hcell⟩ := last_save_mem hlast
    obtain ⟨text, htext, hleaves⟩ := file_left h hlast
    cases save with
    | http_creds api_base device_id auth_token =>
      obtain ⟨rfl, hfits⟩ := hleaves
      have hzero := zero_notMem_creds_text (zero_notMem_kept api_base.val) (zero_notMem_kept device_id.val)
        (zero_notMem_kept auth_token.val)
      have hload := load_http_creds_calm b htext (by simp [Save.contents, creds_text]) (by omega) hzero
        (show ¬ (192 = 0 ∨ 64 = 0 ∨ 256 = 0) by decide)
      have h1 := (length_kept_le api_base.val).trans api_base.fits
      have h2 := (length_kept_le device_id.val).trans device_id.fits
      have h3 := (length_kept_le auth_token.val).trans auth_token.fits
      rw [hload, show parse_http_creds (Save.http_creds api_base device_id auth_token).contents 192 64 256 = _ from
        parse_creds_text (by omega) (by omega) (by omega)]
      simp only [pure_app, val_copy_kept]
      rfl
    | _ => cases hcell

theorem last_job_back : (eink_store_load_state b 64 (.calm files)).1 = (0, match last_save .state saves with
    | some (.state last_job_id) => last_job_id.val.takeWhile (· ≠ 34)
    | _ => []) := by
  rw [load_state_calm]
  cases hlast : last_save .state saves with
  | none =>
    have hnone : files (path_state b) = none := file_missing h hlast
    rw [hnone]
  | some save =>
    obtain ⟨hmem, hcell⟩ := last_save_mem hlast
    obtain ⟨text, htext, hleaves⟩ := file_left h hlast
    have hsome : files (path_state b) = some text := htext
    cases save with
    | state last_job_id =>
      rw [hsome, show text = (Save.state last_job_id).contents from hleaves]
      exact congrArg (Prod.mk 0) (parse_state_text last_job_id)
    | _ => cases hcell

theorem schedule_back (hrange : ∀ save ∈ saves, InRange save) : match last_save .schedule saves with
    | some (.schedule sched) => (eink_store_load_schedule b (.calm files)).1 = .ok sched ↔
        ∀ i j, sched.jobs[i]? = some j → Survives i j
    | _ => (eink_store_load_schedule b (.calm files)).1 = .error (-ENOENT) := by
  cases hlast : last_save .schedule saves with
  | none =>
    have hnone : files (path_sched b) = none := file_missing h hlast
    dsimp only
    rw [eink_store_load_schedule, bind_app]
    simp [read_head, fs_open, hnone, show (0 : Int) < ENOENT by decide]
  | some save =>
    obtain ⟨hmem, hcell⟩ := last_save_mem hlast
    obtain ⟨text, htext, hleaves⟩ := file_left h hlast
    cases save with
    | schedule sched =>
      obtain ⟨tail, htail, rfl⟩ := hleaves
      dsimp only
      rw [load_schedule_calm htext]
      exact parse_schedule_iff htail (hrange _ hmem)
    | _ => cases hcell

theorem location_back : files (path_location b) = match last_save .location saves with
    | some (.location json) => some json
    | _ => none := by
  cases hlast : last_save .location saves with
  | none => exact file_missing h hlast
  | some save =>
    obtain ⟨hmem, hcell⟩ := last_save_mem hlast
    obtain ⟨text, htext, hleaves⟩ := file_left h hlast
    cases save with
    | location json =>
      obtain rfl := hleaves
      exact htext
    | _ => cases hcell

end

end

/-- A job is saved, and the power is lost while the next one is. -/
def cutOff : List StoreEvent :=
  [⟨.save_state (.copy _ (ascii "a")), fun _ _ => []⟩,
    ⟨.save_state (.copy _ (ascii "b")), fun c _ => if c = .fs_sync then [.error 4 0] else []⟩]

end EinkNode.Http
