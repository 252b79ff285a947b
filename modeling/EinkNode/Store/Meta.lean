import EinkNode.Lib.Decimal
import EinkNode.Scheduler.Core
import EinkNode.Store.Images
/-!
# The small files of the store

Next to the images the store keeps the time of the last sync, the job that was
last displayed and the schedule, each in a file of its own that is written
under another name first and then renamed.
-/
open NodeLib EinkNode.Scheduler

namespace EinkNode.Store

variable (b : Build)

def path_state : Path := snprintf 300 (b.root.val ++ ascii "/state.json")

def path_sched : Path := snprintf 300 (b.root.val ++ ascii "/schedule.json")

def path_sync_meta : Path := snprintf 300 (b.root.val ++ ascii "/sync_meta.json")

/-! ## Writing -/

/-- Put `tmp` in the place of `path`, unless writing it ended in an error `ret`. -/
def finish_file (tmp path : Path) (ret : Int) : FS Int := do
  if ret < 0 then
    let _ ← fs_unlink tmp
    pure ret
  else
    let ret ← fs_rename tmp path
    if ret < 0 then
      let _ ← fs_unlink tmp
      pure ret
    else pure 0

/-- Write the one text of a file and sync it. -/
def write_synced (tmp : Path) (json : Bytes) : FS Int := do
  let ret ← fs_write tmp 0 json
  if ret ≠ json.length then pure (if ret < 0 then ret else -EIOERR) else fs_sync tmp

def save_text (path : Path) (json : Bytes) : FS Int := do
  let tmp := path ++ ascii ".tmp"
  let ret ← fs_open tmp true true
  if ret < 0 then pure ret
  else
    let ret ← write_synced tmp json
    finish_file tmp path ret

def last_sync_text (unix_sec : Int) : Bytes :=
  ascii "\x7b\"last_sync_unix\":" ++ (decimalInt unix_sec ++ ascii "\x7d\n")

def eink_store_save_last_sync (unix_sec : Int) : FS Int := save_text (path_sync_meta b) (last_sync_text unix_sec)

def eink_store_save_state (last_job_id : Id) : FS Int :=
  save_text (path_state b) (ascii "\x7b\"last_displayed_job_id\":\"" ++ last_job_id.val ++ ascii "\"\x7d\n")

/-- The text of one job; the first has no comma in front. -/
def schedule_entry (i : Nat) (j : Job) : Bytes :=
  (if i = 0 then [] else ascii ",") ++ ascii "\x7b\"job_id\":\"" ++ j.job_id.val ++ ascii "\",\"image_id\":\"" ++
    j.image_id.val ++ ascii "\",\"cron\":\"" ++ j.cron.val ++ ascii "\",\"next_run\":" ++
    decimalInt j.next_run_unix ++ ascii "\x7d"

/-- The texts one after the other, up to the first that does not fit `char[384]` or is not written whole. -/
def write_entries (tmp : Path) (off : Nat) : List Bytes → FS (Except Int Nat)
  | [] => pure (.ok off)
  | entry :: entries => do
    if entry.length ≥ 384 then pure (.error (-ENOMEM))
    else
      let ret ← fs_write tmp off entry
      if ret ≠ entry.length then pure (.error (if ret < 0 then ret else -EIOERR))
      else write_entries tmp (off + entry.length) entries

/-- The end of the array. A short write of it is no error here. -/
def write_end (tmp : Path) (off : Nat) : FS Int := do
  let ret ← fs_write tmp off (ascii "]\x7d\n")
  if ret = 3 then fs_sync tmp else pure ret

def eink_store_save_schedule (sched : Schedule) : FS Int := do
  let path := path_sched b
  let tmp := path ++ ascii ".tmp"
  let ret ← fs_open tmp true true
  if ret < 0 then pure ret
  else
    match ← write_entries tmp 0 (ascii "\x7b\"jobs\":[" :: sched.jobs.mapIdx schedule_entry) with
    | .error e => finish_file tmp path e
    | .ok off =>
      let ret ← write_end tmp off
      finish_file tmp path ret

/-! ## Reading the time of the last sync -/

def last_sync_key : Bytes := ascii "\"last_sync_unix\":"

/-- The number behind the key, or 0. -/
def parse_last_sync (line : Bytes) : Int :=
  match strstr (cstring line) last_sync_key with
  | none => 0
  | some p => strtoll (p.drop last_sync_key.length)

def eink_store_load_last_sync : FS (Except Int Int) := do
  match ← fs_stat (path_sync_meta b) with
  | .error e => pure (if e = -ENOENT then .ok 0 else .error e)
  | .ok _ =>
    match ← read_head (path_sync_meta b) 95 with
    | .error e => pure (.error e)
    | .ok line => pure (.ok (parse_last_sync line))

/-! ## Reading the schedule -/

/-- The quoted text behind a key, cut to an array of `cap` bytes. -/
def quoted_after (objbuf key : Bytes) (cap : Nat) : Bytes :=
  match (strstr objbuf key).bind fun k => strchr (k.drop key.length) 34 with
  | none => []
  | some q => ((q.drop 1).takeWhile (· ≠ 34)).take (cap - 1)

def number_after (objbuf key : Bytes) : Int :=
  match (strstr objbuf key).bind fun k => strchr (k.drop key.length) 58 with
  | none => 0
  | some k => strtoll (k.drop 1)

/-- One object of the array. -/
def parse_job (objbuf : Bytes) : Except Int Job :=
  let job_id := quoted_after objbuf (ascii "\"job_id\"") EINK_ID_MAX
  let image_id := quoted_after objbuf (ascii "\"image_id\"") EINK_ID_MAX
  if job_id = [] ∨ image_id = [] then .error (-EINVAL)
  else
    .ok
      { job_id := .copy _ job_id, image_id := .copy _ image_id
        cron := .copy _ (quoted_after objbuf (ascii "\"cron\"") EINK_CRON_MAX)
        next_run_unix := number_after objbuf (ascii "\"next_run\"") }

/-- Between the objects. -/
def isFiller (c : UInt8) : Bool := c == 32 || c == 10 || c == 13 || c == 44

/-- The loop over the array. Every turn takes at least one byte, so a turn for each byte is enough. -/
def parse_jobs : Nat → List Job → Bytes → Except Int (List Job)
  | 0, jobs, _ => .ok jobs
  | turns + 1, jobs, p =>
    if p = [] ∨ jobs.length ≥ EINK_MAX_JOBS then .ok jobs
    else
      match p.dropWhile isFiller with
      | [] => .error (-EINVAL)
      | c :: obj =>
        if c = 93 then .ok jobs
        else if c ≠ 123 then .error (-EINVAL)
        else
          match strchr obj 125 with
          | none => .error (-EINVAL)
          | some tail =>
            let objbuf := (c :: obj).take (obj.length - tail.length + 2)
            if objbuf.length ≥ 384 then .error (-ENOMEM)
            else
              match parse_job objbuf with
              | .error e => .error e
              | .ok j => parse_jobs turns (jobs ++ [j]) (tail.drop 1)

def parse_schedule (buf : Bytes) : Except Int Schedule :=
  match (strstr (cstring buf) (ascii "\"jobs\"")).bind fun p => strchr p 91 with
  | none => .error (-EINVAL)
  | some p =>
    match parse_jobs (p.length - 1) [] (p.drop 1) with
    | .error e => .error e
    | .ok jobs => .ok (.take jobs)

def eink_store_load_schedule : FS (Except Int Schedule) := do
  match ← read_head (path_sched b) 8191 with
  | .error e => pure (.error e)
  | .ok buf => pure (parse_schedule buf)

/-! ## What saving writes to -/

section
variable {W : Path → Prop} {tmp path : Path}

theorem touches_finish_file (ht : W tmp) (hp : W path) (ret : Int) : Keeps (Touches W) (finish_file tmp path ret) := by
  have hgone (ret : Int) : Keeps (Touches W) (do let _ ← fs_unlink tmp; pure ret : FS Int) :=
    keeps_bind (touches_fs_unlink ht) fun _ => keeps_pure _
  refine keeps_ite (hgone ret) (keeps_bind (touches_fs_rename ht hp) fun ret => ?_)
  exact keeps_ite (hgone ret) (keeps_pure _)

theorem touches_save_text (ht : W (path ++ ascii ".tmp")) (hp : W path) (json : Bytes) :
    Keeps (Touches W) (save_text path json) := by
  refine keeps_bind (touches_fs_open ht true true) fun ret => keeps_ite (keeps_pure _) ?_
  refine keeps_bind ?_ fun ret => touches_finish_file ht hp ret
  exact keeps_bind (touches_fs_write ht 0 json) fun ret => keeps_ite (keeps_pure _) touches_fs_sync

variable {b}

theorem touches_save_schedule (ht : W (path_sched b ++ ascii ".tmp")) (hp : W (path_sched b)) (sched : Schedule) :
    Keeps (Touches W) (eink_store_save_schedule b sched) := by
  have hentries (entries : List Bytes) (off : Nat) :
      Keeps (Touches W) (write_entries (path_sched b ++ ascii ".tmp") off entries) := by
    induction entries generalizing off with
    | nil => exact keeps_pure _
    | cons entry entries ih =>
      refine keeps_ite (keeps_pure _) (keeps_bind (touches_fs_write ht off entry) fun ret => ?_)
      exact keeps_ite (keeps_pure _) (ih _)
  refine keeps_bind (touches_fs_open ht true true) fun ret => keeps_ite (keeps_pure _) ?_
  refine keeps_bind (hentries _ _) ?_
  rintro (e | off)
  · exact touches_finish_file ht hp e
  · refine keeps_bind ?_ fun ret => touches_finish_file ht hp ret
    exact keeps_bind (touches_fs_write ht off _) fun ret => keeps_ite touches_fs_sync (keeps_pure _)

theorem touches_load_last_sync : Keeps (Touches W) (eink_store_load_last_sync b) := by
  refine keeps_bind touches_fs_stat ?_
  rintro (e | size)
  · exact keeps_pure _
  · refine keeps_bind (keeps_read_head touches_fs_open_read touches_fs_read 95) ?_
    rintro (e | line)
    · exact keeps_pure _
    · exact keeps_pure _

theorem touches_load_schedule : Keeps (Touches W) (eink_store_load_schedule b) := by
  refine keeps_bind (keeps_read_head touches_fs_open_read touches_fs_read 8191) ?_
  rintro (e | buf)
  · exact keeps_pure _
  · exact keeps_pure _

end

-- One job, as it is saved.
example : (parse_schedule (ascii "\x7b\"jobs\":[" ++ schedule_entry 0 ⟨.copy _ (ascii "j"), .copy _ (ascii "a"),
    .copy _ (ascii "0 8 * * *"), 17⟩ ++ ascii "]\x7d\n")).toOption.map (·.jobs.map (·.next_run_unix)) = some [17] := by
  decide +kernel

/-! ## Reading back what was saved -/

/-- Saving on a disk where no call fails. -/
theorem save_text_calm (path : Path) (json : Bytes) (files : Path → Option Bytes) :
    ∃ files', save_text path json (.calm files) = (0, .calm files') ∧ files' path = some json := by
  have hne := (ne_append_tmp path).symm
  generalize htmp : path ++ ascii ".tmp" = tmp at hne
  let written : Path → Option Bytes := fun q => if q = tmp then some json else if q = tmp then some [] else files q
  have hw : write_synced tmp json (.calm fun q => if q = tmp then some [] else files q) = (0, .calm written) := by
    simp [write_synced, fs_write_calm, fs_sync, overwrite, written]
  refine ⟨fun q => if q = tmp then none else if q = path then some json else written q, ?_, by simp [Ne.symm hne]⟩
  simp only [save_text, htmp, bind_app, fs_open_calm, Int.lt_irrefl, if_false, hw, finish_file]
  rw [fs_rename_calm (b := json) (by simp [written]) hne]
  rfl

theorem parse_last_sync_text {t : Int} (h0 : -(2 ^ 63) ≤ t) (h1 : t < 2 ^ 63) :
    parse_last_sync ((last_sync_text t).take 95) = t := by
  have hlen : (last_sync_text t).length ≤ 95 := by
    have := length_decimalInt_le h0 h1
    have h18 : (ascii "\x7b\"last_sync_unix\":").length = 18 := rfl
    have h2 : (ascii "\x7d\n").length = 2 := rfl
    simp only [last_sync_text, List.length_append, h18, h2]
    omega
  have hzero : (0 : UInt8) ∉ last_sync_text t := by
    simp only [last_sync_text, List.mem_append, not_or]
    exact ⟨by decide, zero_notMem_decimalInt t, by decide⟩
  have htext : last_sync_text t = 123 :: (last_sync_key ++ (decimalInt t ++ ascii "\x7d\n")) := rfl
  have hfind : strstr (last_sync_text t) last_sync_key = some (last_sync_key ++ (decimalInt t ++ ascii "\x7d\n")) := by
    rw [htext, strstr, if_neg (by simp [last_sync_key, ascii]), strstr_self]
  rw [List.take_of_length_le hlen, parse_last_sync, cstring_of_notMem hzero, hfind]
  dsimp only
  rw [List.drop_left]
  exact strtoll_decimalInt h0 h1 (by decide +kernel)

/-- What is loaded when no call fails. -/
theorem load_last_sync_calm (files : Path → Option Bytes) :
    eink_store_load_last_sync b (.calm files) =
      (.ok (match files (path_sync_meta b) with
        | none => 0
        | some bs => parse_last_sync (bs.take 95)), .calm files) := by
  unfold eink_store_load_last_sync
  cases hf : files (path_sync_meta b) with
  | none => simp [fs_stat, hf]
  | some bs =>
    simp only [bind_app, fs_stat, hf, Disk.err_calm, Disk.files_calm, Disk.called_calm, read_head_calm hf]
    rfl

/-- The time that was saved is the time that is loaded. -/
theorem load_last_sync_saved {t : Int} (h0 : -(2 ^ 63) ≤ t) (h1 : t < 2 ^ 63) (files : Path → Option Bytes) :
    ∃ files', eink_store_save_last_sync b t (.calm files) = (0, .calm files') ∧
      eink_store_load_last_sync b (.calm files') = (.ok t, .calm files') := by
  obtain ⟨files', hsave, hfile⟩ := save_text_calm (path_sync_meta b) (last_sync_text t) files
  refine ⟨files', hsave, ?_⟩
  rw [load_last_sync_calm, hfile]
  dsimp only
  rw [parse_last_sync_text h0 h1]

end EinkNode.Store
