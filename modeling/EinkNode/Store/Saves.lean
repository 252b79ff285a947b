import EinkNode.Store.Creds
/-!
# Files that are replaced as a whole

Six operations write a file under another name and rename it. The old contents
stay until the rename, so a failure leaves them alone. Five of the six check
each write; the schedule is written in pieces, and a short write of its last
piece is neither an error nor the end.
-/
open NodeLib EinkNode.Scheduler

namespace EinkNode.Store

variable (b : Build)

def path_location : Path := snprintf 300 (b.root.val ++ ascii "/location.json")

/-- `write_file_atomic` of `eink_location.c`, which takes the same steps as the savers of the store. -/
def write_file_atomic (path json : Bytes) : FS Int := save_text path json

/-- An operation that replaces a file. -/
inductive Save where
  | last_sync (unix_sec : Int)
  | http_creds (api_base : CStr 192) (device_id : CStr 64) (auth_token : CStr 256)
  | state (last_job_id : Id)
  | schedule (sched : Schedule)
  | image (image_id es6f : Bytes)
  | location (json : Bytes)

def schedule_head : Bytes := ascii "\x7b\"jobs\":["

/-- What is written before the end of the array, piece by piece. -/
def schedule_pieces (sched : Schedule) : List Bytes := schedule_head :: sched.jobs.mapIdx schedule_entry

namespace Save

def run : Save → FS Int
  | last_sync unix_sec => eink_store_save_last_sync b unix_sec
  | http_creds api_base device_id auth_token => eink_store_save_http_creds b api_base device_id auth_token
  | state last_job_id => eink_store_save_state b last_job_id
  | schedule sched => eink_store_save_schedule b sched
  | image image_id es6f => eink_store_put_image b image_id es6f
  | location json => write_file_atomic (path_location b) json

/-- The file that is replaced. -/
def target : Save → Path
  | last_sync _ => path_sync_meta b
  | http_creds _ _ _ => path_http_creds b
  | state _ => path_state b
  | schedule _ => path_sched b
  | image image_id _ => eink_store_image_path b image_id
  | location _ => path_location b

/-- The complete new contents. -/
def contents : Save → Bytes
  | last_sync unix_sec => last_sync_text unix_sec
  | http_creds api_base device_id auth_token =>
    creds_text (kept api_base.val) (kept device_id.val) (kept auth_token.val)
  | state last_job_id => ascii "\x7b\"last_displayed_job_id\":\"" ++ last_job_id.val ++ ascii "\"\x7d\n"
  | schedule sched => (schedule_pieces sched).flatten ++ ascii "]\x7d\n"
  | image _ es6f => es6f
  | location json => json

/-- After 0 the file holds the new contents, after an error what it held before. -/
def Atomic (op : Save) (d : Disk Path) : Prop :=
  ((op.run b d).1 = 0 → (op.run b d).2.files (op.target b) = some op.contents) ∧
    ((op.run b d).1 < 0 → (op.run b d).2.files (op.target b) = d.files (op.target b))

end Save

/-! ## An error leaves the file alone -/

section
variable {tmp path : Path} (hne : path ≠ tmp)
include hne

theorem finish_file_neg {ret : Int} {d : Disk Path} (h : (finish_file tmp path ret d).1 < 0) :
    (finish_file tmp path ret d).2.files path = d.files path := by
  unfold finish_file at h ⊢
  by_cases hret : ret < 0
  · rw [if_pos hret, bind_app]
    exact (sameAt_fs_unlink hne d).1
  · rw [if_neg hret, bind_app] at h ⊢
    by_cases hren : (fs_rename tmp path d).1 < 0
    · rw [if_pos hren, bind_app]
      exact ((sameAt_fs_unlink hne _).1).trans (congrFun (fs_rename_files_of_neg hren) path)
    · rw [if_neg hren] at h
      exact absurd h (Int.lt_irrefl 0)

theorem sameAt_write_synced (json : Bytes) : Keeps (SameAt path) (write_synced tmp json) :=
  keeps_bind (sameAt_fs_write hne 0 json) fun _ => keeps_ite (keeps_pure _) fun d => sameAt_called hne d _

theorem sameAt_write_entries (off : Nat) (es : List Bytes) : Keeps (SameAt path) (write_entries tmp off es) := by
  induction es generalizing off with
  | nil => exact keeps_pure _
  | cons entry es ih =>
    refine keeps_ite (keeps_pure _) (keeps_bind (sameAt_fs_write hne off entry) fun ret => ?_)
    exact keeps_ite (keeps_pure _) (ih _)

theorem sameAt_write_end (off : Nat) : Keeps (SameAt path) (write_end tmp off) :=
  keeps_bind (sameAt_fs_write hne off _) fun _ => keeps_ite (fun d => sameAt_called hne d _) (keeps_pure _)

end

theorem save_text_neg {path json : Bytes} {d : Disk Path} (h : (save_text path json d).1 < 0) :
    (save_text path json d).2.files path = d.files path := by
  have hne := ne_append_tmp path
  unfold save_text at h ⊢
  rw [bind_app] at h ⊢
  have hopen := (sameAt_fs_open hne true true d).1
  by_cases hret : (fs_open (path ++ ascii ".tmp") true true d).1 < 0
  · rw [if_pos hret]
    exact hopen
  · rw [if_neg hret, bind_app] at h ⊢
    exact (finish_file_neg hne h).trans ((sameAt_write_synced hne json _).1.trans hopen)

theorem save_schedule_neg {sched : Schedule} {d : Disk Path} (h : (eink_store_save_schedule b sched d).1 < 0) :
    (eink_store_save_schedule b sched d).2.files (path_sched b) = d.files (path_sched b) := by
  have hne := ne_append_tmp (path_sched b)
  unfold eink_store_save_schedule at h ⊢
  rw [bind_app] at h ⊢
  have hopen := (sameAt_fs_open hne true true d).1
  by_cases hret : (fs_open (path_sched b ++ ascii ".tmp") true true d).1 < 0
  · rw [if_pos hret]
    exact hopen
  · rw [if_neg hret, bind_app] at h ⊢
    have hentries := (sameAt_write_entries hne 0 (ascii "\x7b\"jobs\":[" :: sched.jobs.mapIdx schedule_entry)
      (fs_open (path_sched b ++ ascii ".tmp") true true d).2).1
    cases hes : (write_entries (path_sched b ++ ascii ".tmp") 0
        (ascii "\x7b\"jobs\":[" :: sched.jobs.mapIdx schedule_entry)
          (fs_open (path_sched b ++ ascii ".tmp") true true d).2).1 with
    | error e =>
      rw [hes] at h
      exact (finish_file_neg hne h).trans (hentries.trans hopen)
    | ok off =>
      rw [hes] at h
      dsimp only at h ⊢
      rw [bind_app] at h ⊢
      exact (finish_file_neg hne h).trans ((sameAt_write_end hne off _).1.trans (hentries.trans hopen))

/-! ## The pieces of the schedule -/

/-- The next writes take these pieces whole. -/
def WritesWhole : List Fault → List Bytes → Prop
  | _, [] => True
  | q, piece :: pieces =>
    (q.headD .ok).err = none ∧ (q.headD .ok).moved piece.length = piece.length ∧ WritesWhole q.tail pieces

/-- The write of the end of the array is cut short, after all has gone well, and before all goes well. -/
structure EndCut (sched : Schedule) (d : Disk Path) : Prop where
  opened : d.err .fs_open (path_sched b ++ ascii ".tmp") = none
  fits : ∀ piece ∈ schedule_pieces sched, piece.length < 384
  whole : WritesWhole (d.faults .fs_write (path_sched b ++ ascii ".tmp")) (schedule_pieces sched)
  cut : ∃ n < 3, ((d.faults .fs_write (path_sched b ++ ascii ".tmp")).drop (schedule_pieces sched).length).headD .ok =
    .short n
  renamed : d.err .fs_rename (path_sched b ++ ascii ".tmp") = none

section
variable {tmp : Path}

theorem fs_write_whole_iff (off : Nat) (data : Bytes) (d : Disk Path) :
    (fs_write tmp off data d).1 = data.length ↔
      (d.outcome .fs_write tmp).err = none ∧ (d.outcome .fs_write tmp).moved data.length = data.length := by
  constructor
  · intro hall
    obtain ⟨herr, hmoved⟩ := fs_write_nonneg (show 0 ≤ (fs_write tmp off data d).1 by omega)
    exact ⟨herr, by omega⟩
  · rintro ⟨herr, hmoved⟩
    have heq : (fs_write tmp off data d).1 =
        (d.outcome .fs_write tmp).err.getD ((d.outcome .fs_write tmp).moved data.length) := rfl
    rw [heq, herr, Option.getD_none, hmoved]

theorem fs_write_queue (off : Nat) (data : Bytes) (d : Disk Path) :
    (fs_write tmp off data d).2.faults .fs_write tmp = (d.faults .fs_write tmp).tail := by
  unfold fs_write
  simp

/-- When the loop over the pieces goes through. -/
theorem write_entries_iff {es : List Bytes} {off : Nat} {d : Disk Path} :
    (∃ off', (write_entries tmp off es d).1 = .ok off') ↔
      (∀ entry ∈ es, entry.length < 384) ∧ WritesWhole (d.faults .fs_write tmp) es := by
  induction es generalizing off d with
  | nil => simp [write_entries, WritesWhole]
  | cons entry es ih =>
    rw [write_entries, WritesWhole, ← fs_write_queue off entry d]
    have hwhole : (fs_write tmp off entry d).1 = entry.length ↔ _ := fs_write_whole_iff off entry d
    by_cases hlong : entry.length ≥ 384
    · rw [if_pos hlong]
      constructor
      · rintro ⟨off', h⟩
        cases h
      · intro h
        exact absurd (h.1 entry (List.mem_cons_self ..)) (by omega)
    · rw [if_neg hlong, bind_app]
      by_cases hret : (fs_write tmp off entry d).1 = entry.length
      · rw [if_neg (not_not.2 hret), ih]
        have hhead := hwhole.1 hret
        simp only [List.forall_mem_cons]
        constructor
        · rintro ⟨hfits, hrest⟩
          exact ⟨⟨by omega, hfits⟩, hhead.1, hhead.2, hrest⟩
        · rintro ⟨⟨-, hfits⟩, -, -, hrest⟩
          exact ⟨hfits, hrest⟩
      · rw [if_pos hret]
        constructor
        · rintro ⟨off', h⟩
          cases h
        · rintro ⟨-, herr, hmoved, -⟩
          exact absurd (hwhole.2 ⟨herr, hmoved⟩) hret

theorem sameQueue_write_entries {c : Call} (hc : c ≠ .fs_write) (off : Nat) (es : List Bytes) :
    Keeps (SameQueue c) (write_entries tmp off es) := by
  induction es generalizing off with
  | nil => exact keeps_pure _
  | cons entry es ih =>
    refine keeps_ite (keeps_pure _) (keeps_bind (sameQueue_fs_write hc off entry) fun ret => ?_)
    exact keeps_ite (keeps_pure _) (ih _)

/-- Each piece has taken one outcome. -/
theorem write_entries_queue {es : List Bytes} {off off' : Nat} {d : Disk Path}
    (h : (write_entries tmp off es d).1 = .ok off') :
    (write_entries tmp off es d).2.faults .fs_write tmp = (d.faults .fs_write tmp).drop es.length := by
  induction es generalizing off d with
  | nil => rfl
  | cons entry es ih =>
    rw [write_entries] at h ⊢
    split at h
    · cases h
    · next hshort =>
      rw [if_neg hshort]
      rw [bind_app] at h ⊢
      split at h
      · cases h
      · next hwhole =>
        rw [if_neg hwhole, ih h, fs_write_queue, List.length_cons, List.drop_tail]

/-- A call that moves less than it should without an error is a short one. -/
theorem short_of_moved {o : Fault} {len : Nat} (herr : o.err = none) (hlt : o.moved len < len) :
    ∃ n < len, o = .short n := by
  cases o with
  | ok => exact absurd hlt (Nat.lt_irrefl len)
  | error e n => cases herr
  | short n =>
    refine ⟨n, ?_, rfl⟩
    rw [Fault.moved] at hlt
    omega

/-- What is in the file when the end of the array has been written. -/
theorem write_end_cases {content : Bytes} {d : Disk Path} (hfile : d.files tmp = some content)
    (h : 0 ≤ (write_end tmp content.length d).1) :
    (write_end tmp content.length d).2.files tmp = some (content ++ ascii "]\x7d\n") ∨
      ∃ n < 3, d.outcome .fs_write tmp = .short n := by
  unfold write_end at h ⊢
  rw [bind_app] at h ⊢
  by_cases hall : (fs_write tmp content.length (ascii "]\x7d\n") d).1 = 3
  · rw [if_pos hall]
    obtain ⟨n, -, hn, hwritten⟩ := fs_write_at_end (ascii "]\x7d\n") hfile (by omega)
    obtain rfl : n = 3 := by omega
    exact .inl hwritten
  · -- Neither an error nor all three bytes.
    rw [if_neg hall] at h
    obtain ⟨herr, hmoved⟩ := fs_write_nonneg h
    have hlen : (ascii "]\x7d\n").length = 3 := rfl
    have hle := Fault.moved_le (d.outcome .fs_write tmp) 3
    rw [hlen] at hmoved
    exact .inr (short_of_moved herr (by omega))

/-- A short write of the end goes unnoticed. -/
theorem write_end_short {content : Bytes} {d : Disk Path} (hfile : d.files tmp = some content) {n : Nat} (hn : n < 3)
    (hcut : d.outcome .fs_write tmp = .short n) :
    (write_end tmp content.length d).1 = n ∧
      (write_end tmp content.length d).2.files tmp = some (content ++ (ascii "]\x7d\n").take n) := by
  have hret : (fs_write tmp content.length (ascii "]\x7d\n") d).1 = n := by
    have heq : (fs_write tmp content.length (ascii "]\x7d\n") d).1 =
        (d.outcome .fs_write tmp).err.getD ((d.outcome .fs_write tmp).moved 3) := rfl
    rw [heq, hcut]
    simp only [Fault.err, Fault.moved, Option.getD_none, Nat.min_eq_left (Nat.le_of_lt hn)]
  unfold write_end
  rw [bind_app, if_neg (by omega)]
  obtain ⟨m, -, hm, hwritten⟩ := fs_write_at_end (ascii "]\x7d\n") hfile (by omega)
  obtain rfl : m = n := by omega
  exact ⟨hret, hwritten⟩

end

section
variable {tmp path : Path}

theorem finish_file_renamed {ret : Int} {d : Disk Path} (h : (finish_file tmp path ret d).1 = 0) :
    d.err .fs_rename tmp = none := by
  unfold finish_file at h
  by_cases hret : ret < 0
  · rw [if_pos hret] at h
    exact absurd h (Int.ne_of_lt hret)
  · rw [if_neg hret, bind_app] at h
    by_cases hren : (fs_rename tmp path d).1 < 0
    · rw [if_pos hren] at h
      exact absurd h (Int.ne_of_lt hren)
    · rw [fs_rename_fst, not_or] at hren
      simpa using hren.1

theorem finish_file_ok {ret : Int} {d : Disk Path} {content : Bytes} (hne : path ≠ tmp) (hret : 0 ≤ ret)
    (herr : d.err .fs_rename tmp = none) (hfile : d.files tmp = some content) :
    (finish_file tmp path ret d).1 = 0 ∧ (finish_file tmp path ret d).2.files path = some content := by
  have hren : ¬ (fs_rename tmp path d).1 < 0 := by
    rw [fs_rename_fst, herr, hfile]
    simp
  unfold finish_file
  rw [if_neg (Int.not_lt.2 hret), bind_app, if_neg hren]
  exact ⟨rfl, (fs_rename_files hren hne).trans hfile⟩

end

/-! ## When saving is atomic -/

section
variable {b} {sched : Schedule} {d : Disk Path}

/-- Opening and the pieces leave the outcomes for the end and the rename as they were. -/
theorem renames_write_end (tmp : Path) (off : Nat) : Keeps (SameQueue .fs_rename) (write_end tmp off) :=
  keeps_bind (sameQueue_fs_write (by decide) off _) fun _ =>
    keeps_ite (fun d => sameQueue_called (by decide) d tmp) (keeps_pure _)

theorem opened_iff {p : Path} : ¬ (fs_open p true true d).1 < 0 ↔ d.err .fs_open p = none := by
  constructor
  · intro h
    cases he : d.err .fs_open p with
    | none => rfl
    | some e =>
      rw [fs_open_of_err he] at h
      exact absurd (d.err_neg he) h
  · intro h
    rw [(fs_open_create h true).1]
    exact Int.lt_irrefl 0

/-- The schedule that was saved is complete, unless the end was cut. -/
theorem save_schedule_zero (hend : ¬ EndCut b sched d) (h : (eink_store_save_schedule b sched d).1 = 0) :
    (eink_store_save_schedule b sched d).2.files (path_sched b) = some (Save.schedule sched).contents := by
  have hpieces : ascii "\x7b\"jobs\":[" :: sched.jobs.mapIdx schedule_entry = schedule_pieces sched := rfl
  obtain ⟨d2, hopen, hes, hwritten, hsave⟩ := save_schedule_ok h
  have hwrites : SameQueue .fs_write d (fs_open (path_sched b ++ ascii ".tmp") true true d).2 :=
    sameQueue_fs_open (by decide) true true d
  have hrenames : SameQueue .fs_rename d (fs_open (path_sched b ++ ascii ".tmp") true true d).2 :=
    sameQueue_fs_open (by decide) true true d
  rw [hpieces] at hes hwritten hsave
  rw [hsave, bind_app] at h ⊢
  obtain ⟨hret, hfile⟩ := finish_file_zero (ne_append_tmp (path_sched b)) h
  rw [hfile]
  rcases write_end_cases hwritten hret with hdone | ⟨n, hn, hcut⟩
  · exact hdone
  · -- With the end cut short everything else has gone well, which `hend` rules out.
    have hrename := finish_file_renamed h
    have hok := congrArg Prod.fst hes
    obtain rfl : (write_entries (path_sched b ++ ascii ".tmp") 0 (schedule_pieces sched)
        (fs_open (path_sched b ++ ascii ".tmp") true true d).2).2 = d2 := congrArg Prod.snd hes
    obtain ⟨hfits, hwhole⟩ := write_entries_iff.1 ⟨_, hok⟩
    rw [congrFun hwrites] at hwhole
    refine absurd ⟨opened_iff.1 hopen, hfits, hwhole, ⟨n, hn, ?_⟩, ?_⟩ hend
    · rw [Disk.outcome, write_entries_queue hok, congrFun hwrites] at hcut
      exact hcut
    · rw [(renames_write_end _ _ _).err, (sameQueue_write_entries (by decide) _ _ _).err, hrenames.err] at hrename
      exact hrename

/-- A cut end is reported as success. -/
theorem save_schedule_cut (hend : EndCut b sched d) :
    (eink_store_save_schedule b sched d).1 = 0 ∧ ∃ n < 3,
      (eink_store_save_schedule b sched d).2.files (path_sched b) =
        some ((schedule_pieces sched).flatten ++ (ascii "]\x7d\n").take n) := by
  have hne := ne_append_tmp (path_sched b)
  have hopen := opened_iff.2 hend.opened
  have hempty := fs_open_trunc hopen
  have hwrites : SameQueue .fs_write d (fs_open (path_sched b ++ ascii ".tmp") true true d).2 :=
    sameQueue_fs_open (by decide) true true d
  have hrenames : SameQueue .fs_rename d (fs_open (path_sched b ++ ascii ".tmp") true true d).2 :=
    sameQueue_fs_open (by decide) true true d
  unfold eink_store_save_schedule
  rw [bind_app, if_neg hopen, bind_app]
  generalize (fs_open (path_sched b ++ ascii ".tmp") true true d).2 = d1 at hempty hwrites hrenames ⊢
  change Disk Path at d1
  have hpieces : ascii "\x7b\"jobs\":[" :: sched.jobs.mapIdx schedule_entry = schedule_pieces sched := rfl
  obtain ⟨off, hes⟩ :
      ∃ off, (write_entries (path_sched b ++ ascii ".tmp") 0 (schedule_pieces sched) d1).1 = .ok off := by
    apply write_entries_iff.2
    rw [congrFun hwrites]
    exact ⟨hend.fits, hend.whole⟩
  obtain ⟨hoff, hwritten⟩ := write_entries_ok hempty hes
  rw [List.nil_append] at hoff
  rw [List.nil_append, List.length_nil] at hwritten
  subst hoff
  obtain ⟨n, hn, hcut⟩ := hend.cut
  rw [← congrFun hwrites, ← write_entries_queue hes] at hcut
  obtain ⟨hret, hfile⟩ := write_end_short hwritten hn hcut
  rw [hpieces, hes]
  dsimp only
  rw [bind_app, hret]
  have hrename := hend.renamed
  rw [← hrenames.err, ← (sameQueue_write_entries (by decide) 0 (schedule_pieces sched) d1).err,
    ← (renames_write_end _ (schedule_pieces sched).flatten.length _).err] at hrename
  obtain ⟨hzero, hnew⟩ := finish_file_ok hne (Int.natCast_nonneg n) hrename hfile
  exact ⟨hzero, n, hn, hnew⟩

end

/-- An operation that writes one text. -/
theorem atomic_of_text {op : Save} {d : Disk Path} (h : op.run b d = save_text (op.target b) op.contents d) :
    op.Atomic b d := by
  rw [Save.Atomic, h]
  exact ⟨save_text_zero, save_text_neg⟩

/-- An operation that stops before any file is touched. -/
theorem atomic_of_refused {op : Save} {d : Disk Path} {e : Int} (he : e < 0) (h : op.run b d = (e, d)) :
    op.Atomic b d := by
  rw [Save.Atomic, h]
  exact ⟨fun h0 => absurd h0 (Int.ne_of_lt he), fun _ => rfl⟩

/-- The operations replace their file as a whole, except the schedule whose end is cut. -/
theorem save_atomic_iff (op : Save) (d : Disk Path) :
    op.Atomic b d ↔ ¬ ∃ sched, op = .schedule sched ∧ EndCut b sched d := by
  constructor
  · rintro hatomic ⟨sched, rfl, hend⟩
    obtain ⟨hzero, n, hn, hfile⟩ := save_schedule_cut hend
    have hall := hatomic.1 hzero
    rw [Save.run, Save.target, hfile, Option.some_inj, Save.contents, List.append_cancel_left_eq] at hall
    have hlen := congrArg List.length hall
    rw [List.length_take] at hlen
    have hthree : (ascii "]\x7d\n").length = 3 := rfl
    omega
  · intro hend
    cases op with
    | last_sync unix_sec => exact atomic_of_text b rfl
    | state last_job_id => exact atomic_of_text b rfl
    | location json => exact atomic_of_text b rfl
    | http_creds api_base device_id auth_token =>
      have hrun : (Save.http_creds api_base device_id auth_token).run b d =
          eink_store_save_http_creds b api_base device_id auth_token d := rfl
      unfold eink_store_save_http_creds at hrun
      rw [creds_json_eq] at hrun
      by_cases hfits : (creds_text (kept api_base.val) (kept device_id.val) (kept auth_token.val)).length + 1 < 768
      · rw [if_pos hfits] at hrun
        exact atomic_of_text b hrun
      · rw [if_neg hfits] at hrun
        exact atomic_of_refused b (show -ENOMEM < 0 by decide) hrun
    | image image_id es6f =>
      have hrun : (Save.image image_id es6f).run b d = eink_store_put_image b image_id es6f d := rfl
      have hneg := negErr_frame_validate es6f
      unfold eink_store_put_image at hrun
      cases hvalid : eink_frame_validate es6f with
      | error e =>
        rw [hvalid] at hrun hneg
        exact atomic_of_refused b hneg hrun
      | ok view =>
        rw [hvalid] at hrun
        exact atomic_of_text b hrun
    | schedule sched =>
      have hsched : ¬ EndCut b sched d := fun h => hend ⟨sched, rfl, h⟩
      exact ⟨save_schedule_zero hsched, save_schedule_neg b⟩

/-- The write of the end takes one byte of an empty schedule. -/
def cutDisk : Disk Path :=
  { files := fun _ => none, faults := fun c _ => if c = .fs_write then [.ok, .short 1] else [] }

theorem save_atomic_cut : ¬ (Save.schedule .empty).Atomic lz4Build cutDisk ∧
    (eink_store_save_schedule lz4Build .empty cutDisk).1 = 0 ∧
    (eink_store_save_schedule lz4Build .empty cutDisk).2.files (path_sched lz4Build) =
      some (ascii "\x7b\"jobs\":[]") := by
  have hrun : (eink_store_save_schedule lz4Build .empty cutDisk).1 = 0 ∧
      (eink_store_save_schedule lz4Build .empty cutDisk).2.files (path_sched lz4Build) =
        some (ascii "\x7b\"jobs\":[]") := by decide +kernel
  refine ⟨?_, hrun⟩
  intro h
  have hall := h.1 hrun.1
  rw [Save.run, Save.target, hrun.2] at hall
  exact absurd hall (by decide)

end EinkNode.Store
