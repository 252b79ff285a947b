import EinkNode.Frame
import EinkNode.Lib.Semaphore
/-!
# The display service

`eink_display.c`: clients queue one command, a work item takes it and drives the
panel, a semaphore says that the panel is idle. A section under the mutex is one
step. The work handler is cut at its sections, at the release of the payload
slot and at the semaphore, so that a client may come in between.
-/
open NodeLib

namespace EinkNode.Display

inductive CmdType where
  | SHOW_PATH | CLEAR | SHOW_PAYLOAD
deriving DecidableEq

/-- `struct eink_cmd`. -/
structure Cmd where
  type : CmdType
  path : CStr 256
  job_id : CStr 64
deriving DecidableEq

inductive PanelState where
  | IDLE | REFRESHING | ERROR
deriving DecidableEq

/-- `struct eink_display_status`. -/
structure Status where
  state : PanelState
  last_result : Int
  last_job_id : CStr 64
  refresh_count : UInt32
deriving DecidableEq

/-- Where `eink_work_handler` is: what it has last done. -/
inductive Worker where
  | idle
  | started
  | running (cmd : Cmd)
  | finished (cmd : Cmd) (ret : Int)
  | released (cmd : Cmd) (ret : Int)
  | recorded (cmd : Cmd) (ret : Int)
  | published
deriving DecidableEq

/-- The statics of the file. `queued` says that the work item is in its queue,
`submits` counts the clients that have yet to put it there. -/
structure Service where
  status : Status
  pending : Cmd
  has_pending : Bool
  eink_payload_slot : Bytes
  eink_payload_slot_busy : Bool
  eink_idle_sem : Sem
  worker : Worker
  queued : Bool
  submits : Nat
deriving DecidableEq

def eink_display_init : Service where
  status := ⟨.IDLE, 0, .empty _, 0⟩
  pending := ⟨.SHOW_PATH, .empty _, .empty _⟩
  has_pending := false
  eink_payload_slot := []
  eink_payload_slot_busy := false
  eink_idle_sem := .k_sem_init true
  worker := .idle
  queued := false
  submits := 0

/-! ## Clients -/

def eink_display_is_busy (d : Service) : Bool := d.has_pending || d.status.state = .REFRESHING

/-- The end of the section of a call that is accepted. -/
def accept (d : Service) (cmd : Cmd) : Service :=
  { d with
    pending := cmd, has_pending := true, eink_idle_sem := d.eink_idle_sem.k_sem_reset, submits := d.submits + 1 }

def queue_cmd (d : Service) (cmd : Cmd) : Int × Service :=
  if d.has_pending || d.status.state = .REFRESHING then (-EBUSY, d) else (0, accept d cmd)

def show_path_cmd (path : Bytes) (job_id : Option Bytes) : Cmd :=
  ⟨.SHOW_PATH, .copy _ path, .copy _ (job_id.getD [])⟩

def eink_display_show_path (d : Service) (path job_id : Option Bytes) : Int × Service :=
  match path with
  | none => (-EINVAL, d)
  | some path => queue_cmd d (show_path_cmd path job_id)

def clear_cmd : Cmd := ⟨.CLEAR, .empty _, .empty _⟩

def eink_display_clear (d : Service) : Int × Service := queue_cmd d clear_cmd

def show_payload_cmd (job_id : Option Bytes) : Cmd := ⟨.SHOW_PAYLOAD, .empty _, .copy _ (job_id.getD [])⟩

/-- `full_framebuffer` is `CONFIG_APP_EINK_FULL_FRAMEBUFFER`. -/
def eink_display_show_payload (full_framebuffer : Bool) (d : Service) (payload job_id : Option Bytes) :
    Int × Service :=
  if !full_framebuffer then (-ENOTSUP, d)
  else match payload with
    | none => (-EINVAL, d)
    | some payload =>
      if d.eink_payload_slot_busy || d.has_pending || d.status.state = .REFRESHING then (-EBUSY, d)
      else
        (0, accept { d with eink_payload_slot := payload.take EINK_PAYLOAD_LEN, eink_payload_slot_busy := true }
          (show_payload_cmd job_id))

/-- A client's call. -/
inductive Call where
  | show_path (path job_id : Option Bytes)
  | clear
  | show_payload (payload job_id : Option Bytes)

def call (full_framebuffer : Bool) (d : Service) : Call → Int × Service
  | .show_path path job_id => eink_display_show_path d path job_id
  | .clear => eink_display_clear d
  | .show_payload payload job_id => eink_display_show_payload full_framebuffer d payload job_id

/-- The call comes to its section under the mutex. -/
def Call.enters (full_framebuffer : Bool) : Call → Bool
  | .show_path path _ => path.isSome
  | .clear => true
  | .show_payload payload _ => full_framebuffer && payload.isSome

/-- `k_work_reschedule_for_queue`, by one of the clients that have been accepted. -/
def submit (d : Service) : Service :=
  if d.submits = 0 then d else { d with queued := true, submits := d.submits - 1 }

/-! ## The work handler -/

/-- The section of `set_idle`. -/
def set_idle (s : Status) (result : Int) : Status :=
  { s with
    state := if result = 0 then .IDLE else .ERROR
    last_result := result
    refresh_count := if result = 0 then s.refresh_count + 1 else s.refresh_count }

/-- The section that records the job id of a success. -/
def record_job (s : Status) (cmd : Cmd) (ret : Int) : Status :=
  if ret = 0 ∧ cmd.job_id.val ≠ [] then { s with last_job_id := .copy _ cmd.job_id.val } else s

/-- The next step of the work item. `ret` is what driving the panel comes to. -/
def eink_work_handler (d : Service) (ret : Int) : Service :=
  match d.worker with
  | .idle => if d.queued then { d with worker := .started, queued := false } else d
  | .started =>
    if !d.has_pending then { d with worker := .idle }
    else { d with worker := .running d.pending, has_pending := false, status := { d.status with state := .REFRESHING } }
  | .running cmd => { d with worker := .finished cmd ret }
  | .finished cmd ret =>
    { d with
      worker := .released cmd ret
      eink_payload_slot_busy := if cmd.type = .SHOW_PAYLOAD then false else d.eink_payload_slot_busy }
  | .released cmd ret => { d with worker := .recorded cmd ret, status := record_job d.status cmd ret }
  | .recorded _ ret => { d with worker := .published, status := set_idle d.status ret }
  | .published => { d with worker := .idle, eink_idle_sem := d.eink_idle_sem.k_sem_give }

end EinkNode.Display
