import EinkNode.Lib.Errno
import EinkNode.Lib.Runs
import EinkNode.Lib.Semaphore
import EinkNode.Scheduler.Core
/-!
# Deferred telemetry

A sync leaves its telemetry in a job for a later work item on the same queue,
and the wake flushes it before the radio goes off. The work items run one after
the other; the flush runs on another thread, between any two of their steps. We
ask what has been posted when the flush returns, and whose result it returns.
-/
open NodeLib EinkNode.Scheduler

namespace EinkNode.Telem

/-- The arguments of `queue_deferred_telem`. -/
structure Telemetry where
  sched : Schedule
  last_job : Id
  next_wake : Int
  now : Int
deriving DecidableEq

/-- What a zeroed job would post. -/
def Telemetry.zero : Telemetry := ⟨.empty, .empty _, 0, 0⟩

/-- `telem_job`. -/
structure TelemJob where
  telem : Telemetry
  pending : Bool
  result : Int
deriving DecidableEq

/-- Where the thread of the queue is. In `queue_deferred_telem` it has been `called`, will post `inline` or has
`checked` that it need not, has `cleared` and `filled` the job and `drained` the semaphore. In `telem_work_handler`
it has `started`, `posted`, `completed` the job and `given` the semaphore. -/
inductive Queue where
  | idle
  | called | inline | checked | cleared | filled | drained
  | started | posted | completed | given
deriving DecidableEq

/-- Where `eink_http_flush_deferred` is. -/
inductive Flush where
  | idle
  | called
  | not_pending
  | taking
  | waiting
  | passed
deriving DecidableEq

/-- A telemetry that has been posted: the call it comes from, what was sent and the result. -/
structure Post where
  call : Nat
  sent : Telemetry
  result : Int
deriving DecidableEq

/-- A flush that has returned: the calls that had returned when it started, its value, and whether it read the
result of a telemetry that was queued behind its back and not yet posted. -/
structure Flushed where
  seen : Nat
  value : Int
  disturbed : Bool
deriving DecidableEq

/-- The statics of the file, the two threads, and what has happened so far. -/
structure Deferred where
  telem_job : TelemJob
  queued : Bool
  telem_done : Sem
  queue : Queue
  flush : Flush
  /-- The calls, in order; the job is that of the call number `job_call`. -/
  calls : List Telemetry
  job_call : Nat
  returned : Nat
  deferred : List Nat
  posts : List Post
  flushes : List Flushed
  /-- What had returned when the flush started, and whether the job has been refilled since it passed. -/
  seen : Nat
  refilled : Bool

/-- After `eink_http_init`. -/
def eink_http_init : Deferred where
  telem_job := ⟨.zero, false, 0⟩
  queued := false
  telem_done := .k_sem_init false
  queue := .idle
  flush := .idle
  calls := []
  job_call := 0
  returned := 0
  deferred := []
  posts := []
  flushes := []
  seen := 0
  refilled := false

/-! ## The work items -/

/-- `k_work_busy_get(&telem_work)` -/
def telem_work_busy (s : Deferred) : Bool :=
  s.queued || s.queue = .started || s.queue = .posted || s.queue = .completed || s.queue = .given

/-- `k_sem_take` with `K_NO_WAIT`. -/
def drain (s : Sem) : Sem := { s with count := false }

/-- A sync calls `queue_deferred_telem`. -/
def queue_deferred_telem (s : Deferred) (telem : Telemetry) : Deferred :=
  if s.queue = .idle then { s with queue := .called, calls := s.calls ++ [telem] } else s

/-- The next step of the queue's thread. `ret` is what a post comes to. -/
def queue_step (s : Deferred) (ret : Int) : Deferred :=
  match s.queue with
  | .idle => if s.queued then { s with queued := false, queue := .started } else s
  -- An earlier telemetry is still there: this one is posted in the call itself.
  | .called => { s with queue := if telem_work_busy s || s.telem_job.pending then .inline else .checked }
  | .inline =>
    { s with
      posts := s.posts ++ [⟨s.calls.length - 1, s.calls.getLastD .zero, ret⟩]
      returned := s.calls.length
      queue := .idle }
  -- The `memset` clears the result too, and nothing keeps a flush from reading it.
  | .checked => { s with telem_job := ⟨.zero, false, 0⟩, job_call := s.calls.length - 1, queue := .cleared }
  | .cleared => { s with telem_job := ⟨s.calls.getLastD .zero, true, 0⟩, queue := .filled }
  | .filled => { s with telem_done := drain s.telem_done, queue := .drained }
  | .drained =>
    { s with
      queued := true
      returned := s.calls.length
      deferred := s.deferred ++ [s.calls.length - 1]
      queue := .idle }
  | .started =>
    if !s.telem_job.pending then { s with telem_done := s.telem_done.k_sem_give, queue := .given }
    else
      { s with
        telem_job := { s.telem_job with result := ret }
        posts := s.posts ++ [⟨s.job_call, s.telem_job.telem, ret⟩]
        queue := .posted }
  | .posted => { s with telem_job := { s.telem_job with pending := false }, queue := .completed }
  | .completed => { s with telem_done := s.telem_done.k_sem_give, queue := .given }
  | .given => { s with queue := .idle }

/-! ## The flush -/

/-- The job is being refilled. -/
def Refilling (s : Deferred) : Prop := s.queue = .cleared ∨ s.queue = .filled ∨ s.queue = .drained

instance (s : Deferred) : Decidable (Refilling s) := inferInstanceAs (Decidable (_ ∨ _ ∨ _))

/-- What is in the job has yet to be posted. -/
def Unposted (s : Deferred) : Prop := Refilling s ∨ s.queued = true ∨ s.queue = .started

instance (s : Deferred) : Decidable (Unposted s) := inferInstanceAs (Decidable (_ ∨ _ ∨ _))

/-- The flush has seen that the job is done, or has got the semaphore. -/
def Passed (s : Deferred) : Prop := s.flush = .passed ∨ s.telem_done.waiter = .woken

instance (s : Deferred) : Decidable (Passed s) := inferInstanceAs (Decidable (_ ∨ _))

/-- The flush returns. -/
def flush_return (s : Deferred) (value : Int) : Deferred :=
  { s with
    flush := .idle
    flushes := s.flushes ++ [⟨s.seen, value, s.refilled && decide (Unposted s)⟩] }

/-- The next step of `eink_http_flush_deferred`. -/
def eink_http_flush_deferred (s : Deferred) : Deferred :=
  match s.flush with
  | .idle => { s with flush := .called, seen := s.returned, refilled := false }
  | .called => { s with flush := if s.telem_job.pending then .taking else .not_pending }
  | .not_pending => { s with flush := if telem_work_busy s then .taking else .passed }
  | .taking => { s with flush := .waiting, telem_done := s.telem_done.k_sem_take }
  | .waiting =>
    if s.telem_done.waiter = .woken then { s with flush := .passed, telem_done := s.telem_done.returned } else s
  | .passed => flush_return s s.telem_job.result

/-- The wait has taken too long. -/
def flush_timeout (s : Deferred) : Deferred :=
  if s.flush = .waiting ∧ s.telem_done.waiter = .pended then
    flush_return { s with telem_done := s.telem_done.returned } (-ETIMEDOUT)
  else s

inductive TelemEvent where
  | call (telem : Telemetry)
  | queue (ret : Int)
  | flush
  | timeout

def telem_act (s : Deferred) : TelemEvent → Deferred
  | .call telem => queue_deferred_telem s telem
  | .queue ret => queue_step s ret
  | .flush => eink_http_flush_deferred s
  | .timeout => flush_timeout s

/-- A step, and whether the job is being refilled behind a flush that has passed. -/
def telem_step (s : Deferred) (e : TelemEvent) : Deferred :=
  { telem_act s e with
    refilled := (telem_act s e).refilled || decide (Passed (telem_act s e) ∧ Refilling (telem_act s e)) }

/-- The telemetry of a call has been posted with this result. -/
def PostedAs (s : Deferred) (call : Nat) (result : Int) : Prop :=
  ∃ p ∈ s.posts, p.call = call ∧ p.result = result ∧ s.calls[call]? = some p.sent

/-- A flush returned the result of the telemetry of a call, or that of a later one. -/
def ReturnedResult (s : Deferred) (f : Flushed) (call : Nat) : Prop :=
  ∃ later, call ≤ later ∧ PostedAs s later f.value

/-! ## The handshake -/

/-- What the two threads know of each other. -/
structure Control (s : Deferred) : Prop where
  queued : s.queued = true → s.queue = .idle ∨ s.queue = .called ∨ s.queue = .inline
  ready : s.queued = true ∨ s.queue = .filled ∨ s.queue = .drained ∨ s.queue = .started → s.telem_job.pending = true
  token : s.telem_done.count = true → s.queued = false ∧ s.queue ≠ .drained ∧ s.queue ≠ .started
  waiter : s.flush ≠ .waiting → s.telem_done.waiter = .none
  passed : Passed s → s.refilled = true ∨ Refilling s ∨ ¬ Unposted s

/-- A flush that has passed: the job has been posted, or was refilled since. -/
def Settled (s : Deferred) : Prop := Passed s → s.refilled = true ∨ ¬ Unposted s

section
variable {s : Deferred}

/-- Until it fills the job, a call only finds out whether anything is queued. -/
theorem control_check (h : Control s) (hs : Settled s) (ret : Int)
    (hq : s.queue = .called ∨ s.queue = .inline ∨ s.queue = .checked) : Control (queue_step s ret) := by
  obtain ⟨hqueued, hready, htoken, hwaiter, hpassed⟩ := h
  unfold queue_step
  rcases hq with hq | hq | hq <;> rw [hq] <;> dsimp only <;> constructor <;>
    grind -ring -linarith [Settled, Passed, Refilling, Unposted, telem_work_busy]

/-- The job is filled before the semaphore is drained, and drained before the work item is queued. -/
theorem control_fill (h : Control s) (hs : Settled s) (ret : Int) (hq : Refilling s) : Control (queue_step s ret) := by
  obtain ⟨hqueued, hready, htoken, hwaiter, hpassed⟩ := h
  unfold queue_step
  rcases hq with hq | hq | hq <;> rw [hq] <;> dsimp only <;> constructor <;>
    grind -ring -linarith [Settled, Passed, Refilling, Unposted, drain]

/-- The handler gives the semaphore when nothing is queued. -/
theorem control_handler (h : Control s) (ret : Int)
    (hq : s.queue = .started ∨ s.queue = .posted ∨ s.queue = .completed ∨ s.queue = .given) :
    Control (queue_step s ret) := by
  obtain ⟨hqueued, hready, htoken, hwaiter, hpassed⟩ := h
  unfold queue_step
  rcases hq with hq | hq | hq | hq <;> rw [hq] <;> dsimp only <;> constructor <;>
    grind -ring -linarith [Settled, Passed, Refilling, Unposted, Sem.k_sem_give]

theorem control_queue_step (h : Control s) (hs : Settled s) (ret : Int) : Control (queue_step s ret) := by
  cases hq : s.queue with
  | idle =>
    obtain ⟨hqueued, hready, htoken, hwaiter, hpassed⟩ := h
    unfold queue_step
    rw [hq]
    constructor <;> grind -ring -linarith [Settled, Passed, Refilling, Unposted]
  | called => exact control_check h hs ret (.inl hq)
  | inline => exact control_check h hs ret (.inr (.inl hq))
  | checked => exact control_check h hs ret (.inr (.inr hq))
  | cleared => exact control_fill h hs ret (.inl hq)
  | filled => exact control_fill h hs ret (.inr (.inl hq))
  | drained => exact control_fill h hs ret (.inr (.inr hq))
  | started => exact control_handler h ret (.inl hq)
  | posted => exact control_handler h ret (.inr (.inl hq))
  | completed => exact control_handler h ret (.inr (.inr (.inl hq)))
  | given => exact control_handler h ret (.inr (.inr (.inr hq)))

theorem control_flush (h : Control s) (hs : Settled s) : Control (eink_http_flush_deferred s) := by
  obtain ⟨hqueued, hready, htoken, hwaiter, hpassed⟩ := h
  unfold eink_http_flush_deferred
  cases hf : s.flush <;> dsimp only <;> constructor <;>
    grind -ring -linarith [Settled, Passed, Refilling, Unposted, telem_work_busy, flush_return, Sem.k_sem_take,
      Sem.returned]

theorem control_timeout (h : Control s) : Control (flush_timeout s) := by
  obtain ⟨hqueued, hready, htoken, hwaiter, hpassed⟩ := h
  unfold flush_timeout
  split
  · constructor <;> grind -ring -linarith [Settled, Passed, Refilling, Unposted, flush_return, Sem.returned]
  · exact ⟨hqueued, hready, htoken, hwaiter, hpassed⟩

theorem control_call (h : Control s) (hs : Settled s) (telem : Telemetry) : Control (queue_deferred_telem s telem) := by
  obtain ⟨hqueued, hready, htoken, hwaiter, hpassed⟩ := h
  unfold queue_deferred_telem
  split
  · constructor <;> grind -ring -linarith [Settled, Passed, Refilling, Unposted]
  · exact ⟨hqueued, hready, htoken, hwaiter, hpassed⟩

theorem control_act (h : Control s) (hs : Settled s) (e : TelemEvent) : Control (telem_act s e) := by
  cases e with
  | call telem => exact control_call h hs telem
  | queue ret => exact control_queue_step h hs ret
  | flush => exact control_flush h hs
  | timeout => exact control_timeout h

/-- While the job is cleared and while its handler begins, the work item is not queued. -/
theorem Control.not_queued (h : Control s) (hq : s.queue = .checked ∨ s.queue = .started) : s.queued = false := by
  cases hqueued : s.queued with
  | false => rfl
  | true =>
    rcases h.queued hqueued with hplace | hplace | hplace <;> rw [hplace] at hq <;> rcases hq with hq | hq <;> cases hq

/-- The mark of a refilled job is what the flush needs. -/
theorem control_step (h : Control s) (hs : Settled s) (e : TelemEvent) :
    Control (telem_step s e) ∧ Settled (telem_step s e) := by
  obtain ⟨hqueued, hready, htoken, hwaiter, hpassed⟩ := control_act h hs e
  have hsettled : Settled (telem_step s e) := by
    intro hpass
    rcases hpassed hpass with h | h | h
    · left
      simp [telem_step, h]
    · left
      have hboth : Passed (telem_act s e) ∧ Refilling (telem_act s e) := ⟨hpass, h⟩
      simp [telem_step, hboth]
    · exact .inr h
  exact ⟨⟨hqueued, hready, htoken, hwaiter, fun hpass => (hsettled hpass).imp_right .inr⟩, hsettled⟩

/-! ## The calls -/

/-- A call of `queue_deferred_telem` has not returned. -/
def InCall (s : Deferred) : Prop :=
  s.queue = .called ∨ s.queue = .inline ∨ s.queue = .checked ∨ Refilling s

instance (s : Deferred) : Decidable (InCall s) := inferInstanceAs (Decidable (_ ∨ _))

/-- The numbers of the calls. -/
structure Counts (s : Deferred) : Prop where
  calls : s.calls.length = s.returned + if InCall s then 1 else 0
  refilling : Refilling s → s.job_call = s.returned
  job : s.job_call ≤ s.returned
  deferred : ∀ u ∈ s.deferred, u ≤ s.job_call ∧ u < s.returned
  seen : s.seen ≤ s.returned
  refilled : s.refilled = true → s.seen ≤ s.job_call

/-- A step that neither begins nor ends a call, nor clears the job. -/
theorem Counts.of_same {s' : Deferred} (h : Counts s)
    (hcalls : s'.calls = s.calls ∧ s'.returned = s.returned ∧ s'.deferred = s.deferred)
    (hjob : s'.job_call = s.job_call)
    (hflush : s'.seen = s.seen ∧ s'.refilled = s.refilled) (hin : InCall s' ↔ InCall s)
    (hrefilling : Refilling s' → Refilling s) : Counts s' := by
  obtain ⟨hcalls, hreturned, hdeferred⟩ := hcalls
  constructor
  · simp only [hcalls, hreturned, hin]
    exact h.calls
  · intro hr
    rw [hjob, hreturned]
    exact h.refilling (hrefilling hr)
  · rw [hjob, hreturned]
    exact h.job
  · rw [hjob, hreturned, hdeferred]
    exact h.deferred
  · rw [hflush.1, hreturned]
    exact h.seen
  · rw [hflush.1, hflush.2, hjob]
    exact h.refilled

theorem counts_queue_step (h : Counts s) (ret : Int) : Counts (queue_step s ret) := by
  obtain ⟨hcalls, hrefilling, hjob, hdeferred, hseen, hrefilled⟩ := id h
  cases hq : s.queue with
  | inline =>
    simp only [queue_step, hq]
    constructor <;> grind -ring -linarith [InCall, Refilling]
  | checked =>
    simp only [queue_step, hq]
    constructor <;> grind -ring -linarith [InCall, Refilling]
  | drained =>
    simp only [queue_step, hq]
    constructor <;> grind -ring -linarith [InCall, Refilling]
  | idle => refine h.of_same ?_ ?_ ?_ ?_ ?_ <;> simp only [queue_step, hq] <;> split <;> simp [InCall, Refilling, hq]
  | called =>
    cases hbusy : telem_work_busy s || s.telem_job.pending <;> refine h.of_same ?_ ?_ ?_ ?_ ?_ <;>
      simp only [queue_step, hq, hbusy] <;> simp [InCall, Refilling, hq]
  | started => refine h.of_same ?_ ?_ ?_ ?_ ?_ <;> simp only [queue_step, hq] <;> split <;> simp [InCall, Refilling, hq]
  | _ => refine h.of_same ?_ ?_ ?_ ?_ ?_ <;> simp [queue_step, InCall, Refilling, hq]

theorem counts_flush (h : Counts s) : Counts (eink_http_flush_deferred s) := by
  obtain ⟨hcalls, hrefilling, hjob, hdeferred, hseen, hrefilled⟩ := h
  unfold eink_http_flush_deferred
  cases hf : s.flush <;> dsimp only <;> constructor <;> grind -ring -linarith [InCall, Refilling, flush_return]

theorem counts_act (h : Counts s) (e : TelemEvent) : Counts (telem_act s e) := by
  cases e with
  | call telem =>
    obtain ⟨hcalls, hrefilling, hjob, hdeferred, hseen, hrefilled⟩ := h
    unfold telem_act queue_deferred_telem
    dsimp only
    split
    · constructor <;> grind -ring -linarith [InCall, Refilling]
    · exact ⟨hcalls, hrefilling, hjob, hdeferred, hseen, hrefilled⟩
  | queue ret => exact counts_queue_step h ret
  | flush => exact counts_flush h
  | timeout =>
    obtain ⟨hcalls, hrefilling, hjob, hdeferred, hseen, hrefilled⟩ := h
    unfold telem_act flush_timeout
    dsimp only
    split
    · exact ⟨hcalls, hrefilling, hjob, hdeferred, hseen, hrefilled⟩
    · exact ⟨hcalls, hrefilling, hjob, hdeferred, hseen, hrefilled⟩

theorem counts_step (h : Counts s) (e : TelemEvent) : Counts (telem_step s e) := by
  obtain ⟨hcalls, hrefilling, hjob, hdeferred, hseen, hrefilled⟩ := counts_act h e
  refine ⟨hcalls, hrefilling, hjob, hdeferred, hseen, ?_⟩
  intro hmark
  rcases Bool.or_eq_true_iff.1 hmark with h | h
  · exact hrefilled h
  · -- The job that is being refilled is that of a call that has not returned.
    have hnow := hrefilling (of_decide_eq_true h).2
    exact hseen.trans hnow.ge

/-! ## The posts -/

theorem PostedAs.mono {s' : Deferred} (hposts : s.posts ⊆ s'.posts) (hcalls : s.calls <+: s'.calls) {u : Nat} {r : Int}
    (h : PostedAs s u r) : PostedAs s' u r := by
  obtain ⟨p, hp, hcall, hresult, hsent⟩ := h
  refine ⟨p, hposts hp, hcall, hresult, ?_⟩
  obtain ⟨more, hmore⟩ := hcalls
  rw [← hmore, List.getElem?_append_left (List.getElem?_eq_some_iff.1 hsent).1, hsent]

/-- The history only grows. -/
theorem history_act (s : Deferred) (e : TelemEvent) :
    s.posts ⊆ (telem_act s e).posts ∧ s.calls <+: (telem_act s e).calls := by
  cases e with
  | call telem =>
    unfold telem_act queue_deferred_telem
    dsimp only
    split
    · exact ⟨List.Subset.refl _, List.prefix_append _ _⟩
    · exact ⟨List.Subset.refl _, List.prefix_rfl⟩
  | queue ret =>
    unfold telem_act queue_step
    cases s.queue <;> dsimp only <;> grind -ring -linarith
  | flush =>
    unfold telem_act eink_http_flush_deferred flush_return
    cases s.flush <;> dsimp only <;> grind -ring -linarith
  | timeout =>
    unfold telem_act flush_timeout flush_return
    dsimp only
    split
    · exact ⟨List.Subset.refl _, List.prefix_rfl⟩
    · exact ⟨List.Subset.refl _, List.prefix_rfl⟩

/-- What has been posted. -/
structure Posts (s : Deferred) : Prop where
  content : s.queued = true ∨ s.queue = .filled ∨ s.queue = .drained ∨ s.queue = .started →
    s.calls[s.job_call]? = some s.telem_job.telem
  before : ∀ u < s.returned, (∃ r, PostedAs s u r) ∨ u = s.job_call ∧ (s.queued = true ∨ s.queue = .started)
  result : ¬ Unposted s → s.deferred ≠ [] → PostedAs s s.job_call s.telem_job.result

/-- A step that changes neither the job nor what has returned, and posts nothing that is outstanding. -/
theorem Posts.of_same {s' : Deferred} (h : Posts s) (hposts : s.posts ⊆ s'.posts)
    (hcalls : s.calls <+: s'.calls)
    (hjob : s'.job_call = s.job_call ∧ s'.telem_job.telem = s.telem_job.telem ∧
      s'.telem_job.result = s.telem_job.result)
    (hreturned : s'.returned = s.returned ∧ s'.deferred = s.deferred)
    (hfill : s'.queue = .filled ∨ s'.queue = .drained → s.queue = .filled ∨ s.queue = .drained)
    (hwork : s'.queued = true ∨ s'.queue = .started ↔ s.queued = true ∨ s.queue = .started)
    (hunposted : Unposted s → Unposted s') : Posts s' := by
  obtain ⟨hcall, htelem, hres⟩ := hjob
  constructor
  · intro hq
    have hq' : s.queued = true ∨ s.queue = .filled ∨ s.queue = .drained ∨ s.queue = .started := by grind -ring -linarith
    obtain ⟨more, hmore⟩ := hcalls
    have hcontent := h.content hq'
    rw [hcall, htelem, ← hmore, List.getElem?_append_left (List.getElem?_eq_some_iff.1 hcontent).1, hcontent]
  · intro u hu
    rw [hreturned.1] at hu
    rw [hcall, hwork]
    rcases h.before u hu with ⟨r, hr⟩ | hout
    · exact .inl ⟨r, hr.mono hposts hcalls⟩
    · exact .inr hout
  · intro hdone hne
    rw [hreturned.2] at hne
    rw [hcall, hres]
    exact (h.result (fun hun => hdone (hunposted hun)) hne).mono hposts hcalls

/-- The call that has not returned is the last one. -/
theorem getLast_calls (hcounts : Counts s) (hin : InCall s) :
    s.calls.length = s.returned + 1 ∧ s.calls[s.returned]? = some (s.calls.getLastD .zero) := by
  have hlen := hcounts.calls
  rw [if_pos hin] at hlen
  have hne : s.calls ≠ [] := by
    intro hnil
    rw [hnil] at hlen
    cases hlen
  refine ⟨hlen, ?_⟩
  rw [List.getLastD_eq_getLast?, List.getLast?_eq_getElem?, hlen, Nat.add_sub_cancel,
    List.getElem?_eq_getElem (show s.returned < s.calls.length by omega), Option.getD_some]

theorem posts_inline (h : Posts s) (hcounts : Counts s) (hq : s.queue = .inline) (ret : Int) :
    Posts (queue_step s ret) := by
  obtain ⟨hlen, hlast⟩ := getLast_calls hcounts (.inr (.inl hq))
  have hstep : queue_step s ret = { s with
      posts := s.posts ++ [⟨s.returned, s.calls.getLastD .zero, ret⟩]
      returned := s.returned + 1
      queue := .idle } := by
    unfold queue_step
    rw [hq]
    dsimp only
    rw [hlen, Nat.add_sub_cancel]
  have hhistory := history_act s (.queue ret)
  have hmono {u : Nat} {r : Int} (h : PostedAs s u r) : PostedAs (queue_step s ret) u r := h.mono hhistory.1 hhistory.2
  rw [hstep] at hmono ⊢
  constructor
  · rintro (hqueued | hbad | hbad | hbad)
    · exact h.content (.inl hqueued)
    · cases hbad
    · cases hbad
    · cases hbad
  · intro u hu
    rcases Nat.lt_succ_iff_lt_or_eq.1 hu with hlt | rfl
    · rcases h.before u hlt with ⟨r, hr⟩ | ⟨rfl, hqueued | hstarted⟩
      · exact .inl ⟨r, hmono hr⟩
      · exact .inr ⟨rfl, .inl hqueued⟩
      · rw [hq] at hstarted
        cases hstarted
    · exact .inl ⟨ret, _, List.mem_append_right _ (List.mem_singleton_self _), rfl, rfl, hlast⟩
  · intro hdone hne
    apply hmono
    apply h.result _ hne
    rintro (hrefill | hqueued | hstarted)
    · rcases hrefill with hbad | hbad | hbad <;> rw [hq] at hbad <;> cases hbad
    · exact hdone (.inr (.inl hqueued))
    · rw [hq] at hstarted
      cases hstarted

/-- Whatever was queued before has been posted when the job is cleared. -/
theorem posts_checked (h : Posts s) (hcontrol : Control s) (hq : s.queue = .checked) (ret : Int) :
    Posts (queue_step s ret) := by
  have hqueued := hcontrol.not_queued (.inl hq)
  have hstep : queue_step s ret =
      { s with telem_job := ⟨.zero, false, 0⟩, job_call := s.calls.length - 1, queue := .cleared } := by
    unfold queue_step
    rw [hq]
  rw [hstep]
  constructor
  · rintro (hbad | hbad | hbad | hbad)
    · rw [hqueued] at hbad
      cases hbad
    · cases hbad
    · cases hbad
    · cases hbad
  · intro u hu
    rcases h.before u hu with hposted | ⟨-, hbad | hbad⟩
    · exact .inl hposted
    · rw [hqueued] at hbad
      cases hbad
    · rw [hq] at hbad
      cases hbad
  · intro hdone
    exact absurd (.inl (.inl rfl)) hdone

theorem posts_cleared (h : Posts s) (hcounts : Counts s) (hq : s.queue = .cleared) (ret : Int) :
    Posts (queue_step s ret) := by
  have hrefilling : Refilling s := .inl hq
  obtain ⟨-, hlast⟩ := getLast_calls hcounts (.inr (.inr (.inr hrefilling)))
  have hstep : queue_step s ret = { s with telem_job := ⟨s.calls.getLastD .zero, true, 0⟩, queue := .filled } := by
    unfold queue_step
    rw [hq]
  rw [hstep]
  constructor
  · intro _
    rw [← hcounts.refilling hrefilling] at hlast
    exact hlast
  · intro u hu
    rcases h.before u hu with hposted | ⟨heq, hout⟩
    · exact .inl hposted
    · rw [hcounts.refilling hrefilling] at heq
      exact absurd heq (Nat.ne_of_lt hu)
  · intro hdone
    exact absurd (.inl (.inr (.inl rfl))) hdone

theorem posts_drained (h : Posts s) (hcounts : Counts s) (hq : s.queue = .drained) (ret : Int) :
    Posts (queue_step s ret) := by
  have hrefilling : Refilling s := .inr (.inr hq)
  obtain ⟨hlen, -⟩ := getLast_calls hcounts (.inr (.inr (.inr hrefilling)))
  have hstep : queue_step s ret = { s with
      queued := true, returned := s.calls.length, deferred := s.deferred ++ [s.calls.length - 1], queue := .idle } := by
    unfold queue_step
    rw [hq]
  rw [hstep]
  constructor
  · intro _
    exact h.content (.inr (.inr (.inl hq)))
  · intro u hu
    dsimp only at hu
    rw [hlen] at hu
    rcases Nat.lt_succ_iff_lt_or_eq.1 hu with hlt | rfl
    · rcases h.before u hlt with hposted | ⟨heq, -⟩
      · exact .inl hposted
      · rw [hcounts.refilling hrefilling] at heq
        exact absurd heq (Nat.ne_of_lt hlt)
    · exact .inr ⟨(hcounts.refilling hrefilling).symm, .inl rfl⟩
  · intro hdone
    exact absurd (.inr (.inl rfl)) hdone

/-- The handler posts what is in the job. -/
theorem posts_started (h : Posts s) (hcontrol : Control s) (hq : s.queue = .started) (ret : Int) :
    Posts (queue_step s ret) := by
  have hpending := hcontrol.ready (.inr (.inr (.inr hq)))
  have hqueued := hcontrol.not_queued (.inr hq)
  have hstep : queue_step s ret = { s with
      telem_job := { s.telem_job with result := ret }
      posts := s.posts ++ [⟨s.job_call, s.telem_job.telem, ret⟩]
      queue := .posted } := by
    unfold queue_step
    rw [hq]
    dsimp only
    rw [hpending]
    rfl
  have hhistory := history_act s (.queue ret)
  have hmono {u : Nat} {r : Int} (h : PostedAs s u r) : PostedAs (queue_step s ret) u r := h.mono hhistory.1 hhistory.2
  have hown : PostedAs (queue_step s ret) s.job_call ret := by
    rw [hstep]
    exact ⟨_, List.mem_append_right _ (List.mem_singleton_self _), rfl, rfl, h.content (.inr (.inr (.inr hq)))⟩
  rw [hstep] at hmono hown ⊢
  constructor
  · rintro (hbad | hbad | hbad | hbad)
    · rw [hqueued] at hbad
      cases hbad
    · cases hbad
    · cases hbad
    · cases hbad
  · intro u hu
    rcases h.before u hu with ⟨r, hr⟩ | ⟨rfl, -⟩
    · exact .inl ⟨r, hmono hr⟩
    · exact .inl ⟨ret, hown⟩
  · intro _ _
    exact hown

theorem posts_queue_step (h : Posts s) (hcontrol : Control s) (hcounts : Counts s) (ret : Int) :
    Posts (queue_step s ret) := by
  have hhistory := history_act s (.queue ret)
  cases hq : s.queue with
  | inline => exact posts_inline h hcounts hq ret
  | checked => exact posts_checked h hcontrol hq ret
  | cleared => exact posts_cleared h hcounts hq ret
  | drained => exact posts_drained h hcounts hq ret
  | started => exact posts_started h hcontrol hq ret
  | _ =>
    unfold telem_act at hhistory
    refine h.of_same hhistory.1 hhistory.2 ?_ ?_ ?_ ?_ ?_ <;> unfold queue_step <;>
      grind -ring -linarith [Unposted, Refilling]

theorem posts_act (h : Posts s) (hcontrol : Control s) (hcounts : Counts s) (e : TelemEvent) :
    Posts (telem_act s e) := by
  have hhistory := history_act s e
  cases e with
  | queue ret => exact posts_queue_step h hcontrol hcounts ret
  | call telem =>
    refine h.of_same hhistory.1 hhistory.2 ?_ ?_ ?_ ?_ ?_ <;> unfold telem_act queue_deferred_telem <;>
      grind -ring -linarith [Unposted, Refilling]
  | flush =>
    refine h.of_same hhistory.1 hhistory.2 ?_ ?_ ?_ ?_ ?_ <;>
      unfold telem_act eink_http_flush_deferred <;> grind -ring -linarith [Unposted, Refilling, flush_return]
  | timeout =>
    refine h.of_same hhistory.1 hhistory.2 ?_ ?_ ?_ ?_ ?_ <;>
      unfold telem_act flush_timeout <;> grind -ring -linarith [Unposted, Refilling, flush_return]

/-! ## What a flush tells -/

/-- A flush that has not timed out: what had been queued before it has been posted, and unless the job was refilled
behind its back its value is the result of what was queued last, as far as that was deferred. -/
def TellsTrue (s : Deferred) (f : Flushed) : Prop :=
  f.value ≠ -ETIMEDOUT → ∀ u < f.seen,
    (∃ r, PostedAs s u r) ∧ (u ∈ s.deferred → f.disturbed = false → ReturnedResult s f u)

structure DeferredInv (s : Deferred) : Prop where
  control : Control s
  settled : Settled s
  counts : Counts s
  posts : Posts s
  told : ∀ f ∈ s.flushes, f.seen ≤ s.returned ∧ TellsTrue s f

theorem deferredInv_init : DeferredInv eink_http_init := by
  have hidle : ¬ Unposted eink_http_init := by decide
  have hnone : ¬ Passed eink_http_init := by decide
  refine ⟨⟨?_, ?_, ?_, ?_, ?_⟩, ?_, ⟨?_, ?_, ?_, ?_, ?_, ?_⟩, ⟨?_, ?_, ?_⟩, ?_⟩
  · intro h
    cases h
  · rintro (h | h | h | h) <;> cases h
  · intro h
    cases h
  · intro _
    rfl
  · intro h
    exact absurd h hnone
  · intro h
    exact absurd h hnone
  · decide
  · intro h
    exact absurd (.inl h) hidle
  · exact Nat.le_refl 0
  · intro u hu
    cases hu
  · exact Nat.le_refl 0
  · intro h
    cases h
  · rintro (h | h | h | h) <;> cases h
  · intro u hu
    cases hu
  · intro _ h
    exact absurd rfl h
  · intro f hf
    cases hf

/-- A call that was not deferred before is not older than what has returned. -/
theorem deferred_act (h : Counts s) (e : TelemEvent) :
    s.returned ≤ (telem_act s e).returned ∧ ∀ u ∈ (telem_act s e).deferred, u ∈ s.deferred ∨ s.returned ≤ u := by
  have hcalls := h.calls
  cases e with
  | call telem =>
    unfold telem_act queue_deferred_telem
    grind -ring -linarith
  | queue ret =>
    unfold telem_act queue_step
    cases hq : s.queue <;> grind -ring -linarith [InCall, Refilling]
  | flush =>
    unfold telem_act eink_http_flush_deferred flush_return
    cases s.flush <;> grind -ring -linarith
  | timeout =>
    unfold telem_act flush_timeout flush_return
    grind -ring -linarith

/-- A flush that returns has passed or timed out. -/
theorem flushes_act (s : Deferred) (e : TelemEvent) : ∀ f ∈ (telem_act s e).flushes, f ∈ s.flushes ∨
    (s.flush = .passed ∧ f = ⟨s.seen, s.telem_job.result, s.refilled && decide (Unposted s)⟩) ∨
    (f.value = -ETIMEDOUT ∧ f.seen = s.seen) := by
  intro f hf
  cases e with
  | call telem =>
    unfold telem_act queue_deferred_telem at hf
    grind -ring -linarith
  | queue ret =>
    unfold telem_act queue_step at hf
    cases hq : s.queue <;> grind -ring -linarith
  | flush =>
    unfold telem_act eink_http_flush_deferred flush_return at hf
    cases hq : s.flush <;> grind -ring -linarith
  | timeout =>
    unfold telem_act flush_timeout flush_return at hf
    grind -ring -linarith

theorem TellsTrue.mono {s' : Deferred} {f : Flushed} (h : TellsTrue s f) (hposts : s.posts ⊆ s'.posts)
    (hcalls : s.calls <+: s'.calls) (hdeferred : ∀ u ∈ s'.deferred, u < f.seen → u ∈ s.deferred) : TellsTrue s' f := by
  intro hvalue u hu
  obtain ⟨⟨r, hr⟩, hresult⟩ := h hvalue u hu
  refine ⟨⟨r, hr.mono hposts hcalls⟩, fun hd hclean => ?_⟩
  obtain ⟨later, hle, hlater⟩ := hresult (hdeferred u hd hu) hclean
  exact ⟨later, hle, hlater.mono hposts hcalls⟩

/-- A flush that has passed and reads the result. -/
theorem tellsTrue_passed (h : DeferredInv s) (hpass : s.flush = .passed) :
    TellsTrue s ⟨s.seen, s.telem_job.result, s.refilled && decide (Unposted s)⟩ := by
  have hsettled := h.settled (.inl hpass)
  rintro - u hu
  constructor
  · rcases h.posts.before u (hu.trans_le h.counts.seen) with hposted | ⟨rfl, hout⟩
    · exact hposted
    · -- The job that is outstanding was queued after the flush had started.
      rcases hsettled with hrefilled | hdone
      · exact absurd (h.counts.refilled hrefilled) (Nat.not_le_of_lt hu)
      · exact absurd (.inr hout) hdone
  · intro hd hclean
    have hdone : ¬ Unposted s := by
      rcases hsettled with hrefilled | hdone
      · rw [hrefilled, Bool.true_and] at hclean
        exact of_decide_eq_false hclean
      · exact hdone
    exact ⟨s.job_call, (h.counts.deferred u hd).1, h.posts.result hdone (List.ne_nil_of_mem hd)⟩

theorem deferredInv_step (h : DeferredInv s) (e : TelemEvent) : DeferredInv (telem_step s e) := by
  obtain ⟨hcontrol, hsettled⟩ := control_step h.control h.settled e
  have hposts := posts_act h.posts h.control h.counts e
  obtain ⟨hgrow, hcalls⟩ := history_act s e
  obtain ⟨hreturned, hdeferred⟩ := deferred_act h.counts e
  -- `telem_step` differs from `telem_act` in `refilled` alone, which no post looks at.
  refine ⟨hcontrol, hsettled, counts_step h.counts e, ⟨hposts.content, hposts.before, hposts.result⟩, ?_⟩
  have hkept {f : Flushed} (hseen : f.seen ≤ s.returned) (hf : TellsTrue s f) : TellsTrue (telem_act s e) f := by
    refine hf.mono hgrow hcalls fun u hu hlt => ?_
    rcases hdeferred u hu with hold | hnew
    · exact hold
    · exact absurd (hlt.trans_le hseen) (Nat.not_lt_of_le hnew)
  intro f hf
  rcases flushes_act s e f hf with hold | ⟨hpass, rfl⟩ | ⟨hvalue, hseen⟩
  · obtain ⟨hseen, htrue⟩ := h.told f hold
    exact ⟨hseen.trans hreturned, hkept hseen htrue⟩
  · exact ⟨h.counts.seen.trans hreturned, hkept h.counts.seen (tellsTrue_passed h hpass)⟩
  · exact ⟨hseen ▸ h.counts.seen.trans hreturned, fun hne => absurd hvalue hne⟩

end

def FlushesTellTrue (s : Deferred) : Prop := ∀ f ∈ s.flushes, TellsTrue s f

/-- In every run of the two threads, each flush tells the truth. -/
theorem flush_tells_true (es : List TelemEvent) : FlushesTellTrue (run telem_step eink_http_init es) := by
  have hinv : DeferredInv (run telem_step eink_http_init es) :=
    run_inv DeferredInv deferredInv_init fun s e _ h => deferredInv_step h e
  intro f hf
  exact (hinv.told f hf).2

/-! ## Whose result it is -/

/-- A call that defers its telemetry. -/
def deferRun : List TelemEvent := .call .zero :: List.replicate 5 (.queue 0)

/-- A second call finds the first telemetry pending and posts its own, which fails; the first one is flushed. -/
def inlineRun : List TelemEvent :=
  deferRun ++ [.call .zero, .queue 0, .queue (-EIOERR), .flush, .flush, .flush] ++ List.replicate 4 (.queue 0) ++
    [.flush, .flush]

/-- The telemetry fails; a second call clears the job before the flush has read the result. -/
def refillRun : List TelemEvent :=
  deferRun ++ [.flush, .flush, .flush] ++ List.replicate 5 (.queue (-EIOERR)) ++ [.call .zero, .queue 0, .queue 0] ++
    [.flush, .flush]

theorem not_returnedResult {s : Deferred} {f : Flushed} {u : Nat}
    (h : ∀ p ∈ s.posts, u ≤ p.call → p.result ≠ f.value) : ¬ ReturnedResult s f u := by
  rintro ⟨later, hle, p, hp, rfl, hresult, -⟩
  exact h p hp hle hresult

/-- A flush may return 0 after a telemetry that was posted inline, or before it has read its result, has failed. -/
theorem flush_tells_other :
    (∃ f ∈ (run telem_step eink_http_init inlineRun).flushes, f.value ≠ -ETIMEDOUT ∧ 1 < f.seen ∧
      ¬ ReturnedResult (run telem_step eink_http_init inlineRun) f 1) ∧
    (∃ f ∈ (run telem_step eink_http_init refillRun).flushes, f.value ≠ -ETIMEDOUT ∧ 0 < f.seen ∧
      ¬ ReturnedResult (run telem_step eink_http_init refillRun) f 0) := by
  refine ⟨⟨⟨2, 0, false⟩, by decide +kernel, by decide, by decide, ?_⟩,
    ⟨⟨1, 0, true⟩, by decide +kernel, by decide, by decide, ?_⟩⟩
  · apply not_returnedResult
    decide +kernel
  · apply not_returnedResult
    decide +kernel

end EinkNode.Telem
