import EinkNode.Lib.Runs
import EinkNode.Lib.Semaphore
import EinkNode.T2000.Usb
import Mathlib.Logic.Function.Basic
/-!
# Completions of bulk transfers

`bulk_xfer` once more, in the single steps between which the host stack may run
`t2000_xfer_cb`. A call knows of its completion from one semaphore and one error
variable, which all transfers share, and a transfer that timed out still has its
callback to come.
-/

namespace EinkNode

open NodeLib

namespace T2000

/-- What the host leaves in a transfer: `xfer->err`, and what is in its buffer. -/
structure Completion where
  err : XferErr
  buf : Bytes
deriving DecidableEq

/-- How far a transfer is, from the enqueue on. -/
inductive Stage where
  /-- with the host -/
  | pending
  /-- done, and its callback is to come -/
  | completed (c : Completion)
  /-- in its callback, which has set `last_xfer_err` -/
  | written (c : Completion)
  /-- its callback has given the semaphore -/
  | given (c : Completion)
deriving DecidableEq

/-- Where the call is that holds `xfer_lock`, with the number of its transfer once that is enqueued. -/
inductive Phase where
  | unlocked
  | locked
  | allocated
  | emptied
  | cleared
  | enqueued (own : Nat)
  | waiting (own : Nat)
  | taken (own : Nat)
  | expired (own : Nat)
deriving DecidableEq

structure Bus where
  phase : Phase
  xfer_done : Sem
  last_xfer_err : XferErr
  /-- how many transfers have been enqueued -/
  next : Nat
  stage : Nat → Option Stage
  /-- the calls that returned, each with the transfer that it enqueued -/
  log : List (Option Nat × Met)

namespace Bus

def init : Bus := ⟨.unlocked, Sem.k_sem_init false, XferErr.none, 0, fun _ => none, []⟩

/-- The completion of a transfer, from when the host is done with it. -/
def completion (s : Bus) (id : Nat) : Option Completion :=
  match s.stage id with
  | some (.completed c) => some c
  | some (.written c) => some c
  | some (.given c) => some c
  | _ => none

/-- The callback has set `last_xfer_err`. -/
def written (s : Bus) (id : Nat) : Bool :=
  match s.stage id with
  | some (.written _) => true
  | some (.given _) => true
  | _ => false

/-- The callback has given the semaphore. -/
def given (s : Bus) (id : Nat) : Bool :=
  match s.stage id with
  | some (.given _) => true
  | _ => false

def staged (s : Bus) (id : Nat) (stage : Stage) : Nat → Option Stage := Function.update s.stage id (some stage)

/-- The call returns, and unlocks where it had the lock. -/
def return_ (s : Bus) (own : Option Nat) (m : Met) : Bus :=
  { s with phase := .unlocked, log := s.log ++ [(own, m)] }

end Bus

/-- The steps of the calls, and those of the host stack. -/
inductive Act where
  | no_device
  | lock
  | no_xfer
  | no_buf
  | alloc
  | sem_reset
  | clear
  | refuse (ret : { e : Int // e < 0 })
  | enqueue
  | take
  | wake
  | expire
  | dequeue
  /-- `so_far` is what a transfer has in its buffer when it is not complete -/
  | read (so_far : Bytes)
  | complete (id : Nat) (c : Completion)
  | write (id : Nat)
  | give (id : Nat)
deriving DecidableEq

def step (s : Bus) (a : Act) : Bus :=
  match a, s.phase with
  -- another call may hold the lock
  | .no_device, _ => { s with log := s.log ++ [(none, .no_device)] }
  | .lock, .unlocked => { s with phase := .locked }
  | .no_xfer, .locked => s.return_ none .no_xfer
  | .no_buf, .locked => s.return_ none .no_buf
  | .alloc, .locked => { s with phase := .allocated }
  | .sem_reset, .allocated => { s with phase := .emptied, xfer_done := s.xfer_done.k_sem_reset }
  | .clear, .emptied => { s with phase := .cleared, last_xfer_err := XferErr.none }
  | .refuse ret, .cleared => s.return_ none (.refused ret)
  | .enqueue, .cleared => { s with phase := .enqueued s.next, next := s.next + 1, stage := s.staged s.next .pending }
  | .take, .enqueued own => { s with phase := .waiting own, xfer_done := s.xfer_done.k_sem_take }
  | .wake, .waiting own =>
    if s.xfer_done.waiter = .woken then { s with phase := .taken own, xfer_done := s.xfer_done.returned } else s
  | .expire, .waiting own =>
    if s.xfer_done.waiter = .pended then { s with phase := .expired own, xfer_done := s.xfer_done.returned } else s
  | .dequeue, .expired own => s.return_ (some own) .timed_out
  | .read so_far, .taken own =>
    s.return_ (some own) (.done s.last_xfer_err (((s.completion own).map Completion.buf).getD so_far))
  | .complete id c, _ => if s.stage id = some .pending then { s with stage := s.staged id (.completed c) } else s
  | .write id, _ =>
    match s.stage id with
    | some (.completed c) => { s with stage := s.staged id (.written c), last_xfer_err := c.err }
    | _ => s
  | .give id, _ =>
    match s.stage id with
    | some (.written c) => { s with stage := s.staged id (.given c), xfer_done := s.xfer_done.k_sem_give }
    | _ => s
  | _, _ => s

/-- A call that enqueued a transfer, and did not time out, returned the error of this transfer, which
had completed. -/
def Own (s : Bus) : Prop :=
  ∀ id m, (some id, m) ∈ s.log → m.ret ≠ -ETIMEDOUT → ∃ c, s.completion id = some c ∧ m.ret = c.err.1

/-- The callback of another transfer gives the semaphore, after the reset and before the call's own
callback has, or sets the error, after the call's own callback did and before the call reads it. -/
def late (s : Bus) (a : Act) : Bool :=
  match a with
  | .give id =>
    (s.written id && !s.given id) &&
      match s.phase with
      | .emptied => true
      | .cleared => true
      | .enqueued own => id != own && !s.given own
      | .waiting own => id != own && !s.given own
      | _ => false
  | .write id =>
    ((s.completion id).isSome && !s.written id) &&
      match s.phase with
      | .enqueued own => id != own && s.written own
      | .waiting own => id != own && s.written own
      | .taken own => id != own
      | _ => false
  | _ => false

/-! ## What a step can do -/

/-- The steps that change something. -/
inductive Moves (s : Bus) : Act → Bus → Prop where
  | no_device : Moves s .no_device { s with log := s.log ++ [(none, .no_device)] }
  | lock (h : s.phase = .unlocked) : Moves s .lock { s with phase := .locked }
  | no_xfer (h : s.phase = .locked) : Moves s .no_xfer (s.return_ none .no_xfer)
  | no_buf (h : s.phase = .locked) : Moves s .no_buf (s.return_ none .no_buf)
  | alloc (h : s.phase = .locked) : Moves s .alloc { s with phase := .allocated }
  | sem_reset (h : s.phase = .allocated) :
    Moves s .sem_reset { s with phase := .emptied, xfer_done := s.xfer_done.k_sem_reset }
  | clear (h : s.phase = .emptied) :
    Moves s .clear { s with phase := .cleared, last_xfer_err := XferErr.none }
  | refuse {ret : { e : Int // e < 0 }} (h : s.phase = .cleared) :
    Moves s (.refuse ret) (s.return_ none (.refused ret))
  | enqueue (h : s.phase = .cleared) :
    Moves s .enqueue { s with phase := .enqueued s.next, next := s.next + 1, stage := s.staged s.next .pending }
  | take {own : Nat} (h : s.phase = .enqueued own) :
    Moves s .take { s with phase := .waiting own, xfer_done := s.xfer_done.k_sem_take }
  | wake {own : Nat} (h : s.phase = .waiting own) (hw : s.xfer_done.waiter = .woken) :
    Moves s .wake { s with phase := .taken own, xfer_done := s.xfer_done.returned }
  | expire {own : Nat} (h : s.phase = .waiting own) (hw : s.xfer_done.waiter = .pended) :
    Moves s .expire { s with phase := .expired own, xfer_done := s.xfer_done.returned }
  | dequeue {own : Nat} (h : s.phase = .expired own) : Moves s .dequeue (s.return_ (some own) .timed_out)
  | read {own : Nat} {so_far : Bytes} (h : s.phase = .taken own) :
    Moves s (.read so_far)
      (s.return_ (some own) (.done s.last_xfer_err (((s.completion own).map Completion.buf).getD so_far)))
  | complete {id : Nat} {c : Completion} (h : s.stage id = some .pending) :
    Moves s (.complete id c) { s with stage := s.staged id (.completed c) }
  | write {id : Nat} {c : Completion} (h : s.stage id = some (.completed c)) :
    Moves s (.write id) { s with stage := s.staged id (.written c), last_xfer_err := c.err }
  | give {id : Nat} {c : Completion} (h : s.stage id = some (.written c)) :
    Moves s (.give id) { s with stage := s.staged id (.given c), xfer_done := s.xfer_done.k_sem_give }

theorem step_cases (s : Bus) (a : Act) : step s a = s ∨ Moves s a (step s a) := by
  fun_cases step s a
  all_goals first
    | exact .inl rfl
    | exact .inr (by constructor <;> assumption)

section Stages

variable {s s' : Bus} {id i : Nat} {stage : Stage}

@[simp] theorem staged_self : s.staged id stage id = some stage := Function.update_self _ _ _

theorem staged_of_ne (h : i ≠ id) : s.staged id stage i = s.stage i := Function.update_of_ne h _ _

theorem given_congr (h : s'.stage i = s.stage i) : s'.given i = s.given i := by rw [Bus.given, Bus.given, h]

theorem written_congr (h : s'.stage i = s.stage i) : s'.written i = s.written i := by
  rw [Bus.written, Bus.written, h]

theorem completion_congr (h : s'.stage i = s.stage i) : s'.completion i = s.completion i := by
  rw [Bus.completion, Bus.completion, h]

theorem written_of_given (h : s.given i = true) : s.written i = true := by
  rw [Bus.given] at h
  split at h
  · next hstage => rw [Bus.written, hstage]
  · cases h

end Stages

/-! ## What holds of the call in progress -/

/-- Once its callback has set the error, the error is that of `own`. -/
def Told (s : Bus) (own : Nat) : Prop :=
  s.written own = true → ∃ c, s.completion own = some c ∧ s.last_xfer_err = c.err

/-- In each phase: a token is from the callback of the call's own transfer, and so is the error. -/
def Holds (s : Bus) : Prop :=
  match s.phase with
  | .emptied => s.xfer_done.waiter = .none ∧ s.xfer_done.count = false
  | .cleared => s.xfer_done.waiter = .none ∧ s.xfer_done.count = false
  | .enqueued own => s.xfer_done.waiter = .none ∧ (s.xfer_done.count = true → s.given own = true) ∧ Told s own
  | .waiting own => (s.xfer_done.waiter = .woken → s.given own = true) ∧ Told s own
  | .taken own => s.xfer_done.waiter = .none ∧ s.given own = true ∧ Told s own
  | _ => s.xfer_done.waiter = .none

/-- A callback that sets the error, or a completion, in a phase in which it is not late. -/
theorem Holds.advance {s s' : Bus} (h : Holds s) (hphase : s'.phase = s.phase) (hsem : s'.xfer_done = s.xfer_done)
    (hgiven : ∀ own, s.given own = true → s'.given own = true)
    (htold : ∀ own, s.phase = .enqueued own ∨ s.phase = .waiting own ∨ s.phase = .taken own →
      Told s own → Told s' own) : Holds s' := by
  rw [Holds] at h ⊢
  rw [hphase, hsem]
  cases hp : s.phase with
  | enqueued own =>
    rw [hp] at h
    exact ⟨h.1, fun hc => hgiven own (h.2.1 hc), htold own (.inl hp) h.2.2⟩
  | waiting own =>
    rw [hp] at h
    exact ⟨fun hw => hgiven own (h.1 hw), htold own (.inr (.inl hp)) h.2⟩
  | taken own =>
    rw [hp] at h
    exact ⟨h.1, hgiven own h.2.1, htold own (.inr (.inr hp)) h.2.2⟩
  | _ =>
    rw [hp] at h
    exact h

/-- A transfer that comes to a new stage had not given before, and the others still have. -/
theorem given_staged {s s' : Bus} {id own : Nat} {now stage : Stage} (hid : s.stage id = some now)
    (hnow : ∀ c, now ≠ .given c) (hs' : s'.stage = s.staged id stage) (h : s.given own = true) :
    s'.given own = true := by
  have hne : own ≠ id := by
    rintro rfl
    rw [Bus.given, hid] at h
    cases now with
    | given c => exact hnow c rfl
    | _ => cases h
  exact (given_congr ((congrFun hs' own).trans (staged_of_ne hne))).trans h

/-- The other transfers, when one is in a new stage. -/
theorem told_of_ne {s s' : Bus} {own : Nat} (hstage : s'.stage own = s.stage own)
    (herr : s.written own = true → s'.last_xfer_err = s.last_xfer_err) (h : Told s own) : Told s' own := by
  intro hwritten
  rw [written_congr hstage] at hwritten
  obtain ⟨c, hc, hown⟩ := h hwritten
  exact ⟨c, (completion_congr hstage).trans hc, (herr hwritten).trans hown⟩

theorem holds_complete {s : Bus} {id : Nat} {c : Completion} (hstage : s.stage id = some .pending) (h : Holds s) :
    Holds { s with stage := s.staged id (.completed c) } := by
  refine h.advance rfl rfl ?_ ?_
  · exact fun own => given_staged hstage (fun _ h => by cases h) rfl
  · intro own _ htold
    by_cases hid : own = id
    · intro hwritten
      simp [Bus.written, hid] at hwritten
    · exact told_of_ne (staged_of_ne hid) (fun _ => rfl) htold

theorem holds_write {s : Bus} {id : Nat} {c : Completion} (hstage : s.stage id = some (.completed c))
    (hlate : late s (.write id) = false) (h : Holds s) :
    Holds { s with stage := s.staged id (.written c), last_xfer_err := c.err } := by
  have hruns : ((s.completion id).isSome && !s.written id) = true := by
    rw [Bus.completion, Bus.written, hstage]
    rfl
  rw [late, hruns, Bool.true_and] at hlate
  refine h.advance rfl rfl ?_ ?_
  · exact fun own => given_staged hstage (fun _ h => by cases h) rfl
  · intro own hphase htold
    by_cases hid : own = id
    · intro _
      refine ⟨c, ?_, rfl⟩
      simp [Bus.completion, hid]
    · -- where the call's own callback has set the error already, this one would be late
      refine told_of_ne (staged_of_ne hid) (fun hown => absurd hlate ?_) htold
      have hid' : (id != own) = true := bne_iff_ne.2 (Ne.symm hid)
      rcases hphase with hp | hp | hp <;> rw [hp] <;> simp [hid', hown]

theorem not_late_iff {id own : Nat} {g : Bool} : (id != own && !g) = false ↔ id = own ∨ g = true := by
  rw [Bool.and_eq_false_iff, bne_eq_false_iff_eq, Bool.not_eq_false']

theorem holds_give {s : Bus} {id : Nat} {c : Completion} (hstage : s.stage id = some (.written c))
    (hlate : late s (.give id) = false) (h : Holds s) :
    Holds { s with stage := s.staged id (.given c), xfer_done := s.xfer_done.k_sem_give } := by
  have hruns : (s.written id && !s.given id) = true := by
    rw [Bus.given, Bus.written, hstage]
    rfl
  rw [late, hruns, Bool.true_and] at hlate
  obtain ⟨s', hs'⟩ : ∃ s' : Bus, s' = { s with stage := s.staged id (.given c), xfer_done := s.xfer_done.k_sem_give } :=
    ⟨_, rfl⟩
  have hnow : s'.stage id = some (.given c) := by rw [hs']; exact staged_self
  have hrest : ∀ own, own ≠ id → s'.stage own = s.stage own := by rw [hs']; exact fun own => staged_of_ne
  have hgiven : ∀ own, id = own ∨ s.given own = true → s'.given own = true := by
    intro own hown
    by_cases hid : own = id
    · rw [Bus.given, hid, hnow]
    · rw [given_congr (hrest own hid)]
      exact hown.resolve_left (Ne.symm hid)
  have htold : ∀ own, Told s own → Told s' own := by
    intro own hown
    by_cases hid : own = id
    · subst hid
      obtain ⟨c', hc', herr⟩ := hown (by rw [Bus.written, hstage])
      rw [Bus.completion, hstage] at hc'
      refine fun _ => ⟨c, by rw [Bus.completion, hnow], ?_⟩
      rw [hs', Option.some.inj hc']
      exact herr
    · exact told_of_ne (hrest own hid) (fun _ => by rw [hs']) hown
  have hwaiter : s.xfer_done.waiter = .none → s.xfer_done.k_sem_give.waiter = .none := by
    intro hw
    rw [Sem.k_sem_give, if_neg (by rw [hw]; decide)]
    exact hw
  rw [← hs']
  have hphase : s'.phase = s.phase := by rw [hs']
  have hsem : s'.xfer_done = s.xfer_done.k_sem_give := by rw [hs']
  rw [Holds] at h ⊢
  rw [hphase, hsem]
  cases hp : s.phase with
  | emptied =>
    rw [hp] at hlate
    cases hlate
  | cleared =>
    rw [hp] at hlate
    cases hlate
  | enqueued own =>
    rw [hp] at h hlate
    exact ⟨hwaiter h.1, fun _ => hgiven own (not_late_iff.1 hlate), htold own h.2.2⟩
  | waiting own =>
    rw [hp] at h hlate
    exact ⟨fun _ => hgiven own (not_late_iff.1 hlate), htold own h.2⟩
  | taken own =>
    rw [hp] at h
    exact ⟨hwaiter h.1, hgiven own (.inr h.2.1), htold own h.2.2⟩
  | _ =>
    rw [hp] at h
    exact hwaiter h

/-- A step keeps it, unless it is a late one. -/
theorem holds_step {s : Bus} {a : Act} (hlate : late s a = false) (h : Holds s) : Holds (step s a) := by
  rcases step_cases s a with hsame | hmoves
  · rwa [hsame]
  · generalize step s a = s' at hmoves
    cases hmoves with
    | no_device => exact h
    | lock hp | no_xfer hp | no_buf hp | alloc hp | clear hp | dequeue hp =>
      rw [Holds, hp] at h
      exact h
    | refuse hp | read hp =>
      rw [Holds, hp] at h
      exact h.1
    | sem_reset hp =>
      rw [Holds, hp] at h
      exact ⟨by simp only [Sem.k_sem_reset, h]; rfl, rfl⟩
    | enqueue hp =>
      rw [Holds, hp] at h
      refine ⟨h.1, fun hc => ?_, fun hwritten => ?_⟩
      · exact absurd hc (by rw [h.2]; decide)
      · simp [Bus.written] at hwritten
    | take hp =>
      rw [Holds, hp] at h
      refine ⟨fun hw => h.2.1 ?_, h.2.2⟩
      simpa [Sem.k_sem_take] using hw
    | wake hp hw =>
      rw [Holds, hp] at h
      exact ⟨rfl, h.1 hw, h.2⟩
    | expire => exact rfl
    | complete hstage => exact holds_complete hstage h
    | write hstage => exact holds_write hstage hlate h
    | give hstage => exact holds_give hstage hlate h

/-! ## What the calls returned -/

/-- Only transfers that were enqueued have a stage. -/
def Fresh (s : Bus) : Prop := ∀ id, s.next ≤ id → s.stage id = none

theorem Fresh.staged {s : Bus} (h : Fresh s) {id : Nat} {now stage : Stage} (hid : s.stage id = some now) :
    ∀ i, s.next ≤ i → s.staged id stage i = none := by
  intro i hi
  have hne : i ≠ id := by
    rintro rfl
    rw [h i hi] at hid
    cases hid
  exact (staged_of_ne hne).trans (h i hi)

theorem fresh_step {s : Bus} (a : Act) (h : Fresh s) : Fresh (step s a) := by
  rcases step_cases s a with hsame | hmoves
  · rwa [hsame]
  · generalize step s a = s' at hmoves
    cases hmoves with
    | enqueue =>
      intro i hi
      have hi' : s.next + 1 ≤ i := hi
      exact (staged_of_ne (by omega)).trans (h i (by omega))
    | complete hstage => exact h.staged hstage
    | write hstage => exact h.staged hstage
    | give hstage => exact h.staged hstage
    | _ => exact h

theorem completion_staged {s s' : Bus} {k id : Nat} {stage : Stage} {c : Completion}
    (hstage : s'.stage = s.staged k stage) (hkeep : s.completion k = some c → s'.completion k = some c)
    (hc : s.completion id = some c) : s'.completion id = some c := by
  by_cases hid : id = k
  · rw [hid] at hc ⊢
    exact hkeep hc
  · exact (completion_congr ((congrFun hstage id).trans (staged_of_ne hid))).trans hc

/-- A transfer that is complete stays so, with what it has. -/
theorem completion_step {s : Bus} (a : Act) (h : Fresh s) {id : Nat} {c : Completion} (hc : s.completion id = some c) :
    (step s a).completion id = some c := by
  rcases step_cases s a with hsame | hmoves
  · rwa [hsame]
  · generalize step s a = s' at hmoves
    cases hmoves with
    | enqueue =>
      refine completion_staged rfl (fun hnext => ?_) hc
      rw [Bus.completion, h s.next (Nat.le_refl _)] at hnext
      cases hnext
    | complete hstage =>
      refine completion_staged rfl (fun hpending => ?_) hc
      rw [Bus.completion, hstage] at hpending
      cases hpending
    | write hstage =>
      refine completion_staged rfl (fun hdone => ?_) hc
      rw [Bus.completion, hstage] at hdone
      simpa [Bus.completion] using hdone
    | give hstage =>
      refine completion_staged rfl (fun hdone => ?_) hc
      rw [Bus.completion, hstage] at hdone
      simpa [Bus.completion] using hdone
    | _ => exact hc

/-- What a call met that enqueued a transfer: no completion in time, or that of its transfer, with its bytes. -/
def Faithful (s : Bus) : Prop :=
  ∀ id m, (some id, m) ∈ s.log → m = .timed_out ∨ ∃ c, s.completion id = some c ∧ m = .done c.err c.buf

theorem Faithful.own {s : Bus} (h : Faithful s) : Own s := by
  intro id m hm hret
  rcases h id m hm with rfl | ⟨c, hc, rfl⟩
  · exact absurd rfl hret
  · exact ⟨c, hc, rfl⟩

/-- A call that returns adds itself to the log. -/
theorem Faithful.log {s s' : Bus} (h : Faithful s)
    (hkeep : ∀ id c, s.completion id = some c → s'.completion id = some c)
    (hlog : ∀ id m, (some id, m) ∈ s'.log → (some id, m) ∈ s.log ∨ m = .timed_out ∨
      ∃ c, s.completion id = some c ∧ m = .done c.err c.buf) : Faithful s' := by
  intro id m hm
  rcases hlog id m hm with hold | htimeout | ⟨c, hc, hown⟩
  · rcases h id m hold with htimeout | ⟨c, hc, hown⟩
    · exact .inl htimeout
    · exact .inr ⟨c, hkeep id c hc, hown⟩
  · exact .inl htimeout
  · exact .inr ⟨c, hkeep id c hc, hown⟩

theorem mem_log_concat {log : List (Option Nat × Met)} {own : Option Nat} {m' : Met} {id : Nat} {m : Met}
    (h : (some id, m) ∈ log ++ [(own, m')]) : (some id, m) ∈ log ∨ own = some id ∧ m = m' := by
  rcases List.mem_append.1 h with h | h
  · exact .inl h
  · cases List.mem_singleton.1 h
    exact .inr ⟨rfl, rfl⟩

theorem faithful_step {s : Bus} (a : Act) (hfresh : Fresh s) (hholds : Holds s) (h : Faithful s) :
    Faithful (step s a) := by
  refine h.log (fun id c => completion_step a hfresh) ?_
  rcases step_cases s a with hsame | hmoves
  · rw [hsame]
    exact fun id m hm => .inl hm
  · generalize step s a = s' at hmoves
    intro id m hm
    cases hmoves with
    | no_device | no_xfer | no_buf | refuse =>
      exact .inl ((mem_log_concat hm).resolve_right fun hnew => by cases hnew.1)
    | dequeue =>
      rcases mem_log_concat hm with hold | ⟨-, rfl⟩
      · exact .inl hold
      · exact .inr (.inl rfl)
    | read hp =>
      rcases mem_log_concat hm with hold | ⟨hid, rfl⟩
      · exact .inl hold
      · cases hid
        rw [Holds, hp] at hholds
        obtain ⟨c, hc, herr⟩ := hholds.2.2 (written_of_given hholds.2.1)
        exact .inr (.inr ⟨c, hc, by rw [hc, herr]; rfl⟩)
    | _ => exact .inl hm

structure Inv (s : Bus) : Prop where
  fresh : Fresh s
  holds : Holds s
  faithful : Faithful s

theorem inv_init : Inv Bus.init := ⟨fun _ _ => rfl, rfl, fun _ _ hm => by cases hm⟩

theorem inv_step {s : Bus} {a : Act} (hlate : late s a = false) (h : Inv s) : Inv (step s a) :=
  ⟨fresh_step a h.fresh, holds_step hlate h.holds, faithful_step a h.fresh h.holds h.faithful⟩

/-- In a run without late callbacks, a call meets the completion of its own transfer, as `bulk_xfer` has it. -/
theorem faithful_run {acts : List Act} (h : Meets step (fun s a => late s a = false) Bus.init acts) :
    Faithful (run step Bus.init acts) :=
  (run_inv_of_meets Inv inv_init h fun _ _ _ hlate => inv_step hlate).faithful

/-- In a run without late callbacks, every call that does not time out returns the error of its own
transfer, after this completed. -/
theorem own_completion {acts : List Act} (h : Meets step (fun s a => late s a = false) Bus.init acts) :
    Own (run step Bus.init acts) :=
  (faithful_run h).own

/-- A late give wakes the waiting call up, which returns whatever the error then is, while its own
transfer is still with the host. -/
theorem late_give_taken {s : Bus} {id own : Nat} {c : Completion} (hphase : s.phase = .waiting own)
    (hw : s.xfer_done.waiter = .pended) (hown : s.stage own = some .pending) (hid : s.stage id = some (.written c))
    (hret : s.last_xfer_err.1 ≠ -ETIMEDOUT) (so_far : Bytes) :
    ¬ Own (run step s [.give id, .wake, .read so_far]) := by
  have hne : own ≠ id := by
    rintro rfl
    rw [hown] at hid
    cases hid
  have hgive : step s (.give id) =
      { s with stage := s.staged id (.given c), xfer_done := { s.xfer_done with waiter := .woken } } := by
    simp only [step, hid, Sem.k_sem_give, if_pos hw]
  have hwake : step (step s (.give id)) .wake =
      { s with
        phase := .taken own, stage := s.staged id (.given c),
        xfer_done := ({ s.xfer_done with waiter := .woken } : Sem).returned } := by
    rw [hgive]
    simp only [step, hphase, if_true]
  have hpending : (s.staged id (.given c)) own = some .pending := (staged_of_ne hne).trans hown
  intro h
  rw [run_cons, run_cons, hwake] at h
  obtain ⟨c', hc', -⟩ := h own _ (List.mem_append_right _ (List.mem_singleton_self _)) hret
  change Bus.completion { s with stage := s.staged id (.given c) } own = some c' at hc'
  simp [Bus.completion, hpending] at hc'

/-- A late write takes the place of the error that the call was told. -/
theorem late_write_taken {s : Bus} {id own : Nat} {c c' : Completion} (hphase : s.phase = .taken own)
    (hown : s.stage own = some (.given c)) (hid : s.stage id = some (.completed c')) (herr : c'.err.1 ≠ c.err.1)
    (hret : c'.err.1 ≠ -ETIMEDOUT) (so_far : Bytes) : ¬ Own (run step s [.write id, .read so_far]) := by
  have hne : own ≠ id := by
    rintro rfl
    rw [hown] at hid
    cases hid
  have hwrite : step s (.write id) = { s with stage := s.staged id (.written c'), last_xfer_err := c'.err } := by
    simp only [step, hid]
  have hgiven : (s.staged id (.written c')) own = some (.given c) := (staged_of_ne hne).trans hown
  intro h
  rw [run_cons, run_cons, hwrite, run_nil] at h
  simp only [step, hphase] at h
  obtain ⟨c1, hc1, hown1⟩ := h own _ (List.mem_append_right _ (List.mem_singleton_self _)) hret
  change Bus.completion { s with stage := s.staged id (.written c') } own = some c1 at hc1
  simp only [Bus.completion, hgiven, Option.some.injEq] at hc1
  rw [← hc1] at hown1
  exact herr hown1

/-- Two calls, the first of which times out; its transfer is cancelled in good time. -/
def in_time : List Act :=
  [.lock, .alloc, .sem_reset, .clear, .enqueue, .take, .expire, .dequeue,
    .complete 0 ⟨⟨-ECONNRESET, by decide⟩, []⟩, .write 0, .give 0,
    .lock, .alloc, .sem_reset, .clear, .enqueue, .take,
    .complete 1 ⟨XferErr.none, [7]⟩, .write 1, .give 1, .wake, .read []]

theorem own_completion_in_time : Own (run step Bus.init in_time) := own_completion (by decide)

/-- The same two calls, where the callback of the cancelled transfer comes during the second. -/
def too_late : List Act :=
  [.lock, .alloc, .sem_reset, .clear, .enqueue, .take, .expire, .dequeue,
    .lock, .alloc, .sem_reset, .clear, .enqueue, .take,
    .complete 0 ⟨⟨-ECONNRESET, by decide⟩, []⟩, .write 0, .give 0, .wake, .read []]

/-- The second call returns the error of the first one's transfer, while its own is still pending. -/
theorem late_callback_taken : ¬ Own (run step Bus.init too_late) := by
  intro h
  have hret : ((some 1, .done ⟨-ECONNRESET, by decide⟩ []) : Option Nat × Met) ∈ (run step Bus.init too_late).log := by
    decide
  have hpending : (run step Bus.init too_late).completion 1 = none := by decide
  obtain ⟨c, hc, -⟩ := h 1 _ hret (by decide)
  rw [hpending] at hc
  cases hc

end T2000

end EinkNode
