import EinkNode.Display.Orders
import EinkNode.Scheduler.Service
/-!
# Waiting for the panel

`show_job_locked_copy` in a build that waits: the scheduler's thread queues its
command, waits on the display's semaphore and reads the status, each in a step
of its own between those of the worker and of other clients. We ask when the
result that it reads is the one of its own command.
-/
open NodeLib EinkNode.Display

namespace EinkNode.Scheduler

/-- Where the thread is. `n` is the number of commands accepted before its own. -/
inductive Thread where
  | idle
  | queued (job : Job) (advance_state : Bool) (n : Nat)
  | waiting (job : Job) (advance_state : Bool) (n : Nat)
  | checked (job : Job) (advance_state : Bool) (n : Nat) (last_result : Int)
deriving DecidableEq

/-- The display, the thread and the scheduler's statics. -/
structure System where
  display : Traced
  thread : Thread
  st : State

inductive Action where
  /-- A step of the worker or of any other client. -/
  | other (e : Display.Event)
  /-- `eink_display_show_path`, for a job whose image is at `path`. -/
  | show_path (job : Job) (advance_state : Bool) (path : Bytes)
  /-- `k_sem_take` of `eink_display_wait_idle`. -/
  | wait
  /-- It returns an error: the semaphore was reset, or two minutes are over. -/
  | give_up
  /-- It returns 0, and `eink_display_get_status` follows. -/
  | get_status
  /-- The rest of `show_job_locked_copy`. -/
  | finish

/-- What the thread was answered when it comes to the end. -/
def answered (last_result : Int) : ShowAnswers := ⟨0, true, 0, 0, last_result⟩

def with_sem (t : Traced) (f : Sem → Sem) : Traced :=
  { t with service := { t.service with eink_idle_sem := f t.service.eink_idle_sem } }

variable (full_framebuffer : Bool)

def show_call (job : Job) (path : Bytes) : Display.Call := .show_path (some path) (some job.job_id.val)

/-- An action that the thread is not ready for changes nothing. -/
def act (s : System) : Action → System
  | .other e => { s with display := Display.step full_framebuffer s.display e }
  | .show_path job advance_state path =>
    if s.thread = .idle then
      { s with
        display := Display.step full_framebuffer s.display (.call (show_call job path))
        thread :=
          if (Display.call full_framebuffer s.display.service (show_call job path)).1 = 0 then
            .queued job advance_state s.display.accepted.length
          else .idle }
    else s
  | .wait =>
    match s.thread with
    | .queued job advance_state n =>
      { s with display := with_sem s.display Sem.k_sem_take, thread := .waiting job advance_state n }
    | _ => s
  | .give_up =>
    match s.thread with
    | .waiting _ _ _ =>
      if s.display.service.eink_idle_sem.waiter = .woken then s
      else { s with display := with_sem s.display Sem.returned, thread := .idle }
    | _ => s
  | .get_status =>
    match s.thread with
    | .waiting job advance_state n =>
      if s.display.service.eink_idle_sem.waiter = .woken then
        { s with
          display := with_sem s.display Sem.returned
          thread := .checked job advance_state n s.display.service.status.last_result }
      else s
    | _ => s
  | .finish =>
    match s.thread with
    | .checked job advance_state _ last_result =>
      { s with thread := .idle, st := (show_job_locked_copy false s.st job advance_state (answered last_result)).2 }
    | _ => s

def boot : System := ⟨Display.start, .idle, .reset⟩

/-- Whatever `last_job` was, the end of `show_job_locked_copy` leaves the job's id in it. -/
def SetsLastJob (job : Job) (advance_state : Bool) (last_result : Int) : Prop :=
  ∀ st, (show_job_locked_copy false st job advance_state (answered last_result)).2.last_job = .copy _ job.job_id.val

/-- If the thread is about to set `last_job`, its own command has completed with result 0. -/
def AdvancesOnOwn (s : System) : Action → Prop
  | .finish => ∀ job advance_state n last_result, s.thread = .checked job advance_state n last_result →
      SetsLastJob job advance_state last_result → s.display.results[n]? = some 0
  | _ => True

/-- The command whose status the thread, about to set `last_job`, has yet to
read, unless its wait was aborted. -/
def awaited (s : System) : Option Nat :=
  match s.thread with
  | .queued _ true n => some n
  | .waiting _ true n => if s.display.service.eink_idle_sem.waiter = .aborted then none else some n
  | _ => none

/-- The thread's command is not accepted between the publication of a success
and the give that belongs to it; and no success is published while the thread
has yet to read the status of its own command, which has failed. -/
def NotMixedUp (s : System) : Action → Prop
  | .show_path _ true _ => s.thread = .idle → eink_display_is_busy s.display.service = false →
      s.display.service.worker = .published → s.display.service.status.last_result ≠ 0
  | .other (.work _) => ∀ n ∈ awaited s, ∀ r ∈ s.display.results[n]?,
      0 ∈ publishing s.display.service → r = 0
  | _ => True

/-! ## What the thread may be told -/

/-- A signal that has come, or is about to, for a command that has not completed
goes with an error; so does the status once the command has failed. -/
def Sound (d : Service) (results : List Int) (n : Nat) : Prop :=
  match results[n]? with
  | none => d.eink_idle_sem.Signalled ∨ d.worker = .published → d.status.last_result ≠ 0
  | some r => r = 0 ∨ d.status.last_result ≠ 0

structure Safe (s : System) : Prop where
  inv : Display.Inv s.display
  own : ∀ n ∈ awaited s, n < s.display.accepted.length ∧ Sound s.display.service s.display.results n
  idle : (∀ job adv n, s.thread ≠ .waiting job adv n) → s.display.service.eink_idle_sem.waiter = .none
  checked : ∀ job n r, s.thread = .checked job true n r → r = 0 → s.display.results[n]? = some 0

/-- `last_job` is set on the result 0 only. -/
theorem setsLastJob_iff (job : Job) (advance_state : Bool) (last_result : Int) :
    SetsLastJob job advance_state last_result ↔ advance_state = true ∧ last_result = 0 := by
  constructor
  · intro h
    -- A state that has some other job.
    obtain ⟨st, hne⟩ : ∃ st : State, st.last_job ≠ .copy _ job.job_id.val := by
      by_cases hid : (.copy _ job.job_id.val : Id) = .empty _
      · exact ⟨⟨.empty, .copy _ (ascii "x")⟩, by rw [hid]; decide⟩
      · exact ⟨⟨.empty, .empty _⟩, fun h => hid h.symm⟩
    have hst := h st
    cases advance_state with
    | false =>
      refine absurd ?_ hne
      rw [← hst]
      by_cases hr : last_result = 0 <;> simp [show_job_locked_copy, answered, hr]
    | true =>
      refine ⟨rfl, Decidable.byContradiction fun hr => hne ?_⟩
      simpa [show_job_locked_copy, answered, hr] using hst
  · rintro ⟨rfl, rfl⟩ st
    rfl

theorem inv_with_sem {t : Traced} (f : Sem → Sem) (h : Display.Inv t) : Display.Inv (with_sem t f) := by
  obtain ⟨h1, h2, h3, h4, h5, h6, h7, h8, h9⟩ := h
  exact ⟨h1, h2, h3, h4, h5, h6, h7, h8, h9⟩

section
variable {full_framebuffer} {d : Service} {results : List Int} {n : Nat}

/-- A command that signals nothing new and keeps the last result. -/
theorem Sound.mono {d' : Service} (h : Sound d results n)
    (hsignal : d'.eink_idle_sem.Signalled ∨ d'.worker = .published → d.eink_idle_sem.Signalled ∨ d.worker = .published)
    (hlast : d'.status.last_result = d.status.last_result) : Sound d' results n := by
  unfold Sound at h ⊢
  rw [hlast]
  cases hr : results[n]? with
  | none =>
    rw [hr] at h
    exact fun hs => h (hsignal hs)
  | some r =>
    rw [hr] at h
    exact h

theorem sound_call (c : Display.Call) (h : Sound d results n) :
    Sound (Display.call full_framebuffer d c).2 results n := by
  rcases call_cases full_framebuffer d c with ⟨-, hsame, -⟩ | ⟨hcall, -, -⟩
  · rw [hsame]
    exact h
  · rw [hcall]
    exact h.mono (Or.imp_left Sem.signalled_of_reset) rfl

theorem sound_submit (h : Sound d results n) : Sound (submit d) results n := by
  unfold submit
  split
  · exact h
  · exact h.mono id rfl

theorem last_result_record_job (s : Status) (cmd : Cmd) (ret : Int) :
    (record_job s cmd ret).last_result = s.last_result := by
  unfold record_job
  split <;> rfl

/-- A step of the worker: publishing is where a success can be taken for another's. -/
theorem sound_work {t : Traced} (hinv : Display.Inv t) (ret : Int) (hn : n < t.accepted.length)
    (hmix : ∀ r ∈ t.results[n]?, 0 ∈ publishing t.service → r = 0) (h : Sound t.service t.results n) :
    Sound (eink_work_handler t.service ret) (t.results ++ publishing t.service) n := by
  cases hw : t.service.worker with
  | idle =>
    simp only [eink_work_handler, publishing, hw, List.append_nil]
    split
    · exact h.mono (by simp [hw]) rfl
    · exact h
  | started =>
    simp only [eink_work_handler, publishing, hw, List.append_nil]
    split
    · exact h.mono (by simp [hw]) rfl
    · exact h.mono (by simp [hw]) rfl
  | running cmd =>
    simp only [eink_work_handler, publishing, hw, List.append_nil]
    exact h.mono (by simp [hw]) rfl
  | finished cmd r =>
    simp only [eink_work_handler, publishing, hw, List.append_nil]
    exact h.mono (by simp [hw]) rfl
  | released cmd r =>
    simp only [eink_work_handler, publishing, hw, List.append_nil]
    exact h.mono (by simp [hw]) (last_result_record_job _ _ _)
  | recorded cmd r =>
    simp only [eink_work_handler, publishing, hw, List.mem_singleton] at hmix ⊢
    unfold Sound at h ⊢
    simp only [set_idle]
    cases hq : t.results[n]? with
    | none =>
      -- The thread's own command is the one that completes.
      obtain ⟨-, pre, c, hpre, -, hlen⟩ := hinv.last_call cmd (by rw [hw]; rfl)
      have hle := List.getElem?_eq_none_iff.1 hq
      rw [hpre, List.length_append, List.length_singleton, hlen] at hn
      obtain rfl : n = t.results.length := by omega
      rw [List.getElem?_concat_length]
      exact Decidable.em (r = 0)
    | some q =>
      have hlt := (List.getElem?_eq_some_iff.1 hq).1
      rw [List.getElem?_append_left hlt, hq]
      exact (Decidable.em (r = 0)).imp (fun hr => hmix q hq hr.symm) id
  | published =>
    simp only [eink_work_handler, publishing, hw, List.append_nil]
    refine h.mono (fun _ => .inr hw) rfl

end

/-! ## The thread -/

variable {full_framebuffer} {s : System}

theorem safe_boot : Safe boot where
  inv := inv_start
  own := nofun
  idle _ := rfl
  checked := nofun

variable (full_framebuffer) in
/-- A reset or a give does not start a wait, and an aborted wait stays aborted. -/
theorem waiter_of_step (t : Traced) (e : Display.Event) :
    (t.service.eink_idle_sem.waiter = .none →
      (Display.step full_framebuffer t e).service.eink_idle_sem.waiter = .none) ∧
    (t.service.eink_idle_sem.waiter = .aborted →
      (Display.step full_framebuffer t e).service.eink_idle_sem.waiter = .aborted) := by
  have hreset (s : Sem) : (s.waiter = .none → s.k_sem_reset.waiter = .none) ∧
      (s.waiter = .aborted → s.k_sem_reset.waiter = .aborted) :=
    ⟨fun h => by simp [Sem.k_sem_reset, h], fun h => by simp [Sem.k_sem_reset, h]⟩
  have hgive (s : Sem) : (s.waiter = .none → s.k_sem_give.waiter = .none) ∧
      (s.waiter = .aborted → s.k_sem_give.waiter = .aborted) :=
    ⟨fun h => by simp [Sem.k_sem_give, h], fun h => by simp [Sem.k_sem_give, h]⟩
  cases e with
  | call c =>
    simp only [Display.step]
    rcases call_cases full_framebuffer t.service c with ⟨-, hsame, -⟩ | ⟨hcall, -, -⟩
    · rw [hsame]
      exact ⟨id, id⟩
    · rw [hcall]
      exact hreset _
  | submit =>
    simp only [Display.step, submit]
    split <;> exact ⟨id, id⟩
  | work ret =>
    simp only [Display.step, eink_work_handler]
    split
    · split <;> exact ⟨id, id⟩
    · split <;> exact ⟨id, id⟩
    · exact ⟨id, id⟩
    · exact ⟨id, id⟩
    · exact ⟨id, id⟩
    · exact ⟨id, id⟩
    · exact hgive _

variable (full_framebuffer) in
/-- Results and accepted calls are only added to. -/
theorem history_of_step (t : Traced) (e : Display.Event) {n : Nat} :
    (∀ r, t.results[n]? = some r → (Display.step full_framebuffer t e).results[n]? = some r) ∧
      t.accepted.length ≤ (Display.step full_framebuffer t e).accepted.length := by
  cases e with
  | call c =>
    refine ⟨fun _ h => h, ?_⟩
    simp only [Display.step]
    split
    · rw [List.length_append]
      exact Nat.le_add_right _ _
    · exact Nat.le_refl _
  | submit => exact ⟨fun _ h => h, Nat.le_refl _⟩
  | work ret =>
    refine ⟨fun r h => ?_, Nat.le_refl _⟩
    simp only [Display.step]
    rw [List.getElem?_append_left (List.getElem?_eq_some_iff.1 h).1]
    exact h

theorem safe_other (e : Display.Event) (hmix : NotMixedUp s (.other e)) (h : Safe s) :
    Safe (act full_framebuffer s (.other e)) := by
  obtain ⟨hnone, haborted⟩ := waiter_of_step full_framebuffer s.display e
  refine ⟨inv_step full_framebuffer e h.inv, ?_, fun hw => hnone (h.idle hw), fun job n r hc hr => ?_⟩
  · intro n hn
    have hn' : n ∈ awaited s := by
      cases ht : s.thread with
      | idle => simp [act, awaited, ht] at hn
      | queued job adv m =>
        cases adv with
        | false => simp [act, awaited, ht] at hn
        | true => simpa [act, awaited, ht] using hn
      | waiting job adv m =>
        cases adv with
        | false => simp [act, awaited, ht] at hn
        | true =>
          simp only [act, awaited, ht] at hn ⊢
          split at hn
          · cases hn
          · next hna =>
            rw [if_neg fun ha => hna (haborted ha)]
            exact hn
      | checked job adv m r => simp [act, awaited, ht] at hn
    obtain ⟨hlt, hsound⟩ := h.own n hn'
    refine ⟨Nat.lt_of_lt_of_le hlt (history_of_step full_framebuffer (n := n) s.display e).2, ?_⟩
    cases e with
    | call c => exact sound_call c hsound
    | submit => exact sound_submit hsound
    | work ret => exact sound_work h.inv ret hlt (fun r hr hz => hmix n hn' r hr hz) hsound
  · exact (history_of_step full_framebuffer s.display e).1 0 (h.checked job n r hc hr)

theorem safe_show (job : Job) (adv : Bool) (path : Bytes) (hmix : NotMixedUp s (.show_path job adv path)) (h : Safe s) :
    Safe (act full_framebuffer s (.show_path job adv path)) := by
  by_cases hidle : s.thread = .idle
  · have hwaiter := h.idle (by simp [hidle])
    simp only [act, hidle, if_true]
    have hinv := inv_step full_framebuffer (.call (show_call job path)) h.inv
    rcases call_cases full_framebuffer s.display.service (show_call job path) with
      ⟨hret, hsame, -⟩ | ⟨hcall, -, hb⟩
    · rw [if_neg hret]
      refine ⟨hinv, nofun, fun _ => ?_, nofun⟩
      simp only [Display.step, hsame]
      exact hwaiter
    · have hret : (Display.call full_framebuffer s.display.service (show_call job path)).1 = 0 := by rw [hcall]
      rw [if_pos hret]
      refine ⟨hinv, ?_, fun _ => ?_, ?_⟩
      · intro n hn
        cases adv with
        | false => cases hn
        | true =>
          cases hn
          simp only [Display.step, hcall, if_true]
          refine ⟨by simp, ?_⟩
          -- The command has no result yet, and the reset has taken every token.
          have hnone : s.display.results[s.display.accepted.length]? = none := by
            have hlen := h.inv.length_accepted
            exact List.getElem?_eq_none_iff.2 (by omega)
          unfold Sound
          rw [hnone]
          rintro (hs | hw)
          · exact absurd hs (Sem.not_signalled_reset hwaiter)
          · exact hmix hidle hb hw
      · simp only [Display.step, hcall]
        simp [place, accept, Sem.k_sem_reset, hwaiter]
      · intro job' n r hthread
        cases hthread
  · simp only [act, if_neg hidle]
    exact h

theorem safe_wait (h : Safe s) : Safe (act full_framebuffer s .wait) := by
  cases ht : s.thread with
  | idle => simpa only [act, ht] using h
  | queued job adv n =>
    simp only [act, ht]
    refine ⟨inv_with_sem _ h.inv, ?_, fun hw => absurd rfl (hw job adv n), nofun⟩
    intro m hm
    cases adv with
    | false => cases hm
    | true =>
      obtain ⟨hlt, hsound⟩ := h.own n (by simp [awaited, ht])
      simp only [awaited] at hm
      split at hm
      · cases hm
      · cases hm
        exact ⟨hlt, hsound.mono (Or.imp_left Sem.signalled_of_take) rfl⟩
  | waiting job adv n => simpa only [act, ht] using h
  | checked job adv n r => simpa only [act, ht] using h

theorem safe_give_up (h : Safe s) : Safe (act full_framebuffer s .give_up) := by
  cases ht : s.thread with
  | idle => simpa only [act, ht] using h
  | queued job adv n => simpa only [act, ht] using h
  | waiting job adv n =>
    simp only [act, ht]
    split
    · exact h
    · exact ⟨inv_with_sem _ h.inv, nofun, fun _ => rfl, nofun⟩
  | checked job adv n r => simpa only [act, ht] using h

/-- The status that is read is 0 only if the thread's own command has come to 0. -/
theorem safe_get_status (h : Safe s) : Safe (act full_framebuffer s .get_status) := by
  cases ht : s.thread with
  | idle => simpa only [act, ht] using h
  | queued job adv n => simpa only [act, ht] using h
  | waiting job adv n =>
    simp only [act, ht]
    split
    · next hwoken =>
      refine ⟨inv_with_sem _ h.inv, nofun, fun _ => rfl, ?_⟩
      rintro job n r ⟨⟩ hr
      obtain ⟨-, hsound⟩ := h.own n (by simp [awaited, ht, hwoken])
      unfold Sound at hsound
      show s.display.results[n]? = some 0
      cases hq : s.display.results[n]? with
      | none =>
        rw [hq] at hsound
        exact absurd hr (hsound (.inl (.inr hwoken)))
      | some q =>
        rw [hq] at hsound
        rcases hsound with rfl | hne
        · rfl
        · exact absurd hr hne
    · exact h
  | checked job adv n r => simpa only [act, ht] using h

theorem safe_finish (h : Safe s) : Safe (act full_framebuffer s .finish) := by
  cases ht : s.thread with
  | idle => simpa only [act, ht] using h
  | queued job adv n => simpa only [act, ht] using h
  | waiting job adv n => simpa only [act, ht] using h
  | checked job adv n r =>
    simp only [act, ht]
    exact ⟨h.inv, nofun, fun _ => h.idle (by simp [ht]), nofun⟩

theorem safe_act (a : Action) (hmix : NotMixedUp s a) (h : Safe s) : Safe (act full_framebuffer s a) := by
  cases a with
  | other e => exact safe_other e hmix h
  | show_path job adv path => exact safe_show job adv path hmix h
  | wait => exact safe_wait h
  | give_up => exact safe_give_up h
  | get_status => exact safe_get_status h
  | finish => exact safe_finish h

theorem advancesOnOwn_of_safe (a : Action) (h : Safe s) : AdvancesOnOwn s a := by
  cases a with
  | finish =>
    intro job adv n r hc hset
    obtain ⟨rfl, hr⟩ := (setsLastJob_iff job adv r).1 hset
    exact h.checked job n r hc hr
  | other e => trivial
  | show_path job adv path => trivial
  | wait => trivial
  | give_up => trivial
  | get_status => trivial

variable (full_framebuffer) in
/-- In every run in which results are not mixed up, `last_job` is set after the
job's own command has succeeded. -/
theorem last_job_advances_on_own (as : List Action) (hmix : Meets (act full_framebuffer) NotMixedUp boot as) :
    Meets (act full_framebuffer) AdvancesOnOwn boot as :=
  meets_of_inv Safe safe_boot hmix (fun _ a hm h => safe_act a hm h) fun _ a _ h => advancesOnOwn_of_safe a h

/-! ## Two runs -/

instance (s : System) : ∀ a, Decidable (NotMixedUp s a)
  | .show_path _ true _ => inferInstanceAs (Decidable (_ → _ → _ → _))
  | .show_path _ false _ => inferInstanceAs (Decidable True)
  | .other (.work _) => inferInstanceAs (Decidable (∀ n ∈ awaited s, ∀ r ∈ s.display.results[n]?, _))
  | .other (.call _) => inferInstanceAs (Decidable True)
  | .other .submit => inferInstanceAs (Decidable True)
  | .wait => inferInstanceAs (Decidable True)
  | .give_up => inferInstanceAs (Decidable True)
  | .get_status => inferInstanceAs (Decidable True)
  | .finish => inferInstanceAs (Decidable True)

def morningJob : Job := ⟨.copy _ (ascii "j"), .copy _ (ascii "a"), .copy _ (ascii "0 8 * * *"), 0⟩

def works (n : Nat) (ret : Int) : List Action := List.replicate n (.other (.work ret))

/-- The thread's own command: one wait, one result. -/
def alone : List Action :=
  .show_path morningJob true (ascii "/lfs1/images/a.es6f") :: .other .submit :: works 7 0 ++
    [.wait, .get_status, .finish]

theorem last_job_advances_on_own_alone : Meets (act false) AdvancesOnOwn boot alone :=
  last_job_advances_on_own false alone (by decide +kernel)

/-- A client clears the panel. The thread's command is accepted when the result
is published and the semaphore not yet given. -/
def mixedUp : List Action :=
  .other (.call .clear) :: .other .submit :: works 6 0 ++
    [.show_path morningJob true (ascii "/lfs1/images/a.es6f"), .other .submit, .other (.work 0), .wait, .get_status]

/-- The thread takes the other command's token and result: it sets `last_job`
while its own command has not even been started. -/
theorem last_job_advances_on_other : ¬ Meets (act false) AdvancesOnOwn boot (mixedUp ++ [.finish]) := by
  intro h
  have hown := h.of_concat morningJob true 1 0 (by decide +kernel) ((setsLastJob_iff _ _ _).2 ⟨rfl, rfl⟩)
  exact absurd hown (by decide +kernel)

end EinkNode.Scheduler
