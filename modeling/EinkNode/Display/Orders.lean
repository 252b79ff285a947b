import EinkNode.Display.Service
import EinkNode.Lib.Runs
/-!
# Every order is served once

Runs of the display service: any calls of any clients, in any order with the
steps of the work item. A history says which calls were accepted, what the
worker took and which results it published; one invariant ties it to the
statics of the file.
-/
open NodeLib

namespace EinkNode.Display

/-! ## Runs -/

/-- What a call orders: the command, and the bytes of a payload. -/
structure Order where
  cmd : Cmd
  payload : Option Bytes
deriving DecidableEq

def Call.order : Call → Order
  | .show_path path job_id => ⟨show_path_cmd (path.getD []) job_id, none⟩
  | .clear => ⟨clear_cmd, none⟩
  | .show_payload payload job_id => ⟨show_payload_cmd job_id, some ((payload.getD []).take EINK_PAYLOAD_LEN)⟩

/-- The order that a command stands for while `slot` is in the payload slot. -/
def orderOf (slot : Bytes) (cmd : Cmd) : Order :=
  ⟨cmd, if cmd.type = .SHOW_PAYLOAD then some slot else none⟩

/-- The service and its history: the calls that were accepted, the orders that
the worker has taken and the results that it has published, each in order. -/
structure Traced where
  service : Service
  accepted : List Call
  taken : List Order
  results : List Int

def start : Traced := ⟨eink_display_init, [], [], []⟩

inductive Event where
  | call (c : Call)
  | submit
  | work (ret : Int)

/-- The order that the next step of the worker takes. -/
def taking (d : Service) : List Order :=
  if d.worker = .started ∧ d.has_pending = true then [orderOf d.eink_payload_slot d.pending] else []

/-- The result that is next to be published. -/
def publishing (d : Service) : List Int :=
  match d.worker with
  | .recorded _ ret => [ret]
  | _ => []

variable (full_framebuffer : Bool)

def step (t : Traced) : Event → Traced
  | .call c =>
    let r := call full_framebuffer t.service c
    { t with service := r.2, accepted := if r.1 = 0 then t.accepted ++ [c] else t.accepted }
  | .submit => { t with service := submit t.service }
  | .work ret =>
    { t with
      service := eink_work_handler t.service ret
      taken := t.taken ++ taking t.service
      results := t.results ++ publishing t.service }

/-! ## What holds in every state -/

/-- The command that the worker has taken and not completed. -/
def Worker.current : Worker → Option Cmd
  | .running cmd => some cmd
  | .finished cmd _ => some cmd
  | .released cmd _ => some cmd
  | .recorded cmd _ => some cmd
  | _ => none

/-- The command that still needs the payload slot. -/
def slot_owner (d : Service) : Option Cmd :=
  if d.has_pending then some d.pending
  else match d.worker with
    | .running cmd => some cmd
    | .finished cmd _ => some cmd
    | _ => none

/-- The order that waits in the pending slot. -/
def waiting (d : Service) : List Order :=
  if d.has_pending then [orderOf d.eink_payload_slot d.pending] else []

/-- The job id of the last success that has one. -/
def last_id (completed : List (Call × Int)) : CStr 64 :=
  (((completed.filter fun x => x.2 = 0 ∧ x.1.order.cmd.job_id.val ≠ []).map (·.1.order.cmd.job_id)).getLast?).getD
    (.empty _)

structure Inv (t : Traced) : Prop where
  orders : t.accepted.map Call.order = t.taken ++ waiting t.service
  served : t.taken.length = t.results.length + t.service.worker.current.toList.length
  refreshing : t.service.status.state = .REFRESHING ↔ t.service.worker.current.isSome
  single : t.service.has_pending = true → t.service.worker.current = none
  current : ∀ cmd ∈ t.service.worker.current, t.taken.getLast? = some (orderOf t.service.eink_payload_slot cmd)
  slot : t.service.eink_payload_slot_busy = true ↔ ∃ cmd ∈ slot_owner t.service, cmd.type = .SHOW_PAYLOAD
  count : t.service.status.refresh_count = UInt32.ofNat (t.results.count 0)
  job : t.service.status.last_job_id = last_id (t.accepted.zip (t.results ++ publishing t.service))
  wake : t.service.has_pending = true →
    t.service.queued = true ∨ 0 < t.service.submits ∨ t.service.worker = .started

variable {full_framebuffer} {t : Traced}

/-! ## Calls -/

/-- The service after it has accepted an order. -/
def place (d : Service) (o : Order) : Service :=
  accept { d with
    eink_payload_slot := o.payload.getD d.eink_payload_slot
    eink_payload_slot_busy := d.eink_payload_slot_busy || o.payload.isSome } o.cmd

variable (full_framebuffer) in
/-- A call is refused and changes nothing, or its order is placed. -/
theorem call_cases (d : Service) (c : Call) :
    ((call full_framebuffer d c).1 ≠ 0 ∧ (call full_framebuffer d c).2 = d ∧
      (c.enters full_framebuffer = true → eink_display_is_busy d = true ∨ d.eink_payload_slot_busy = true)) ∨
    (call full_framebuffer d c = (0, place d c.order) ∧ c.enters full_framebuffer = true ∧
      eink_display_is_busy d = false) := by
  have hqueue (cmd : Cmd) : (eink_display_is_busy d = true ∧ queue_cmd d cmd = (-EBUSY, d)) ∨
      (eink_display_is_busy d = false ∧ queue_cmd d cmd = (0, accept d cmd)) := by
    unfold queue_cmd
    cases hb : eink_display_is_busy d with
    | true => exact .inl ⟨rfl, if_pos hb⟩
    | false => exact .inr ⟨rfl, if_neg (by simpa [eink_display_is_busy] using hb)⟩
  cases c with
  | show_path path job_id =>
    cases path with
    | none => exact .inl ⟨(by decide : -EINVAL ≠ 0), rfl, fun h => absurd h Bool.false_ne_true⟩
    | some path =>
      simp only [call, eink_display_show_path]
      rcases hqueue (show_path_cmd path job_id) with ⟨hb, hq⟩ | ⟨hb, hq⟩
      · rw [hq]
        exact .inl ⟨(by decide : -EBUSY ≠ 0), rfl, fun _ => .inl hb⟩
      · rw [hq]
        exact .inr ⟨by simp [place, Call.order], rfl, hb⟩
  | clear =>
    simp only [call, eink_display_clear]
    rcases hqueue clear_cmd with ⟨hb, hq⟩ | ⟨hb, hq⟩
    · rw [hq]
      exact .inl ⟨(by decide : -EBUSY ≠ 0), rfl, fun _ => .inl hb⟩
    · rw [hq]
      exact .inr ⟨by simp [place, Call.order], rfl, hb⟩
  | show_payload payload job_id =>
    cases full_framebuffer with
    | false => exact .inl ⟨(by decide : -ENOTSUP ≠ 0), rfl, fun h => absurd h Bool.false_ne_true⟩
    | true =>
      cases payload with
      | none => exact .inl ⟨(by decide : -EINVAL ≠ 0), rfl, fun h => absurd h Bool.false_ne_true⟩
      | some payload =>
        simp only [call, eink_display_show_payload, Bool.not_true, Bool.false_eq_true, if_false]
        by_cases hb : (d.eink_payload_slot_busy || d.has_pending || d.status.state = .REFRESHING) = true
        · rw [if_pos hb]
          refine .inl ⟨(by decide : -EBUSY ≠ 0), rfl, fun _ => ?_⟩
          rw [Bool.or_assoc] at hb
          exact (Bool.or_eq_true_iff.1 hb).symm
        · rw [if_neg hb]
          rw [Bool.or_assoc] at hb
          refine .inr ⟨by simp [place, Call.order], rfl, ?_⟩
          exact Bool.eq_false_iff.2 fun h => hb (Bool.or_eq_true_iff.2 (.inr h))

/-- What waits in the pending slot is what was ordered. -/
theorem orderOf_place (d : Service) (c : Call) :
    orderOf (place d c.order).eink_payload_slot (place d c.order).pending = c.order := by
  cases c with
  | show_path path job_id => rfl
  | clear => rfl
  | show_payload payload job_id => rfl

theorem isSome_payload (c : Call) : c.order.payload.isSome = true ↔ c.order.cmd.type = .SHOW_PAYLOAD := by
  cases c with
  | show_path path job_id => exact ⟨nofun, nofun⟩
  | clear => exact ⟨nofun, nofun⟩
  | show_payload payload job_id => exact ⟨fun _ => rfl, fun _ => rfl⟩

/-! ## The invariant -/

theorem inv_start : Inv start where
  orders := rfl
  served := rfl
  refreshing := ⟨nofun, nofun⟩
  single := nofun
  current := nofun
  slot := ⟨nofun, by rintro ⟨cmd, ⟨⟩, -⟩⟩
  count := rfl
  job := rfl
  wake := nofun

/-- A service that is not busy has nothing taken, waiting or in the slot. -/
theorem Inv.of_not_busy (h : Inv t) (hb : eink_display_is_busy t.service = false) :
    t.service.has_pending = false ∧ t.service.worker.current = none ∧
      t.service.eink_payload_slot_busy = false := by
  simp only [eink_display_is_busy, Bool.or_eq_false_iff, decide_eq_false_iff_not] at hb
  obtain ⟨hpending, hstate⟩ := hb
  have hcurrent : t.service.worker.current = none := by
    cases hw : t.service.worker.current with
    | none => rfl
    | some cmd => exact absurd (h.refreshing.2 (by simp [hw])) hstate
  refine ⟨hpending, hcurrent, Bool.eq_false_iff.2 fun hslot => ?_⟩
  obtain ⟨cmd, hcmd, -⟩ := h.slot.1 hslot
  simp only [slot_owner, hpending, Bool.false_eq_true, if_false] at hcmd
  cases hw : t.service.worker <;> simp_all [Worker.current]

theorem publishing_of_current {d : Service} (h : d.worker.current = none) : publishing d = [] := by
  cases hw : d.worker <;> simp_all [Worker.current, publishing]

theorem inv_call (c : Call) (h : Inv t) : Inv (step full_framebuffer t (.call c)) := by
  rcases call_cases full_framebuffer t.service c with ⟨hret, hsame, -⟩ | ⟨hcall, -, hb⟩
  · simp only [step, hret, hsame, if_false]
    exact h
  obtain ⟨hpending, hcurrent, hslot⟩ := h.of_not_busy hb
  have hpub := publishing_of_current hcurrent
  have htaken : t.accepted.map Call.order = t.taken := by
    have := h.orders
    simpa [waiting, hpending] using this
  have hserved : t.taken.length = t.results.length := by
    have := h.served
    simpa [hcurrent] using this
  have hlen : t.accepted.length = t.results.length := by
    rw [← hserved, ← htaken, List.length_map]
  simp only [step, hcall, if_true]
  refine ⟨?_, h.served, h.refreshing, fun _ => hcurrent, ?_, ?_, h.count, ?_, fun _ => .inr (.inl (Nat.succ_pos _))⟩
  · rw [List.map_append, htaken]
    exact congrArg (t.taken ++ ·) (congrArg (· :: []) (orderOf_place t.service c).symm)
  · intro cmd hcmd
    exact absurd (hcurrent.symm.trans hcmd) nofun
  · have hbusy : (place t.service c.order).eink_payload_slot_busy = c.order.payload.isSome := by
      simp [place, accept, hslot]
    have howner : slot_owner (place t.service c.order) = some c.order.cmd := rfl
    rw [hbusy, howner, isSome_payload]
    simp
  · have hpub' : publishing (place t.service c.order) = [] := publishing_of_current hcurrent
    have hjob := h.job
    rw [hpub, List.append_nil] at hjob
    rw [hpub', List.append_nil]
    have hzip : (t.accepted ++ [c]).zip (t.results ++ []) = t.accepted.zip t.results ++ [c].zip [] :=
      List.zip_append hlen
    rw [List.append_nil, List.zip_nil_right, List.append_nil] at hzip
    rw [hzip]
    exact hjob

theorem inv_submit (h : Inv t) : Inv (step full_framebuffer t .submit) := by
  simp only [step, submit]
  split
  · exact h
  · exact ⟨h.orders, h.served, h.refreshing, h.single, h.current, h.slot, h.count, h.job, fun _ => .inl rfl⟩

/-! ## The worker -/

theorem last_id_concat (l : List (Call × Int)) (c : Call) (ret : Int) :
    last_id (l ++ [(c, ret)]) =
      if ret = 0 ∧ c.order.cmd.job_id.val ≠ [] then c.order.cmd.job_id else last_id l := by
  unfold last_id
  by_cases h : ret = 0 ∧ c.order.cmd.job_id.val ≠ []
  · rw [if_pos h]
    simp [List.filter_append, h]
  · rw [if_neg h, List.filter_append]
    simp [h]

/-- The call whose order the worker is at. -/
theorem Inv.last_call (h : Inv t) (cmd : Cmd) (hc : t.service.worker.current = some cmd) :
    t.service.has_pending = false ∧
      ∃ pre c, t.accepted = pre ++ [c] ∧ c.order.cmd = cmd ∧ pre.length = t.results.length := by
  have hpending : t.service.has_pending = false :=
    Bool.eq_false_iff.2 fun hp => absurd ((h.single hp).symm.trans hc) nofun
  have horders := h.orders
  simp only [waiting, hpending, Bool.false_eq_true, if_false, List.append_nil] at horders
  have hserved := h.served
  simp only [hc, Option.toList_some, List.length_singleton] at hserved
  rw [← horders, List.length_map] at hserved
  have hlast := h.current cmd hc
  rw [← horders, List.getLast?_map] at hlast
  obtain ⟨c, hlast, horder⟩ := Option.map_eq_some_iff.1 hlast
  obtain ⟨pre, hpre⟩ := List.getLast?_eq_some_iff.1 hlast
  refine ⟨hpending, pre, c, hpre, by rw [horder]; rfl, ?_⟩
  rw [hpre, List.length_append, List.length_singleton] at hserved
  omega

/-- What a step leaves alone that only moves the worker on to its next place. -/
structure Quiet (d d' : Service) : Prop where
  pending : d'.has_pending = d.has_pending ∧ d'.pending = d.pending
  slot : d'.eink_payload_slot = d.eink_payload_slot ∧ d'.eink_payload_slot_busy = d.eink_payload_slot_busy
  status : d'.status = d.status
  current : d'.worker.current = d.worker.current
  owner : slot_owner d' = slot_owner d
  publishing : publishing d' = publishing d
  wake : d.has_pending = true → d'.queued = true ∨ 0 < d'.submits ∨ d'.worker = .started

theorem Inv.quiet (h : Inv t) {d : Service} (hq : Quiet t.service d) : Inv { t with service := d } := by
  have hwaiting : waiting d = waiting t.service := by
    rw [waiting, waiting, hq.pending.1, hq.pending.2, hq.slot.1]
  refine ⟨?_, ?_, ?_, ?_, ?_, ?_, ?_, ?_, ?_⟩
  · rw [hwaiting]
    exact h.orders
  · rw [hq.current]
    exact h.served
  · rw [hq.status, hq.current]
    exact h.refreshing
  · rw [hq.pending.1, hq.current]
    exact h.single
  · rw [hq.current, hq.slot.1]
    exact h.current
  · rw [hq.slot.2, hq.owner]
    exact h.slot
  · rw [hq.status]
    exact h.count
  · rw [hq.status, hq.publishing]
    exact h.job
  · intro hp
    rw [hq.pending.1] at hp
    exact hq.wake hp

theorem inv_idle (ret : Int) (h : Inv t) (hw : t.service.worker = .idle) :
    Inv (step full_framebuffer t (.work ret)) := by
  simp only [step, eink_work_handler, taking, publishing, hw, reduceCtorEq, false_and, if_false, List.append_nil]
  split
  · refine h.quiet ⟨⟨rfl, rfl⟩, ⟨rfl, rfl⟩, rfl, ?_, ?_, ?_, fun _ => .inr (.inr rfl)⟩
    · rw [hw]
      rfl
    · simp only [slot_owner, hw]
    · simp only [publishing, hw]
  · exact h

theorem inv_started (ret : Int) (h : Inv t) (hw : t.service.worker = .started) :
    Inv (step full_framebuffer t (.work ret)) := by
  cases hp : t.service.has_pending with
  | false =>
    simp only [step, eink_work_handler, taking, hw, hp, Bool.not_false, Bool.false_eq_true, and_false, if_true,
      if_false, List.append_nil]
    simp only [publishing, hw, List.append_nil]
    refine h.quiet ⟨⟨hp.symm, rfl⟩, ⟨rfl, rfl⟩, rfl, ?_, ?_, ?_, ?_⟩
    · rw [hw]
      rfl
    · simp only [slot_owner, hw, hp]
    · simp only [publishing, hw]
    · intro hp'
      exact absurd (hp.symm.trans hp') nofun
  | true =>
    have ⟨horders, hserved, _, _, _, hslot, hcount, hjob, _⟩ := h
    simp only [hw, Worker.current, slot_owner, publishing, waiting, hp, if_true] at horders hserved hslot hjob
    simp only [step, eink_work_handler, taking, publishing, hw, hp]
    -- The pending command is taken.
    refine ⟨?_, ?_, ?_, nofun, ?_, ?_, ?_, ?_, nofun⟩
    · simpa [waiting] using horders
    · simpa [Worker.current] using hserved
    · simp [Worker.current]
    · rintro cmd ⟨⟩
      simp
    · simpa [slot_owner] using hslot
    · simpa using hcount
    · simpa [publishing] using hjob

theorem inv_running (ret : Int) (h : Inv t) {cmd : Cmd} (hw : t.service.worker = .running cmd) :
    Inv (step full_framebuffer t (.work ret)) := by
  obtain ⟨hp, -⟩ := h.last_call cmd (by rw [hw]; rfl)
  simp only [step, eink_work_handler, taking, hw, reduceCtorEq, false_and, if_false, List.append_nil]
  simp only [publishing, hw, List.append_nil]
  refine h.quiet ⟨⟨rfl, rfl⟩, ⟨rfl, rfl⟩, rfl, ?_, ?_, ?_, ?_⟩
  · rw [hw]
    rfl
  · simp only [slot_owner, hw]
  · simp only [publishing, hw]
  · intro hp'
    exact absurd (hp.symm.trans hp') nofun

theorem inv_finished (ret : Int) (h : Inv t) {cmd : Cmd} {r : Int} (hw : t.service.worker = .finished cmd r) :
    Inv (step full_framebuffer t (.work ret)) := by
  obtain ⟨hp, -⟩ := h.last_call cmd (by rw [hw]; rfl)
  have ⟨horders, hserved, hrefreshing, _, hcurrent, hslot, hcount, hjob, _⟩ := h
  simp only [hw, Worker.current, slot_owner, publishing, hp] at hserved hrefreshing hcurrent hslot hjob
  simp only [step, eink_work_handler, taking, publishing, hw]
  refine ⟨?_, ?_, ?_, ?_, ?_, ?_, ?_, ?_, ?_⟩
  · simpa [waiting] using horders
  · simpa [Worker.current] using hserved
  · simpa [Worker.current] using hrefreshing
  · simp [hp]
  · simpa [Worker.current] using hcurrent
  · -- A payload command gives the slot back; no other command has it.
    simp only [slot_owner, hp]
    simp only [Option.mem_def, Option.some.injEq, exists_eq_left', Bool.false_eq_true, if_false] at hslot
    split
    · simp
    · next hn => simp [Bool.eq_false_iff.2 fun hb => hn (hslot.1 hb)]
  · simpa using hcount
  · simpa [publishing] using hjob
  · simp [hp]

theorem inv_released (ret : Int) (h : Inv t) {cmd : Cmd} {r : Int} (hw : t.service.worker = .released cmd r) :
    Inv (step full_framebuffer t (.work ret)) := by
  obtain ⟨hp, pre, c, hpre, hcmd, hlen⟩ := h.last_call cmd (by rw [hw]; rfl)
  have ⟨horders, hserved, hrefreshing, _, hcurrent, hslot, hcount, hjob, _⟩ := h
  simp only [hw, Worker.current, slot_owner, publishing, hp] at hserved hrefreshing hcurrent hslot hjob
  simp only [step, eink_work_handler, taking, publishing, hw]
  have hstatus : (record_job t.service.status cmd r).state = t.service.status.state ∧
      (record_job t.service.status cmd r).refresh_count = t.service.status.refresh_count := by
    unfold record_job
    split <;> exact ⟨rfl, rfl⟩
  refine ⟨?_, ?_, ?_, ?_, ?_, ?_, ?_, ?_, ?_⟩
  · simpa [waiting] using horders
  · simpa [Worker.current] using hserved
  · simpa [Worker.current, hstatus.1] using hrefreshing
  · simp [hp]
  · simpa [Worker.current] using hcurrent
  · simpa [slot_owner, hp] using hslot
  · simpa [hstatus.2] using hcount
  · -- The last call is the one whose result is about to be published.
    have hbefore : t.accepted.zip t.results = pre.zip t.results := by
      have hzip : (pre ++ [c]).zip (t.results ++ []) = pre.zip t.results ++ [c].zip [] := List.zip_append hlen
      simpa [hpre] using hzip
    have hafter : t.accepted.zip (t.results ++ [r]) = pre.zip t.results ++ [(c, r)] := by
      rw [hpre, List.zip_append hlen]
      rfl
    rw [List.append_nil, hbefore] at hjob
    simp only [List.append_nil, publishing]
    rw [hafter, last_id_concat, hcmd, ← hjob]
    unfold record_job
    split
    · exact CStr.copy_val _
    · rfl
  · simp [hp]

theorem inv_recorded (ret : Int) (h : Inv t) {cmd : Cmd} {r : Int} (hw : t.service.worker = .recorded cmd r) :
    Inv (step full_framebuffer t (.work ret)) := by
  obtain ⟨hp, -⟩ := h.last_call cmd (by rw [hw]; rfl)
  have ⟨horders, hserved, _, _, _, hslot, hcount, hjob, _⟩ := h
  simp only [hw, Worker.current, slot_owner, publishing, hp] at hserved hslot hjob
  simp only [step, eink_work_handler, taking, publishing, hw]
  refine ⟨?_, ?_, ?_, ?_, nofun, ?_, ?_, ?_, ?_⟩
  · simpa [waiting] using horders
  · simpa [Worker.current] using hserved
  · simp only [set_idle, Worker.current]
    split <;> simp
  · simp [hp]
  · simpa [slot_owner, hp] using hslot
  · simp only [set_idle, List.count_append, List.count_singleton, beq_iff_eq]
    split
    · rw [hcount, ← UInt32.ofNat_one, ← UInt32.ofNat_add]
    · simpa using hcount
  · simpa [publishing, set_idle] using hjob
  · simp [hp]

theorem inv_published (ret : Int) (h : Inv t) (hw : t.service.worker = .published) :
    Inv (step full_framebuffer t (.work ret)) := by
  simp only [step, eink_work_handler, taking, publishing, hw, reduceCtorEq, false_and, if_false, List.append_nil]
  refine h.quiet ⟨⟨rfl, rfl⟩, ⟨rfl, rfl⟩, rfl, ?_, ?_, ?_, ?_⟩
  · rw [hw]
    rfl
  · simp only [slot_owner, hw]
  · simp only [publishing, hw]
  · intro hp
    have hwake := h.wake hp
    simpa [hw] using hwake

/-- One step of the worker, by the place it is at. -/
theorem inv_work (ret : Int) (h : Inv t) : Inv (step full_framebuffer t (.work ret)) := by
  cases hw : t.service.worker with
  | idle => exact inv_idle ret h hw
  | started => exact inv_started ret h hw
  | running cmd => exact inv_running ret h hw
  | finished cmd r => exact inv_finished ret h hw
  | released cmd r => exact inv_released ret h hw
  | recorded cmd r => exact inv_recorded ret h hw
  | published => exact inv_published ret h hw

variable (full_framebuffer) in
theorem inv_step (e : Event) (h : Inv t) : Inv (step full_framebuffer t e) := by
  cases e with
  | call c => exact inv_call c h
  | submit => exact inv_submit h
  | work ret => exact inv_work ret h

variable (full_framebuffer) in
theorem inv_run (es : List Event) : Inv (run (step full_framebuffer) start es) :=
  run_inv Inv inv_start fun _ e _ h => inv_step full_framebuffer e h

/-! ## Progress -/

/-- An accepted command has not completed. -/
def Outstanding (t : Traced) : Prop := t.results.length < t.accepted.length

theorem Inv.length_accepted (h : Inv t) :
    t.accepted.length = t.results.length + t.service.worker.current.toList.length + (waiting t.service).length := by
  have horders := congrArg List.length h.orders
  rw [List.length_map, List.length_append, h.served] at horders
  exact horders

theorem Inv.outstanding_iff (h : Inv t) : Outstanding t ↔ eink_display_is_busy t.service = true := by
  have hlen := h.length_accepted
  have hbusy : eink_display_is_busy t.service = true ↔
      t.service.has_pending = true ∨ t.service.worker.current.isSome = true := by
    simp [eink_display_is_busy, h.refreshing]
  rw [hbusy, Outstanding, hlen]
  cases hp : t.service.has_pending <;> cases hw : t.service.worker.current <;> simp [waiting, hp, Nat.add_assoc]

theorem Inv.one (h : Inv t) : t.accepted.length ≤ t.results.length + 1 := by
  have hlen := h.length_accepted
  cases hp : t.service.has_pending with
  | false => cases hw : t.service.worker.current <;> simp [waiting, hp, hw] at hlen <;> omega
  | true =>
    simp only [waiting, hp, h.single hp, if_true] at hlen
    exact Nat.le_of_eq hlen

/-- The steps that are left before the result is published. -/
def rank (d : Service) : Nat :=
  match d.worker with
  | .published => 7
  | .idle => if d.queued then 5 else 6
  | .started => 4
  | .running _ => 3
  | .finished _ _ => 2
  | .released _ _ => 1
  | .recorded _ _ => 0

/-- A step that no client takes. -/
def Event.Internal : Event → Prop
  | .call _ => False
  | _ => True

variable (full_framebuffer) in
/-- While a command is outstanding, some step brings its result closer. -/
theorem Inv.progress (h : Inv t) (ho : Outstanding t) :
    ∃ e : Event, e.Internal ∧ (step full_framebuffer t e).accepted = t.accepted ∧
      ((step full_framebuffer t e).results.length = t.accepted.length ∨
        Outstanding (step full_framebuffer t e) ∧ rank (step full_framebuffer t e).service < rank t.service) := by
  have hlen := h.length_accepted
  have hpending (hc : t.service.worker.current = none) : t.service.has_pending = true := by
    unfold Outstanding at ho
    cases hp : t.service.has_pending with
    | true => rfl
    | false => simp [waiting, hp, hc] at hlen; omega
  -- A step of the worker that publishes nothing leaves the command outstanding.
  have hwork (hpub : publishing t.service = [])
      (hr : rank (eink_work_handler t.service 0) < rank t.service) :
      ∃ e : Event, e.Internal ∧ (step full_framebuffer t e).accepted = t.accepted ∧
        ((step full_framebuffer t e).results.length = t.accepted.length ∨
          Outstanding (step full_framebuffer t e) ∧
            rank (step full_framebuffer t e).service < rank t.service) := by
    refine ⟨.work 0, trivial, rfl, .inr ⟨?_, hr⟩⟩
    simp only [Outstanding, step, hpub, List.append_nil]
    exact ho
  cases hw : t.service.worker with
  | idle =>
    by_cases hq : t.service.queued = true
    · exact hwork (by simp [publishing, hw]) (by simp [eink_work_handler, rank, hw, hq])
    · have hsubmits : 0 < t.service.submits := by
        rcases h.wake (hpending (by rw [hw]; rfl)) with hq' | hs | hw'
        · exact absurd hq' hq
        · exact hs
        · exact absurd (hw.symm.trans hw') nofun
      refine ⟨.submit, trivial, rfl, .inr ⟨ho, ?_⟩⟩
      simp [step, submit, rank, hw, hq, Nat.ne_of_gt hsubmits]
  | started =>
    exact hwork (by simp [publishing, hw])
      (by simp [eink_work_handler, rank, hw, hpending (by rw [hw]; rfl)])
  | running cmd => exact hwork (by simp [publishing, hw]) (by simp [eink_work_handler, rank, hw])
  | finished cmd r => exact hwork (by simp [publishing, hw]) (by simp [eink_work_handler, rank, hw])
  | released cmd r => exact hwork (by simp [publishing, hw]) (by simp [eink_work_handler, rank, hw])
  | recorded cmd r =>
    obtain ⟨-, pre, c, hpre, -, hpl⟩ := h.last_call cmd (by rw [hw]; rfl)
    refine ⟨.work 0, trivial, rfl, .inl ?_⟩
    simp [step, publishing, hw, hpre, hpl]
  | published =>
    refine hwork (by simp [publishing, hw]) ?_
    simp only [eink_work_handler, rank, hw]
    split <;> decide

theorem Inv.completes (h : Inv t) (ho : Outstanding t) :
    ∃ es : List Event, (∀ e ∈ es, e.Internal) ∧
      (run (step full_framebuffer) t es).results.length = t.accepted.length := by
  induction hn : rank t.service using Nat.strongRecOn generalizing t with
  | ind n ih =>
    obtain ⟨e, he, hsame, hdone | ⟨ho', hless⟩⟩ := h.progress full_framebuffer ho
    · exact ⟨[e], by simpa using he, hdone⟩
    · obtain ⟨es, hes, hrun⟩ := ih _ (hn ▸ hless) (inv_step full_framebuffer e h) ho' rfl
      refine ⟨e :: es, ?_, ?_⟩
      · intro e' he'
        rcases List.mem_cons.1 he' with rfl | he'
        · exact he
        · exact hes e' he'
      · rw [run_cons, hrun, hsame]

/-! ## The service -/

/-- A busy service refuses every call. -/
theorem Inv.accepts (h : Inv t) {c : Call} (hc : c.enters full_framebuffer = true) :
    (call full_framebuffer t.service c).1 = 0 ↔ ¬ Outstanding t := by
  rw [h.outstanding_iff]
  rcases call_cases full_framebuffer t.service c with ⟨hret, -, hbusy⟩ | ⟨hcall, -, hb⟩
  · refine ⟨fun h0 => absurd h0 hret, fun hb => ?_⟩
    obtain ⟨-, -, hslot⟩ := h.of_not_busy (Bool.eq_false_iff.2 hb)
    rcases hbusy hc with hb' | hs
    · exact absurd hb' hb
    · exact absurd hs (Bool.eq_false_iff.1 hslot)
  · rw [hcall, hb]
    exact ⟨fun _ => nofun, fun _ => rfl⟩

/-- While a command is outstanding, no step changes the payload slot. -/
theorem Inv.slot_kept (h : Inv t) (ho : Outstanding t) (e : Event) :
    (step full_framebuffer t e).service.eink_payload_slot = t.service.eink_payload_slot := by
  cases e with
  | call c =>
    rcases call_cases full_framebuffer t.service c with ⟨-, hsame, -⟩ | ⟨-, -, hb⟩
    · simp only [step, hsame]
    · rw [h.outstanding_iff, hb] at ho
      cases ho
  | submit =>
    simp only [step, submit]
    split <;> rfl
  | work ret =>
    simp only [step, eink_work_handler]
    split <;> try rfl
    · split <;> rfl
    · split <;> rfl

/-- The slot has the payload of the call that is outstanding. -/
theorem Inv.slot_payload (h : Inv t) (ho : Outstanding t) {c : Call} (hlast : t.accepted.getLast? = some c) :
    ∀ bs ∈ c.order.payload, t.service.eink_payload_slot = bs := by
  have horder : c.order = orderOf t.service.eink_payload_slot c.order.cmd := by
    obtain ⟨pre, hpre⟩ := List.getLast?_eq_some_iff.1 hlast
    have horders := h.orders
    rw [hpre, List.map_append, List.map_singleton] at horders
    cases hp : t.service.has_pending with
    | true =>
      simp only [waiting, hp, if_true] at horders
      obtain ⟨-, hc⟩ := List.append_inj' horders rfl
      have hc := List.head_eq_of_cons_eq hc
      rw [hc]
      rfl
    | false =>
      simp only [waiting, hp, Bool.false_eq_true, if_false, List.append_nil] at horders
      have hlen := h.length_accepted
      cases hw : t.service.worker.current with
      | none =>
        unfold Outstanding at ho
        simp [waiting, hp, hw] at hlen
        omega
      | some cmd =>
        have hcurrent := h.current cmd hw
        rw [← horders, List.getLast?_concat] at hcurrent
        rw [Option.some.inj hcurrent]
        rfl
  intro bs hbs
  rw [horder] at hbs
  simp only [orderOf] at hbs
  split at hbs
  · exact Option.some.inj hbs
  · cases hbs

variable (full_framebuffer)

/-- What clients can rely on: of the calls accepted so far, in order, the worker
has taken a first part, each with what it ordered, and completed a first part
of these. A job id counts from its own section on, which comes just before the
one that publishes the result. -/
structure Serves (t : Traced) : Prop where
  one : t.accepted.length ≤ t.results.length + 1
  accepts : ∀ c : Call, c.enters full_framebuffer = true →
    ((call full_framebuffer t.service c).1 = 0 ↔ ¬ Outstanding t)
  in_order : t.taken <+: t.accepted.map Call.order
  taken_first : t.results.length ≤ t.taken.length
  completes : Outstanding t → ∃ es : List Event, (∀ e ∈ es, e.Internal) ∧
    (run (step full_framebuffer) t es).results.length = t.accepted.length
  busy : eink_display_is_busy t.service = true ↔ Outstanding t
  count : t.service.status.refresh_count = UInt32.ofNat (t.results.count 0)
  last_job : t.service.status.last_job_id = last_id (t.accepted.zip (t.results ++ publishing t.service))
  slot : Outstanding t → ∀ c, t.accepted.getLast? = some c →
    (∀ e, (step full_framebuffer t e).service.eink_payload_slot = t.service.eink_payload_slot) ∧
      ∀ bs ∈ c.order.payload, t.service.eink_payload_slot = bs

/-- In every run of clients and worker, every accepted order is served once. -/
theorem served_once (es : List Event) : Serves full_framebuffer (run (step full_framebuffer) start es) := by
  have h := inv_run full_framebuffer es
  refine ⟨h.one, fun c hc => h.accepts hc, ?_, ?_, h.completes, h.outstanding_iff.symm, h.count, h.job, ?_⟩
  · rw [h.orders]
    exact List.prefix_append _ _
  · rw [h.served]
    exact Nat.le_add_right _ _
  · exact fun ho c hc => ⟨h.slot_kept ho, h.slot_payload ho hc⟩

/-! ## What is cut off -/

/-- The panel is cleared, with the worker at rest before and after. -/
def clearRound : List Event := .call .clear :: .submit :: List.replicate 7 (.work 0)

def AtRest (t : Traced) : Prop :=
  eink_display_is_busy t.service = false ∧ t.service.worker = .idle ∧ t.service.submits = 0

theorem clearRound_atRest {t : Traced} (h : AtRest t) :
    AtRest (run (step full_framebuffer) t clearRound) ∧
      (run (step full_framebuffer) t clearRound).results = t.results ++ [0] := by
  obtain ⟨hb, hw, hs⟩ := h
  have hcall : call full_framebuffer t.service .clear = (0, accept t.service clear_cmd) :=
    if_neg (by simpa [eink_display_is_busy] using hb)
  have htype : clear_cmd.type ≠ .SHOW_PAYLOAD := nofun
  simp [clearRound, List.replicate, step, hcall, accept, submit, eink_work_handler, hw, hs, publishing, AtRest,
    eink_display_is_busy, htype, record_job, set_idle]

theorem clearRounds_results (n : Nat) :
    AtRest (run (step full_framebuffer) start (List.replicate n clearRound).flatten) ∧
      (run (step full_framebuffer) start (List.replicate n clearRound).flatten).results = List.replicate n 0 := by
  induction n with
  | zero => exact ⟨⟨rfl, rfl, rfl⟩, rfl⟩
  | succ n ih =>
    obtain ⟨hrest, hresults⟩ := ih
    obtain ⟨hrest', hresults'⟩ := clearRound_atRest full_framebuffer hrest
    rw [List.replicate_succ', List.flatten_concat, run_append]
    refine ⟨hrest', ?_⟩
    rw [hresults', hresults, List.replicate_succ']

/-- A path as long as the array of the command. -/
def longPath : Bytes := List.replicate 256 97

/-- A long path is taken without its last byte, and 2^32 refreshes count as none. -/
theorem long_path_cut_and_count_wraps :
    (run (step false) start [.call (.show_path (some longPath) none), .submit, .work 0, .work 0]).taken.map
        (·.cmd.path.val) ≠ [longPath] ∧
      ∃ es : List Event, (run (step false) start es).service.status.refresh_count.toNat ≠
        (run (step false) start es).results.count 0 := by
  refine ⟨by decide +kernel, (List.replicate (2 ^ 32) clearRound).flatten, ?_⟩
  have hcount := (inv_run false (List.replicate (2 ^ 32) clearRound).flatten).count
  obtain ⟨-, hresults⟩ := clearRounds_results false (2 ^ 32)
  rw [hresults, List.count_replicate_self] at hcount
  rw [hcount, hresults, List.count_replicate_self]
  decide

end EinkNode.Display
