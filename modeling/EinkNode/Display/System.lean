import EinkNode.Display.Orders
import EinkNode.Display.Screen
/-!
# From the calls to the glass

The service, its worker and the driver of the panel together. Clients call in
any order with the steps of the worker, and the disk, the bus and the panel may
fail at any time. The worker carries out what was accepted, in order, and what
is to be seen is the frame of one of the commands that it has carried out.
-/
open NodeLib EinkNode.Store EinkNode.El133

namespace EinkNode.Display

/-! ## The two parts together -/

/-- The service, the driver, and the commands that were carried out, each with what it came to. -/
structure System where
  traced : Traced
  driver : Driver
  performed : List (Request × Int)

def powered (spi : List (Option (Nat × Nat))) (busy : List Bool) : System := ⟨start, (el133_init spi busy).2, []⟩

/-- A step of the service. One that drives the panel finds this disk, and these answers of the bus and the panel. -/
inductive SysEvent where
  | call (c : Call)
  | submit
  | work (disk : Disk Path) (ready : Bool) (spi : List (Option (Nat × Nat))) (busy : List Bool)

/-- The command with which the worker is about to drive the panel. -/
def Worker.driving : Worker → Option Cmd
  | .running cmd => some cmd
  | _ => none

/-- The result that the worker has yet to publish. -/
def Worker.ended : Worker → Option Int
  | .finished _ ret => some ret
  | .released _ ret => some ret
  | .recorded _ ret => some ret
  | _ => none

variable (b : Build) (lib : Lz4Lib)

/-- Only the step that drives the panel has a result of its own. -/
def System.step (s : System) : SysEvent → System
  | .call c => { s with traced := Display.step false s.traced (.call c) }
  | .submit => { s with traced := Display.step false s.traced .submit }
  | .work disk ready spi busy =>
    match s.traced.service.worker.driving with
    | some cmd =>
      let r : Request := ⟨cmd, disk, ready, spi, busy⟩
      let out := serve b lib s.driver r
      ⟨Display.step false s.traced (.work out.1), out.2.1, s.performed ++ [(r, out.1)]⟩
    | none => { s with traced := Display.step false s.traced (.work 0) }

/-- The driver after a command. -/
def carried (d : Driver) (p : Request × Int) : Driver := served b lib d p.1

/-- What the service has taken, the driver has done: `d0` is the driver at the beginning. -/
structure Coupled (d0 : Driver) (s : System) : Prop where
  service : Inv s.traced
  driver : s.driver = run (carried b lib) d0 s.performed
  outcomes : Meets (carried b lib) (fun d p => p.2 = (serve b lib d p.1).1) d0 s.performed
  taken : s.traced.taken.map (·.cmd) = s.performed.map (·.1.cmd) ++ s.traced.service.worker.driving.toList
  results : s.performed.map (·.2) = s.traced.results ++ s.traced.service.worker.ended.toList

variable {b lib} {d0 : Driver} {s : System}

theorem coupled_powered (spi : List (Option (Nat × Nat))) (busy : List Bool) :
    Coupled b lib (el133_init spi busy).2 (powered spi busy) where
  service := inv_start
  driver := rfl
  outcomes := trivial
  taken := rfl
  results := rfl

theorem coupled_call (c : Call) (h : Coupled b lib d0 s) : Coupled b lib d0 (s.step b lib (.call c)) := by
  have hworker : (call false s.traced.service c).2.worker = s.traced.service.worker := by
    rcases call_cases false s.traced.service c with ⟨-, hsame, -⟩ | ⟨hcall, -, -⟩
    · rw [hsame]
    · rw [hcall]
      rfl
  refine ⟨inv_step false (.call c) h.service, h.driver, h.outcomes, ?_, ?_⟩
  · simp only [System.step, Display.step, hworker]
    exact h.taken
  · simp only [System.step, Display.step, hworker]
    exact h.results

theorem coupled_submit (h : Coupled b lib d0 s) : Coupled b lib d0 (s.step b lib .submit) := by
  have hworker : (submit s.traced.service).worker = s.traced.service.worker := by
    unfold submit
    split
    · rfl
    · rfl
  refine ⟨inv_step false .submit h.service, h.driver, h.outcomes, ?_, ?_⟩
  · simp only [System.step, Display.step, hworker]
    exact h.taken
  · simp only [System.step, Display.step, hworker]
    exact h.results

/-- The step that drives the panel. -/
theorem coupled_running (h : Coupled b lib d0 s) {cmd : Cmd} (hw : s.traced.service.worker = .running cmd)
    (disk : Disk Path) (ready : Bool) (spi : List (Option (Nat × Nat))) (busy : List Bool) :
    Coupled b lib d0 (s.step b lib (.work disk ready spi busy)) := by
  have htaken := h.taken
  have hresults := h.results
  simp only [hw, Worker.driving, Worker.ended, Option.toList_some, Option.toList_none, List.append_nil]
    at htaken hresults
  simp only [System.step, hw, Worker.driving]
  generalize hr : (⟨cmd, disk, ready, spi, busy⟩ : Request) = r
  have hcmd : r.cmd = cmd := by rw [← hr]
  refine ⟨inv_step false (.work _) h.service, ?_, ?_, ?_, ?_⟩
  · rw [run_concat, ← h.driver]
    rfl
  · refine h.outcomes.concat ?_
    rw [← h.driver]
  · simp only [Display.step, eink_work_handler, taking, hw, Worker.driving]
    simp [htaken, hcmd]
  · simp only [Display.step, eink_work_handler, publishing, hw, Worker.ended]
    simp [hresults]

/-- Where the worker does not drive the panel, it goes on to drive it with what it takes. -/
theorem taking_driving {d : Service} (h : d.worker.driving = none) (ret : Int) :
    (taking d).map (·.cmd) = (eink_work_handler d ret).worker.driving.toList := by
  cases hw : d.worker with
  | idle =>
    cases hq : d.queued with
    | false => simp [taking, eink_work_handler, hw, hq, Worker.driving]
    | true => simp [taking, eink_work_handler, hw, hq, Worker.driving]
  | started =>
    cases hp : d.has_pending with
    | false => simp [taking, eink_work_handler, hw, hp, Worker.driving]
    | true => simp [taking, eink_work_handler, hw, hp, Worker.driving, orderOf]
  | running cmd =>
    rw [hw] at h
    cases h
  | finished cmd r => simp [taking, eink_work_handler, hw, Worker.driving]
  | released cmd r => simp [taking, eink_work_handler, hw, Worker.driving]
  | recorded cmd r => simp [taking, eink_work_handler, hw, Worker.driving]
  | published => simp [taking, eink_work_handler, hw, Worker.driving]

/-- A result is published once. -/
theorem ended_publishing {d : Service} (h : d.worker.driving = none) (ret : Int) :
    d.worker.ended.toList = publishing d ++ (eink_work_handler d ret).worker.ended.toList := by
  cases hw : d.worker with
  | idle =>
    cases hq : d.queued with
    | false => simp [publishing, eink_work_handler, hw, hq, Worker.ended]
    | true => simp [publishing, eink_work_handler, hw, hq, Worker.ended]
  | started =>
    cases hp : d.has_pending with
    | false => simp [publishing, eink_work_handler, hw, hp, Worker.ended]
    | true => simp [publishing, eink_work_handler, hw, hp, Worker.ended]
  | running cmd =>
    rw [hw] at h
    cases h
  | finished cmd r => simp [publishing, eink_work_handler, hw, Worker.ended]
  | released cmd r => simp [publishing, eink_work_handler, hw, Worker.ended]
  | recorded cmd r => simp [publishing, eink_work_handler, hw, Worker.ended]
  | published => simp [publishing, eink_work_handler, hw, Worker.ended]

/-- Any other step of the worker. -/
theorem coupled_other (h : Coupled b lib d0 s) (hw : s.traced.service.worker.driving = none) (disk : Disk Path)
    (ready : Bool) (spi : List (Option (Nat × Nat))) (busy : List Bool) :
    Coupled b lib d0 (s.step b lib (.work disk ready spi busy)) := by
  have htaken := h.taken
  rw [hw, Option.toList_none, List.append_nil] at htaken
  simp only [System.step, hw]
  refine ⟨inv_step false (.work 0) h.service, h.driver, h.outcomes, ?_, ?_⟩
  · simp only [Display.step, List.map_append, htaken, taking_driving hw 0]
  · simp only [Display.step, h.results, List.append_assoc]
    rw [ended_publishing hw 0]

theorem coupled_step (e : SysEvent) (h : Coupled b lib d0 s) : Coupled b lib d0 (s.step b lib e) := by
  cases e with
  | call c => exact coupled_call c h
  | submit => exact coupled_submit h
  | work disk ready spi busy =>
    cases hw : s.traced.service.worker.driving with
    | none => exact coupled_other h hw disk ready spi busy
    | some cmd =>
      have hrunning : s.traced.service.worker = .running cmd := by
        cases hworker : s.traced.service.worker with
        | running cmd' =>
          rw [hworker] at hw
          rw [Option.some.inj hw]
        | _ => simp [hworker, Worker.driving] at hw
      exact coupled_running h hrunning disk ready spi busy

/-! ## The screen after any commands -/

theorem rested_carried (ps : List (Request × Int)) {d : Driver} (hr : d.panel.Rested) :
    (run (carried b lib) d ps).panel.Rested := by
  refine run_inv (fun d : Driver => d.panel.Rested) hr fun d p _ hr => ?_
  obtain ⟨new, -, hr', -⟩ := serve_displays b lib p.1 hr
  exact hr'

/-- The screen is as it was, or it shows a frame of one of the commands. -/
theorem screen_carried (ps : List (Request × Int)) {d : Driver} (hr : d.panel.Rested) (screen : Screen) :
    (screen.after (run (carried b lib) d ps).panel.rx).glass = (screen.after d.panel.rx).glass ∨
      ∃ p ∈ ps, ∃ frame, FrameOf b lib p.1 frame ∧
        HoldsFrame (screen.after (run (carried b lib) d ps).panel.rx).glass frame := by
  induction ps generalizing d with
  | nil => exact .inl rfl
  | cons p ps ih =>
    obtain ⟨new, hrx, hr', hdisplays⟩ := serve_displays b lib p.1 hr
    rw [run_cons]
    rcases ih (d := carried b lib d p) hr' with hsame | ⟨q, hq, hshown⟩
    · have hfirst := hdisplays.only (screen.after d.panel.rx)
      rw [← Screen.after_append, ← hrx] at hfirst
      rw [hsame]
      refine hfirst.imp id fun ⟨frame, hframe⟩ => ?_
      exact ⟨p, List.mem_cons_self, frame, hframe⟩
    · exact .inr ⟨q, List.mem_cons_of_mem _ hq, hshown⟩

/-- After a success the screen shows a frame of that command, or of a later one. -/
theorem screen_success {before after : List (Request × Int)} {r : Request} {d : Driver} (hr : d.panel.Rested)
    (houtcomes : Meets (carried b lib) (fun d p => p.2 = (serve b lib d p.1).1) d (before ++ (r, 0) :: after))
    (hsupported : AllSupported r.spi) (screen : Screen) :
    ∃ p ∈ (r, 0) :: after, ∃ frame, FrameOf b lib p.1 frame ∧
      HoldsFrame (screen.after (run (carried b lib) d (before ++ (r, 0) :: after)).panel.rx).glass frame := by
  have hr1 := @rested_carried b lib before d hr
  have hzero : (0 : Int) = (serve b lib (run (carried b lib) d before) r).1 := by
    rw [List.append_cons] at houtcomes
    exact houtcomes.of_append.of_concat
  rw [run_append, run_cons]
  generalize run (carried b lib) d before = d1 at hr1 hzero ⊢
  obtain ⟨new, hrx, hr2, hdisplays⟩ := serve_displays b lib r hr1
  obtain ⟨frame, hframe, hholds⟩ := hdisplays.done hzero.symm hsupported
  rcases screen_carried after hr2 screen with hsame | ⟨q, hq, hshown⟩
  · refine ⟨_, List.mem_cons_self, frame, hframe, ?_⟩
    refine hsame ▸ ?_
    rw [hrx, Screen.after_append]
    exact hholds _
  · exact ⟨q, List.mem_cons_of_mem _ hq, hshown⟩

/-- Nothing is to be seen of the initialisation. -/
theorem glass_init (spi : List (Option (Nat × Nat))) (busy : List Bool) (screen : Screen) :
    (screen.after (el133_init spi busy).2.panel.rx).glass = screen.glass := by
  have hkeeps : Keeps (Sends (·.op ≠ EL133_DRF)) epd_init_registers := by
    refine keeps_each_until fun c hc d => ?_
    have hop : c.2.1 ≠ EL133_DRF := by
      revert c
      decide
    exact (sends_xfer_cmd _ _ _ d).mono fun x hx => by rw [hx]; exact hop
  apply screen.glass_after
  rcases init_cases spi busy with h | h
  · rw [h]
    exact List.forall_mem_nil _
  · rw [h]
    obtain ⟨-, new, hrx, hop⟩ := hkeeps (wait_ready ⟨false, false, [], spi, busy⟩).2 fun _ => rfl
    rw [hrx]
    exact hop

/-! ## Any run -/

variable (b lib) in
/-- What the calls, the worker and the screen have to do with each other. -/
structure ReachesGlass (screen : Screen) (s : System) : Prop where
  in_order : s.performed.map (·.1.cmd) <+: s.traced.accepted.map (·.order.cmd)
  one_behind : s.traced.accepted.length ≤ s.performed.length + 1
  published : s.traced.results <+: s.performed.map (·.2)
  one_unpublished : s.performed.length ≤ s.traced.results.length + 1
  nothing_else : (screen.after s.driver.panel.rx).glass = screen.glass ∨ ∃ p ∈ s.performed, ∃ frame,
    FrameOf b lib p.1 frame ∧ HoldsFrame (screen.after s.driver.panel.rx).glass frame
  last_success : ∀ before r after, s.performed = before ++ (r, 0) :: after → AllSupported r.spi →
    ∃ p ∈ (r, 0) :: after, ∃ frame,
      FrameOf b lib p.1 frame ∧ HoldsFrame (screen.after s.driver.panel.rx).glass frame

/-- After any calls and steps of the worker, with any failures: commands are carried out in the order of their calls,
and the screen shows the frame of the last command that ended well or of a later one that failed. -/
theorem orders_reach_glass (b : Build) (lib : Lz4Lib) (spi : List (Option (Nat × Nat))) (busy : List Bool)
    (es : List SysEvent) (screen : Screen) :
    ReachesGlass b lib screen (run (System.step b lib) (powered spi busy) es) := by
  have h : Coupled b lib (el133_init spi busy).2 (run (System.step b lib) (powered spi busy) es) :=
    run_inv _ (coupled_powered spi busy) fun s e _ h => coupled_step e h
  generalize run (System.step b lib) (powered spi busy) es = s at h ⊢
  have hr0 := rested_init spi busy
  have horders : s.traced.accepted.map (·.order.cmd) =
      s.traced.taken.map (·.cmd) ++ (waiting s.traced.service).map (·.cmd) := by
    rw [← List.map_append, ← h.service.orders, List.map_map]
    rfl
  have hdriving : s.traced.service.worker.driving.toList.length + (waiting s.traced.service).length ≤ 1 := by
    unfold waiting
    cases hp : s.traced.service.has_pending with
    | false => cases s.traced.service.worker <;> simp [Worker.driving]
    | true =>
      have hsingle := h.service.single hp
      cases hw : s.traced.service.worker <;> simp_all [Worker.driving, Worker.current]
  have hended : s.traced.service.worker.ended.toList.length ≤ 1 := by
    cases s.traced.service.worker.ended with
    | none => exact Nat.zero_le 1
    | some ret => exact Nat.le_refl 1
  rw [h.taken, List.append_assoc] at horders
  constructor
  · rw [horders]
    exact List.prefix_append _ _
  · have hlen := congrArg List.length horders
    simp only [List.length_append, List.length_map] at hlen
    omega
  · rw [h.results]
    exact List.prefix_append _ _
  · have hlen := congrArg List.length h.results
    simp only [List.length_append, List.length_map] at hlen
    omega
  · have hscreen := @screen_carried b lib s.performed _ hr0 screen
    rw [← h.driver, glass_init] at hscreen
    exact hscreen
  · intro before r after hsplit hsupported
    have houtcomes := h.outcomes
    rw [h.driver]
    rw [hsplit] at houtcomes ⊢
    exact screen_success hr0 houtcomes hsupported screen

end EinkNode.Display
