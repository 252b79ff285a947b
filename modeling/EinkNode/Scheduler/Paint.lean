import EinkNode.Scheduler.Service
import EinkNode.Store.Expand
import EinkNode.Store.Meta
/-!
# The scheduler on the store

The calls of `eink_scheduler.c` with what they do to the disk: the schedule and
the last job are saved, an image is looked up before it is shown, and the
display expands a compressed one. What the display answers stays an argument.
-/
open NodeLib EinkNode.Store

namespace EinkNode.Scheduler

variable (b : Build) (lib : Lz4Lib) (fire_and_forget : Bool)

/-- What the store answers to one `show_job_locked_copy`. A command that the
display accepts has a compressed image expanded for the panel. -/
def ask_store (image_id : Id) (a : ShowAnswers) : FS ShowAnswers := do
  match ← eink_store_resolve_show_path b image_id.val 300 with
  | .error e => pure { a with resolve_show_path := e }
  | .ok (path, _) =>
    let valid ← eink_store_has_valid_image b image_id.val
    if valid ∧ a.show_path = 0 then
      let _ ← eink_store_materialize_es6f lib b (snprintf 256 path) 320
      pure { a with resolve_show_path := 0, has_valid_image := valid }
    else pure { a with resolve_show_path := 0, has_valid_image := valid }

/-- The last job is saved when a show has set it. -/
def save_shown (advance_state : Bool) (shown : Int × State) : FS (Int × State) := do
  if shown.1 = 1 ∧ advance_state then
    let _ ← eink_store_save_state b shown.2.last_job
    pure shown
  else pure shown

def tick_on_store (st : State) (now : Int) (a : ShowAnswers) : FS (Int × State) := do
  match eink_scheduler_due_image st now with
  | none => pure (eink_scheduler_tick fire_and_forget st now a)
  | some image_id =>
    let a ← ask_store b lib image_id a
    save_shown b true (eink_scheduler_tick fire_and_forget st now a)

def repaint_on_store (st : State) (now : Int) (a : ShowAnswers) : FS (Int × State) := do
  match eink_scheduler_current_image st now with
  | none => pure (eink_scheduler_repaint fire_and_forget st now a)
  | some image_id =>
    let a ← ask_store b lib image_id a
    let shown := eink_scheduler_repaint fire_and_forget st now a
    save_shown b (st.last_job.val = [] || st.last_job ≠ shown.2.last_job) shown

/-- `eink_scheduler_tick`, and `eink_scheduler_repaint` when it had nothing to show. -/
def paint (st : State) (tick_now repaint_now : Int) (tick repaint : ShowAnswers) : FS (Int × State) := do
  let ticked ← tick_on_store b lib fire_and_forget st tick_now tick
  if ticked.1 = 0 then repaint_on_store b lib fire_and_forget ticked.2 repaint_now repaint else pure ticked

def set_schedule_on_store (st : State) (sched : Schedule) (now : Int) : FS State := do
  let st := (eink_scheduler_set_schedule st (some sched) now now).2
  let _ ← eink_store_save_schedule b st.sched
  pure st

/-- The image for the panel: a new one that is due, or the current one. -/
def image_to_show (st : State) (due_at current_at : Int) : Bytes :=
  match eink_scheduler_due_image st due_at with
  | some image_id => image_id.val
  | none =>
    match eink_scheduler_current_image st current_at with
    | some image_id => image_id.val
    | none => []

/-! ## What painting writes to -/

section
variable {b} {W : Path → Prop}

theorem touches_save_shown (hs : W (path_state b)) (ht : W (path_state b ++ ascii ".tmp")) (adv : Bool)
    (shown : Int × State) : Keeps (Touches W) (save_shown b adv shown) :=
  keeps_ite (keeps_bind (touches_save_text ht hs _) fun _ => keeps_pure _) (keeps_pure _)

theorem touches_ask_store (hp : W (paint_path b)) (image_id : Id) (a : ShowAnswers) :
    Keeps (Touches W) (ask_store b lib image_id a) := by
  refine keeps_bind (touches_resolve b _ _) ?_
  rintro (e | ⟨path, is_lz4⟩)
  · exact keeps_pure _
  · refine keeps_bind (touches_has_valid_image b _) fun valid => keeps_ite ?_ (keeps_pure _)
    exact keeps_bind (touches_materialize lib b hp _ _) fun _ => keeps_pure _

/-- Painting writes to the scratch file and the file of the last job. -/
theorem touches_paint (hp : W (paint_path b)) (hs : W (path_state b)) (ht : W (path_state b ++ ascii ".tmp"))
    (st : State) (tick_now repaint_now : Int) (tick repaint : ShowAnswers) :
    Keeps (Touches W) (paint b lib fire_and_forget st tick_now repaint_now tick repaint) := by
  have htick (st : State) (now : Int) (a : ShowAnswers) :
      Keeps (Touches W) (tick_on_store b lib fire_and_forget st now a) := by
    unfold tick_on_store
    cases eink_scheduler_due_image st now with
    | none => exact keeps_pure _
    | some image_id => exact keeps_bind (touches_ask_store lib hp _ _) fun _ => touches_save_shown hs ht _ _
  have hrepaint (st : State) (now : Int) (a : ShowAnswers) :
      Keeps (Touches W) (repaint_on_store b lib fire_and_forget st now a) := by
    unfold repaint_on_store
    cases eink_scheduler_current_image st now with
    | none => exact keeps_pure _
    | some image_id => exact keeps_bind (touches_ask_store lib hp _ _) fun _ => touches_save_shown hs ht _ _
  exact keeps_bind (htick _ _ _) fun ticked => keeps_ite (hrepaint _ _ _) (keeps_pure _)

theorem touches_set_schedule (hs : W (path_sched b)) (ht : W (path_sched b ++ ascii ".tmp")) (st : State)
    (sched : Schedule) (now : Int) : Keeps (Touches W) (set_schedule_on_store b st sched now) :=
  keeps_bind (touches_save_schedule ht hs _) fun _ => keeps_pure _

end

end EinkNode.Scheduler
