import EinkNode.Lib.Runs
/-!
# The hooks of cJSON

The allocator of cJSON is one pair of functions for the whole program. The HTTP
thread of `eink_http.c` puts a bump arena there for the time of a section, under
a mutex and with the work queue of Mender suspended; Mender puts its own
allocator there when it starts. The two parties step in any order.
-/
open NodeLib

namespace EinkNode.Http

inductive Allocator
  | libc
  | arena
  | mender
deriving DecidableEq

/-- A block, by the allocator that it is from and its place there. -/
structure Block where
  allocator : Allocator
  addr : Nat
deriving DecidableEq

/-- The hooks, the arena, the guard, and the blocks that each party still has to release. -/
structure CjsonState where
  hooks : Allocator
  cjson_arena_used : Nat
  locked : Bool
  mender_started : Bool
  mender_wq_thread : Bool
  mender_wq_suspended : Bool
  http_live : List Block
  mender_live : List Block
  heap_next : Nat
deriving DecidableEq

/-- Before `eink_http_start` and `mender_client_init`. -/
def CjsonState.init : CjsonState := ⟨.libc, 0, false, false, false, false, [], [], 0⟩

namespace CjsonState

/-! ## Sections -/

def cJSON_InitHooks (s : CjsonState) (hooks : Allocator) : CjsonState := { s with hooks := hooks }

/-- The thread is looked up once it is needed; it is there once Mender has started. -/
def mender_wq_suspend_for_cjson (s : CjsonState) : CjsonState :=
  let mender_wq_thread := s.mender_wq_thread || s.mender_started
  { s with mender_wq_thread := mender_wq_thread, mender_wq_suspended := s.mender_wq_suspended || mender_wq_thread }

def mender_wq_resume_after_cjson (s : CjsonState) : CjsonState :=
  if s.mender_wq_thread && s.mender_wq_suspended then { s with mender_wq_suspended := false } else s

def cjson_arena_reset (s : CjsonState) : CjsonState := { s with cjson_arena_used := 0 }

def cjson_restore_mender_hooks (s : CjsonState) : CjsonState := s.cJSON_InitHooks .mender

def cjson_arena_enter (s : CjsonState) : CjsonState :=
  ({ s with locked := true } : CjsonState).mender_wq_suspend_for_cjson.cjson_arena_reset.cJSON_InitHooks .arena

/-- What the section has not released is not used any more. -/
def cjson_arena_leave (s : CjsonState) : CjsonState :=
  { s.cjson_restore_mender_hooks.cjson_arena_reset.mender_wq_resume_after_cjson with locked := false, http_live := [] }

/-! ## Blocks -/

/-- `cjson_arena_alloc`: the size is rounded up to a multiple of 8. -/
def cjson_arena_alloc (arena_size : Nat) (s : CjsonState) (size : Nat) : Option Block × CjsonState :=
  let aligned := (size + 7) / 8 * 8
  if s.cjson_arena_used + aligned > arena_size then (none, s)
  else (some ⟨.arena, s.cjson_arena_used⟩, { s with cjson_arena_used := s.cjson_arena_used + aligned })

/-- A heap that has room or not. -/
def heap_alloc (heap : Allocator) (s : CjsonState) (room : Bool) : Option Block × CjsonState :=
  if room then (some ⟨heap, s.heap_next⟩, { s with heap_next := s.heap_next + 1 }) else (none, s)

/-- An allocation of cJSON goes where the hooks say. -/
def cJSON_malloc (arena_size : Nat) (s : CjsonState) (size : Nat) (room : Bool) : Option Block × CjsonState :=
  match s.hooks with
  | .arena => s.cjson_arena_alloc arena_size size
  | heap => s.heap_alloc heap room

end CjsonState

/-! ## Steps -/

inductive CjsonEvent
  | enter
  | http_alloc (size : Nat) (room : Bool)
  | http_free (block : Block)
  | leave
  | mender_start
  | mender_alloc (size : Nat) (room : Bool)
  | mender_free (block : Block)

namespace CjsonState

/-- The work queue of Mender can step. -/
def wq_runs (s : CjsonState) : Bool := s.mender_started && !s.mender_wq_suspended

/-- The steps that a party can take. Each releases only what it has. -/
def can (s : CjsonState) : CjsonEvent → Bool
  | .enter => !s.locked
  | .http_alloc _ _ => s.locked
  | .http_free block => s.locked && s.http_live.contains block
  | .leave => s.locked
  | .mender_start => !s.mender_started
  | .mender_alloc _ _ => s.wq_runs
  | .mender_free block => s.wq_runs && s.mender_live.contains block

variable (arena_size : Nat)

/-- A step that a party can take. -/
def take (s : CjsonState) : CjsonEvent → CjsonState
  | .enter => s.cjson_arena_enter
  | .http_alloc size room =>
    let (block, s) := s.cJSON_malloc arena_size size room
    { s with http_live := block.toList ++ s.http_live }
  | .http_free block => { s with http_live := s.http_live.erase block }
  | .leave => s.cjson_arena_leave
  | .mender_start => { s.cJSON_InitHooks .mender with mender_started := true }
  | .mender_alloc size room =>
    let (block, s) := s.cJSON_malloc arena_size size room
    { s with mender_live := block.toList ++ s.mender_live }
  | .mender_free block => { s with mender_live := s.mender_live.erase block }

def step (s : CjsonState) (e : CjsonEvent) : CjsonState := if s.can e then s.take arena_size e else s

/-- The block that a step passes to a free function, and whose function that is. -/
def released (s : CjsonState) : CjsonEvent → Option (Block × Allocator)
  | .http_free block => if s.can (.http_free block) then some (block, s.hooks) else none
  | .mender_free block => if s.can (.mender_free block) then some (block, s.hooks) else none
  | _ => none

/-- Whatever comes next, a block is released by the allocator that it is from. -/
def ReleasesOwn (s : CjsonState) : Prop := ∀ e block free, s.released e = some (block, free) → block.allocator = free

/-- Mender does not start while the HTTP thread has a block of the arena. -/
def StartsOffArena (s : CjsonState) : CjsonEvent → Prop
  | .mender_start => s.mender_started = false → ∀ block ∈ s.http_live, block.allocator ≠ .arena
  | _ => True

/-! ## The invariant -/

variable {arena_size}

/-- An allocation changes neither the hooks nor the guard, and its block is from the allocator of the hooks. -/
theorem cJSON_malloc_spec (arena_size : Nat) (s : CjsonState) (size : Nat) (room : Bool) :
    (∀ block ∈ (s.cJSON_malloc arena_size size room).1, block.allocator = s.hooks) ∧
    ∃ used next, (s.cJSON_malloc arena_size size room).2 = { s with cjson_arena_used := used, heap_next := next } := by
  have hheap (heap : Allocator) : (∀ block ∈ (s.heap_alloc heap room).1, block.allocator = heap) ∧
      ∃ used next, (s.heap_alloc heap room).2 = { s with cjson_arena_used := used, heap_next := next } := by
    unfold heap_alloc
    split
    · exact ⟨by simp, _, _, rfl⟩
    · exact ⟨nofun, _, _, rfl⟩
  unfold cJSON_malloc
  split
  · next harena =>
    unfold cjson_arena_alloc
    dsimp only
    split
    · exact ⟨nofun, _, _, rfl⟩
    · exact ⟨by simp [harena], _, _, rfl⟩
  · exact hheap s.hooks

/-- The guard works for the work queue once its thread is there. -/
structure HooksInv (s : CjsonState) : Prop where
  outside : s.locked = false → s.http_live = [] ∧ s.mender_wq_suspended = false
  thread : s.mender_wq_suspended = true → s.mender_wq_thread = true
  running : s.wq_runs = true → s.hooks = .mender
  before_start : s.locked = true → s.mender_started = false → s.hooks = .arena
  arena_blocks : s.hooks = .arena → ∀ block ∈ s.http_live, block.allocator = .arena
  mender_blocks : ∀ block ∈ s.mender_live, block.allocator = .mender

theorem hooksInv_init : HooksInv .init where
  outside _ := ⟨rfl, rfl⟩
  thread h := nomatch h
  running h := nomatch h
  before_start h := nomatch h
  arena_blocks h := nomatch h
  mender_blocks := nofun

/-- In such a state the step that may go wrong is a release by the HTTP thread. -/
theorem releasesOwn_iff {s : CjsonState} (hi : HooksInv s) :
    s.ReleasesOwn ↔ ∀ block ∈ s.http_live, block.allocator = s.hooks := by
  constructor
  · intro h block hb
    cases hl : s.locked with
    | false =>
      rw [(hi.outside hl).1] at hb
      cases hb
    | true => exact h (.http_free block) block s.hooks (by simp [released, can, hl, hb])
  · intro h e block free he
    cases e with
    | http_free b =>
      simp only [released, can, Bool.and_eq_true, List.contains_iff_mem, Option.ite_none_right_eq_some] at he
      obtain ⟨⟨-, hmem⟩, hpair⟩ := he
      cases hpair
      exact h _ hmem
    | mender_free b =>
      simp only [released, can, Bool.and_eq_true, List.contains_iff_mem, Option.ite_none_right_eq_some] at he
      obtain ⟨⟨hruns, hmem⟩, hpair⟩ := he
      cases hpair
      exact (hi.mender_blocks _ hmem).trans (hi.running hruns).symm
    | _ => cases he

/-- The thread of Mender is suspended in a section if it is there. -/
theorem suspended_in_section (s : CjsonState) (hsusp : s.mender_wq_suspended = false) :
    (s.cjson_arena_enter.mender_wq_suspended = true → s.cjson_arena_enter.mender_wq_thread = true) ∧
    s.cjson_arena_enter.wq_runs = false := by
  cases ht : s.mender_wq_thread <;> cases hm : s.mender_started <;>
    simp [cjson_arena_enter, mender_wq_suspend_for_cjson, cjson_arena_reset, cJSON_InitHooks, wq_runs, ht, hm, hsusp]

theorem resumed_outside (s : CjsonState) (h : s.mender_wq_suspended = true → s.mender_wq_thread = true) :
    s.cjson_arena_leave.mender_wq_suspended = false ∧ s.cjson_arena_leave.hooks = .mender ∧
    s.cjson_arena_leave.mender_live = s.mender_live := by
  cases ht : s.mender_wq_thread <;> cases hs : s.mender_wq_suspended <;>
    simp_all [cjson_arena_leave, cjson_restore_mender_hooks, mender_wq_resume_after_cjson, cjson_arena_reset,
      cJSON_InitHooks]

theorem hooksInv_step {s : CjsonState} (hi : HooksInv s) (e : CjsonEvent) : HooksInv (s.step arena_size e) := by
  unfold step
  split
  · next hcan =>
    cases e with
    | enter =>
      obtain ⟨hlive, hsusp⟩ := hi.outside (by simpa [can] using hcan)
      obtain ⟨hthread, hruns⟩ := suspended_in_section s hsusp
      refine ⟨nofun, hthread, fun h => absurd (hruns.symm.trans h) Bool.false_ne_true, fun _ _ => rfl,
        fun _ block hb => ?_, hi.mender_blocks⟩
      rw [show (s.take arena_size .enter).http_live = s.http_live from rfl, hlive] at hb
      cases hb
    | http_alloc size room =>
      obtain ⟨hown, used, next, hs⟩ := cJSON_malloc_spec arena_size s size room
      have hlocked : s.locked = true := hcan
      simp only [take, hs]
      refine ⟨fun hl => absurd (hl.symm.trans hlocked) Bool.false_ne_true, hi.thread, hi.running, hi.before_start,
        fun ha b hb => ?_, hi.mender_blocks⟩
      rcases List.mem_append.1 hb with hb | hb
      · exact (hown b (Option.mem_toList.1 hb)).trans ha
      · exact hi.arena_blocks ha b hb
    | http_free block =>
      refine ⟨fun hl => ?_, hi.thread, hi.running, hi.before_start,
        fun ha b hb => hi.arena_blocks ha b (List.mem_of_mem_erase hb), hi.mender_blocks⟩
      obtain ⟨hlive, hsusp⟩ := hi.outside hl
      exact ⟨by simp [take, hlive], hsusp⟩
    | leave =>
      obtain ⟨hsusp, hhooks, hlive⟩ := resumed_outside s hi.thread
      refine ⟨fun _ => ⟨rfl, hsusp⟩, fun h => absurd (hsusp.symm.trans h) Bool.false_ne_true, fun _ => hhooks, nofun,
        fun _ => nofun, fun b hb => hi.mender_blocks b ?_⟩
      rw [← hlive]
      exact hb
    | mender_start =>
      exact ⟨hi.outside, hi.thread, fun _ => rfl, fun _ hstopped => absurd hstopped.symm Bool.false_ne_true,
        fun ha => absurd ha nofun, hi.mender_blocks⟩
    | mender_alloc size room =>
      obtain ⟨hown, used, next, hs⟩ := cJSON_malloc_spec arena_size s size room
      have hruns : s.wq_runs = true := hcan
      simp only [take, hs]
      refine ⟨hi.outside, hi.thread, hi.running, hi.before_start, hi.arena_blocks, fun b hb => ?_⟩
      rcases List.mem_append.1 hb with hb | hb
      · exact (hown b (Option.mem_toList.1 hb)).trans (hi.running hruns)
      · exact hi.mender_blocks b hb
    | mender_free block =>
      exact ⟨hi.outside, hi.thread, hi.running, hi.before_start, hi.arena_blocks,
        fun b hb => hi.mender_blocks b (List.mem_of_mem_erase hb)⟩
  · exact hi

/-- Only a start of Mender can leave the HTTP thread with a block that is not from the allocator of the hooks. -/
theorem releasesOwn_step_iff {s : CjsonState} (hi : HooksInv s) (h : s.ReleasesOwn) (e : CjsonEvent) :
    (s.step arena_size e).ReleasesOwn ↔ s.StartsOffArena e := by
  rw [releasesOwn_iff (hooksInv_step hi e)]
  have hown := (releasesOwn_iff hi).1 h
  by_cases hcan : s.can e = true
  · rw [step, if_pos hcan]
    cases e with
    | enter =>
      refine ⟨fun _ => trivial, fun _ b hb => ?_⟩
      rw [show (s.take arena_size .enter).http_live = s.http_live from rfl,
        (hi.outside (by simpa [can] using hcan)).1] at hb
      cases hb
    | http_alloc size room =>
      obtain ⟨hblock, used, next, hs⟩ := cJSON_malloc_spec arena_size s size room
      refine ⟨fun _ => trivial, fun _ b hb => ?_⟩
      simp only [take, hs] at hb ⊢
      rcases List.mem_append.1 hb with hb | hb
      · exact hblock b (Option.mem_toList.1 hb)
      · exact hown b hb
    | http_free block => exact ⟨fun _ => trivial, fun _ b hb => hown b (List.mem_of_mem_erase hb)⟩
    | leave => exact ⟨fun _ => trivial, fun _ => nofun⟩
    | mender_start =>
      have hstopped : s.mender_started = false := by simpa [can] using hcan
      constructor
      · intro hafter _ b hb hb'
        exact absurd ((hafter b hb).symm.trans hb') nofun
      · intro hoff b hb
        -- Before the start the blocks of a section are of the arena, so there are none.
        cases hl : s.locked with
        | false =>
          rw [show (s.take arena_size .mender_start).http_live = s.http_live from rfl, (hi.outside hl).1] at hb
          cases hb
        | true => exact absurd (hi.arena_blocks (hi.before_start hl hstopped) b hb) (hoff hstopped b hb)
    | mender_alloc size room =>
      obtain ⟨-, used, next, hs⟩ := cJSON_malloc_spec arena_size s size room
      refine ⟨fun _ => trivial, fun _ b hb => ?_⟩
      simp only [take, hs] at hb ⊢
      exact hown b hb
    | mender_free block => exact ⟨fun _ => trivial, fun _ => hown⟩
  · rw [step, if_neg hcan]
    refine ⟨fun _ => ?_, fun _ => hown⟩
    cases e with
    | mender_start =>
      intro hstopped
      exact absurd (by simp [can, hstopped]) hcan
    | _ => trivial

/-- In every run, whatever step comes next releases its block by the allocator it
is from, if and only if Mender never starts while the HTTP thread has a block of
the arena. -/
theorem releases_own_iff (arena_size : Nat) (es : List CjsonEvent) :
    (∀ n, (run (step arena_size) init (es.take n)).ReleasesOwn) ↔ Meets (step arena_size) StartsOffArena init es :=
  forall_take_iff_meets HooksInv hooksInv_init ((releasesOwn_iff hooksInv_init).2 nofun)
    (fun _ e hi => hooksInv_step hi e) fun _ e hi h => releasesOwn_step_iff hi h e

/-- Mender starts while the HTTP thread has an object, which then goes to `mender_free`. -/
theorem start_in_section_mixes :
    ¬(run (step 262144) init [.enter, .http_alloc 40 true, .mender_start]).ReleasesOwn := by
  intro h
  have hown := h (.http_free ⟨.arena, 0⟩) ⟨.arena, 0⟩ .mender (by decide)
  exact absurd hown (by decide)

end CjsonState

end EinkNode.Http
