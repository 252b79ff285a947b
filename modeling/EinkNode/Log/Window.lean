import EinkNode.Log.Ring
/-!
# The ring and the caller's buffer

A ring of any size, with the buffer that a snapshot is stored in. `eink log status` prints the two counters, of which
only the number of bytes forgets what the ring has forgotten.
-/
open NodeLib

namespace EinkNode.Log

namespace Window

variable (RING_SIZE : Nat)

def eink_log_ring_bytes (r : LogRing) : Nat := r.ring.len

def eink_log_ring_line_count (r : LogRing) : Nat := r.ring_lines

/-- The loop of the snapshot, up to index `n`. -/
def copy_out (r : LogRing) (start : Nat) (dst : Bytes) : Nat → Bytes
  | 0 => dst
  | n + 1 => (copy_out r start dst n).set n (r.ring.slots ((start + n) % RING_SIZE))

/-- What is returned, and the buffer. -/
def eink_log_ring_snapshot (r : LogRing) (dst : Bytes) : Nat × Bytes :=
  if dst.length = 0 then (0, dst)
  else
    let n := min r.ring.len (dst.length - 1)
    if n = 0 then (0, dst.set 0 0)
    else
      let start := if r.ring.len < RING_SIZE then 0 else r.ring.head
      (n, (copy_out RING_SIZE r start dst n).set n 0)

variable {RING_SIZE}

/-- A store right behind what is already written. -/
theorem set_next {n : Nat} {front dst : Bytes} (hfront : front.length = n) (hn : n < dst.length) (c : UInt8) :
    (front ++ dst.drop n).set n c = front ++ c :: dst.drop (n + 1) := by
  subst hfront
  rw [List.set_append_right _ _ (Nat.le_refl _), Nat.sub_self, List.drop_eq_getElem_cons hn, List.set_cons_zero]

/-- The loop overwrites the head of the buffer and nothing behind it. -/
theorem copy_out_eq (r : LogRing) (start : Nat) (dst : Bytes) {n : Nat} (hn : n ≤ dst.length) :
    copy_out RING_SIZE r start dst n =
      ((List.range n).map fun i => r.ring.slots ((start + i) % RING_SIZE)) ++ dst.drop n := by
  induction n with
  | zero => simp [copy_out]
  | succ n ih =>
    rw [copy_out, ih (Nat.le_of_succ_le hn), set_next (by simp) hn, List.range_succ]
    simp

/-- The buffer after a snapshot: what was read, the terminator, and what stood behind it. -/
theorem snapshot_read (r : LogRing) (dst : Bytes) (hdst : 0 < dst.length) :
    eink_log_ring_snapshot RING_SIZE r dst =
      (min r.ring.len (dst.length - 1),
        r.ring.read RING_SIZE (min r.ring.len (dst.length - 1)) ++
          0 :: dst.drop (min r.ring.len (dst.length - 1) + 1)) := by
  have hlt : min r.ring.len (dst.length - 1) < dst.length := by omega
  unfold eink_log_ring_snapshot
  rw [if_neg (Nat.ne_of_gt hdst)]
  simp only
  split
  · next hzero =>
    have hnil : ([] : Bytes).length = 0 := rfl
    rw [hzero] at hlt ⊢
    exact congrArg (Prod.mk 0) (set_next hnil hlt 0)
  · rw [copy_out_eq _ _ _ (Nat.le_of_lt hlt), set_next (by simp) hlt]
    rfl

/-- The upload takes what a snapshot stores before the terminator. -/
theorem snapshot_stored (b : LogBuild) (r : LogRing) (dst : Bytes) :
    (eink_log_ring_snapshot b.RING_SIZE r dst).2.take (eink_log_ring_snapshot b.RING_SIZE r dst).1 =
      Log.eink_log_ring_snapshot b r dst.length := by
  rcases Nat.eq_zero_or_pos dst.length with hzero | hpos
  · rw [eink_log_ring_snapshot, Log.eink_log_ring_snapshot, if_pos hzero, if_pos hzero, List.take_zero]
  · rw [snapshot_read r dst hpos, Log.eink_log_ring_snapshot, if_neg (Nat.ne_of_gt hpos)]
    exact List.take_left' (by simp [RingBuffer.read])

/-- A ring of any size, after any writes, is the window of the last bytes, and a
snapshot is the head of it that fits. -/
theorem snapshot_window (writes : List Bytes) (dst : Bytes) (hdst : 1 ≤ dst.length) :
    let r := writes.foldl (char_out RING_SIZE) .empty
    let s := writes.flatten
    let k := min (min s.length RING_SIZE) (dst.length - 1)
    eink_log_ring_bytes r = min s.length RING_SIZE ∧
      eink_log_ring_snapshot RING_SIZE r dst =
        (k, (s.drop (s.length - min s.length RING_SIZE)).take k ++ 0 :: dst.drop (k + 1)) := by
  intro r s k
  have h : RingBuffer.Holds RING_SIZE s r.ring := holds_run writes
  have hk : min r.ring.len (dst.length - 1) = k := by rw [h.len]
  have hdrop : s.length - min s.length RING_SIZE = s.length - RING_SIZE := by omega
  refine ⟨h.len, ?_⟩
  rw [snapshot_read r dst hdst, hk, hdrop, RingBuffer.read_eq h (by omega)]

theorem snapshot_window_of_five :
    let r := [[(104 : UInt8), 101], [108, 108, 111]].foldl (char_out 4) .empty
    eink_log_ring_bytes r = 4 ∧ eink_log_ring_snapshot 4 r [7, 7, 7, 7] = (3, [101, 108, 108, 0]) :=
  snapshot_window [[104, 101], [108, 108, 111]] [7, 7, 7, 7] (by decide)

/-! ## The two counters -/

/-- What the ring has in it, the oldest byte first. -/
def retained (b : LogBuild) (r : LogRing) : Bytes := r.ring.read b.RING_SIZE (eink_log_ring_bytes r)

/-- The bytes that have been overwritten. -/
def evicted (b : LogBuild) (s : Bytes) : Bytes := s.take (s.length - b.RING_SIZE)

variable (b : LogBuild)

theorem retained_run (writes : List Bytes) :
    retained b (writes.foldl (Log.char_out b) .empty) = writes.flatten.drop (writes.flatten.length - b.RING_SIZE) := by
  have h : RingBuffer.Holds b.RING_SIZE writes.flatten (writes.foldl (Log.char_out b) .empty).ring := holds_run writes
  rw [retained, eink_log_ring_bytes, RingBuffer.read_eq h (Nat.le_refl _), h.len]
  exact List.take_of_length_le (by rw [List.length_drop]; omega)

/-- The writer counts every newline that goes in. -/
theorem lines_write {r : LogRing} {k : Nat} (h : r.ring_lines = k % 2 ^ 32) (data : Bytes) :
    (Log.char_out b r data).ring_lines = (k + data.count newline) % 2 ^ 32 := by
  have hwrite : (ring_write_locked b.RING_SIZE r data).ring_lines = (k + data.count newline) % 2 ^ 32 := by
    induction data generalizing r k with
    | nil => exact h
    | cons c data ih =>
      have hputc : (ring_putc_locked b.RING_SIZE r c).ring_lines = (k + [c].count newline) % 2 ^ 32 := by
        simp only [ring_putc_locked, List.count_singleton, beq_iff_eq, h]
        split <;> omega
      have hcount : (c :: data).count newline = [c].count newline + data.count newline := by
        rw [← List.count_append, List.singleton_append]
      rw [hcount, ← Nat.add_assoc]
      exact ih hputc
  unfold Log.char_out char_out
  split
  · next hnil => rw [hnil, List.count_nil, Nat.add_zero, h]
  · exact hwrite

/-- Nothing takes a newline out of the count again. -/
theorem lines_run (writes : List Bytes) :
    (writes.foldl (Log.char_out b) .empty).ring_lines = writes.flatten.count newline % 2 ^ 32 := by
  have hgen (r : LogRing) (k : Nat) (h : r.ring_lines = k % 2 ^ 32) :
      (writes.foldl (Log.char_out b) r).ring_lines = (k + writes.flatten.count newline) % 2 ^ 32 := by
    induction writes generalizing r k with
    | nil => exact h
    | cons data writes ih =>
      rw [List.flatten_cons, List.count_append, ← Nat.add_assoc]
      exact ih _ _ (lines_write b h data)
  simpa using hgen .empty 0 rfl

/-- What the counter is ahead of the ring by, as a `size_t` counts. -/
theorem lines_ahead (writes : List Bytes) :
    eink_log_ring_line_count (writes.foldl (Log.char_out b) .empty) =
      ((evicted b writes.flatten).count newline +
        (retained b (writes.foldl (Log.char_out b) .empty)).count newline) % 2 ^ 32 := by
  have hsplit : evicted b writes.flatten ++ retained b (writes.foldl (Log.char_out b) .empty) = writes.flatten := by
    rw [retained_run]
    exact List.take_append_drop _ _
  rw [← List.count_append, hsplit]
  exact lines_run b writes

/-- The ring has far less room than the counter. -/
theorem retained_count_lt (writes : List Bytes) :
    (retained b (writes.foldl (Log.char_out b) .empty)).count newline < 2 ^ 32 := by
  have hcount : (retained b (writes.foldl (Log.char_out b) .empty)).count newline ≤ _ := List.count_le_length
  have hrange := b.range.2
  rw [retained_run, List.length_drop] at hcount
  rw [retained_run]
  omega

/-- The counter is the number of newlines in the ring exactly when none has been
overwritten, give or take a turn of the counter. -/
theorem line_count_iff (writes : List Bytes) :
    let r := writes.foldl (Log.char_out b) .empty
    eink_log_ring_line_count r = (retained b r).count newline ↔
      2 ^ 32 ∣ (evicted b writes.flatten).count newline := by
  intro r
  have hlt : (retained b r).count newline < 2 ^ 32 := retained_count_lt b writes
  rw [lines_ahead b writes]
  change ((evicted b writes.flatten).count newline + (retained b r).count newline) % 2 ^ 32 = _ ↔ _
  omega

/-- A line that a ring full of other text has replaced is still counted. -/
theorem line_count_stale : ¬ ∀ (b : LogBuild) (writes : List Bytes),
    let r := writes.foldl (Log.char_out b) .empty
    eink_log_ring_line_count r = (retained b r).count newline := by
  intro hall
  have hgen (body : Bytes) (hbody : body.length = 4096) : False := by
    have hcount := hall ⟨4096, by decide, by decide⟩ [[newline], body]
    have hevicted : evicted ⟨4096, by decide, by decide⟩ [[newline], body].flatten = [newline] := by
      simp [evicted, hbody]
    have hahead := lines_ahead ⟨4096, by decide, by decide⟩ [[newline], body]
    have hlt := retained_count_lt ⟨4096, by decide, by decide⟩ [[newline], body]
    simp only at hcount
    rw [hevicted, List.count_singleton_self] at hahead
    omega
  exact hgen (List.replicate 4096 97) List.length_replicate

end Window

end EinkNode.Log
