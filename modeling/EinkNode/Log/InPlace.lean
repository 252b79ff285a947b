import EinkNode.Log.Redact
/-!
# The redactor in memory

The loops of `eink_log_ring_redact_inplace` with their pointers: addresses are
indices of a memory, and every store is one byte. On a buffer that ends in a NUL
they do what the list functions of the redactor do, and leave the rest of the
memory as it is.
-/
open NodeLib

namespace EinkNode.Log

namespace InPlace

/-! ## The loops -/

def memcpy (mem : Bytes) (dst : Nat) : Bytes → Bytes
  | [] => mem
  | c :: src => memcpy (mem.set dst c) (dst + 1) src

/-- Offset of the first `c` among the `n` bytes at `p`. -/
def memchr (mem : Bytes) (p : Nat) (c : UInt8) (n : Nat) : Option Nat := ((mem.drop p).take n).idxOf? c

/-- `for (i = copy; i < line_len; i++) line[i] = ' '` -/
def pad (mem : Bytes) (line line_len i : Nat) : Bytes :=
  if i < line_len then pad (mem.set (line + i) blank) line line_len (i + 1) else mem
termination_by line_len - i

def wipe (mem : Bytes) (line line_len : Nat) : Bytes :=
  let copy := min rep.length line_len
  pad (memcpy mem line (rep.take copy)) line line_len copy

/-- The search for `eink cred`, from index `i` on. -/
def kill_from (mem : Bytes) (line line_len i : Nat) : Bool :=
  if i + 9 ≤ line_len then
    if reads eink_cred (mem.drop (line + i)) then true else kill_from mem line line_len (i + 1)
  else false
termination_by line_len + 9 - i

/-- The loop over a token; `stop` is the end of the line. -/
def mask_tok (mem : Bytes) (tok stop : Nat) : Bytes × Nat :=
  if tok < stop ∧ in_tok (mem.getD tok 0) = true then mask_tok (mem.set tok 120) (tok + 1) stop else (mem, tok)
termination_by stop - tok

theorem mask_tok_le (mem : Bytes) (tok stop : Nat) : tok ≤ (mask_tok mem tok stop).2 := by
  fun_induction mask_tok mem tok stop with
  | case1 mem tok h ih => exact Nat.le_of_succ_le ih
  | case2 mem tok h => exact Nat.le_refl tok

/-- The search for `Bearer `, from `p` to the end of the line. -/
def mask_from (mem : Bytes) (p stop : Nat) : Bytes :=
  if _h : p + 7 ≤ stop then
    if reads bearer (mem.drop p) then mask_from (mask_tok mem (p + 7) stop).1 (mask_tok mem (p + 7) stop).2 stop
    else mask_from mem (p + 1) stop
  else mem
termination_by stop + 7 - p
decreasing_by
  · have := mask_tok_le mem (p + 7) stop
    omega
  · omega

/-- The lines from `line` on; `stop` is `buf + len`. -/
def redact_from (mem : Bytes) (line stop : Nat) : Bytes :=
  if _h : line < stop ∧ mem.getD line 0 ≠ 0 then
    let nl := memchr mem line newline (stop - line)
    let line_len := nl.getD (cstring (mem.drop line)).length
    let mem := if kill_from mem line line_len 0 then wipe mem line line_len else mask_from mem line (line + line_len)
    if nl = none then mem else redact_from mem (line + line_len + 1) stop
  else mem
termination_by stop - line

def eink_log_ring_redact_inplace (mem : Bytes) (buf len : Nat) : Bytes := redact_from mem buf (buf + len)

end InPlace

open InPlace

/-! ## One line -/

/-- A key that fits in what is left of the line does not depend on what is behind it. -/
theorem reads_of_fits {key p : Bytes} (h : key.length ≤ p.length) (back : Bytes) :
    reads key (p ++ back) = reads key p := by
  rw [Bool.eq_iff_iff, reads_iff, reads_iff, List.map_append]
  refine ⟨fun hkey => ?_, fun hkey => hkey.trans (List.prefix_append _ _)⟩
  exact List.prefix_of_prefix_length_le hkey (List.prefix_append _ _) (by rw [List.length_map]; exact h)

theorem memcpy_append (mem : Bytes) (dst : Nat) (src src' : Bytes) :
    memcpy mem dst (src ++ src') = memcpy (memcpy mem dst src) (dst + src.length) src' := by
  induction src generalizing mem dst with
  | nil => rfl
  | cons c src ih =>
    rw [List.cons_append, memcpy, ih, memcpy, List.length_cons, Nat.add_assoc, Nat.add_comm 1]

theorem memcpy_eq (front old back : Bytes) {src : Bytes} (h : src.length = old.length) :
    memcpy (front ++ old ++ back) front.length src = front ++ src ++ back := by
  induction src generalizing front old with
  | nil => rw [List.eq_nil_of_length_eq_zero h.symm, memcpy]
  | cons c src ih =>
    obtain ⟨d, old, rfl⟩ := List.exists_cons_of_length_pos (l := old) (by rw [← h]; exact Nat.succ_pos _)
    have hset : (front ++ d :: old ++ back).set front.length c = (front ++ [c]) ++ old ++ back := by simp
    have hlen : front.length + 1 = (front ++ [c]).length := by simp
    rw [memcpy, hset, hlen, ih (front ++ [c]) old (Nat.succ.inj h)]
    simp

theorem pad_eq (mem : Bytes) (line line_len i : Nat) :
    pad mem line line_len i = memcpy mem (line + i) (List.replicate (line_len - i) blank) := by
  fun_induction pad mem line line_len i with
  | case1 mem i h ih =>
    have hsub : line_len - i = (line_len - (i + 1)) + 1 := by omega
    rw [ih, hsub, List.replicate_succ, memcpy, Nat.add_assoc]
  | case2 mem i h => rw [Nat.sub_eq_zero_of_le (Nat.le_of_not_lt h), List.replicate_zero, memcpy]

theorem length_wiped (line_len : Nat) : (wiped line_len).length = line_len := by
  simp [wiped]
  omega

theorem wipe_eq (front l back : Bytes) :
    wipe (front ++ l ++ back) front.length l.length = front ++ wiped l.length ++ back := by
  have hcopy : rep.take (min rep.length l.length) = rep.take l.length := List.take_eq_take_iff.2 (by omega)
  have hlen : min rep.length l.length = (rep.take l.length).length := by rw [List.length_take, Nat.min_comm]
  have hpad : l.length - (rep.take l.length).length = l.length - rep.length := by
    rw [List.length_take]
    omega
  unfold wipe
  dsimp only
  rw [pad_eq, hcopy, hlen, ← memcpy_append, hpad]
  exact memcpy_eq front l back (length_wiped _)

theorem kill_of_short {l : Bytes} (h : l.length < 9) : kill l = false := by
  rw [Bool.eq_false_iff, ne_eq, kill_iff]
  intro hkey
  have hle : 9 ≤ (l.map lower).length := hkey.length_le
  rw [List.length_map] at hle
  omega

/-- The key does not reach behind what is left of the line. -/
theorem kill_from_eq (front done l back : Bytes) :
    kill_from (front ++ done ++ l ++ back) front.length (done.length + l.length) done.length = kill l := by
  have hlen : eink_cred.length = 9 := by decide
  induction l generalizing done with
  | nil =>
    rw [kill_from, if_neg (by simp), kill_nil]
  | cons c cs ih =>
    have hdrop : (front ++ done ++ (c :: cs) ++ back).drop (front.length + done.length) = (c :: cs) ++ back := by
      rw [List.append_assoc _ _ back, ← List.length_append, List.drop_left' rfl]
    have hnext := ih (done ++ [c])
    have hassoc : front ++ (done ++ [c]) ++ cs ++ back = front ++ done ++ (c :: cs) ++ back := by simp
    have hsum : (done ++ [c]).length + cs.length = done.length + (c :: cs).length := by
      simp
      omega
    rw [hassoc, hsum, List.length_append, List.length_singleton] at hnext
    have hkill : kill (c :: cs) = (reads eink_cred (c :: cs) || kill cs) := by simp [kill]
    by_cases hfits : done.length + 9 ≤ done.length + (c :: cs).length
    · rw [kill_from, if_pos hfits, hdrop, hnext, hkill, reads_of_fits (by rw [hlen]; omega)]
      cases reads eink_cred (c :: cs) <;> rfl
    · rw [kill_from, if_neg hfits, kill_of_short (by omega)]

theorem mask_tok_eq (front l back : Bytes) :
    mask_tok (front ++ l ++ back) front.length (front.length + l.length) =
      (front ++ mask l ++ l.dropWhile in_tok ++ back, front.length + (mask l).length) := by
  induction l generalizing front with
  | nil =>
    rw [mask_tok, if_neg (by simp)]
    simp [mask]
  | cons c cs ih =>
    have hget : (front ++ (c :: cs) ++ back).getD front.length 0 = c := by simp
    rw [mask_tok, hget]
    by_cases hc : in_tok c = true
    · have hset : (front ++ (c :: cs) ++ back).set front.length 120 = (front ++ [120]) ++ cs ++ back := by simp
      have hlen : front.length + 1 = (front ++ [120]).length := by simp
      have hstop : front.length + (c :: cs).length = (front ++ [120]).length + cs.length := by
        simp
        omega
      rw [if_pos ⟨by simp, hc⟩, hset, hstop, hlen, ih]
      simp [mask, List.takeWhile_cons_of_pos hc, List.dropWhile_cons_of_pos hc]
      omega
    · rw [if_neg fun h => hc h.2]
      simp [mask, List.takeWhile_cons_of_neg hc, List.dropWhile_cons_of_neg hc]

/-- Where less than the key is left of the line, the loop has ended, and nothing is masked. -/
theorem mask_from_eq (front l back : Bytes) :
    mask_from (front ++ l ++ back) front.length (front.length + l.length) = front ++ mask_bearer l ++ back := by
  have hlen : bearer.length = 7 := by decide
  fun_induction mask_bearer l generalizing front with
  | case1 =>
    rw [mask_from, dif_neg (by simp)]
  | case2 c cs hreads ih =>
    have hseven := reads_bearer_length hreads
    have hdrop : (front ++ (c :: cs) ++ back).drop front.length = (c :: cs) ++ back := by simp
    have htok := mask_tok_eq (front ++ (c :: cs).take 7) ((c :: cs).drop 7) back
    have hmem : front ++ (c :: cs).take 7 ++ (c :: cs).drop 7 ++ back = front ++ (c :: cs) ++ back := by
      rw [List.append_assoc front, List.take_append_drop]
    have hp : (front ++ (c :: cs).take 7).length = front.length + 7 := by
      rw [List.length_append, List.length_take, Nat.min_eq_left hseven]
    have hstop : front.length + 7 + ((c :: cs).drop 7).length = front.length + (c :: cs).length := by
      rw [List.length_drop]
      omega
    rw [hmem, hp, hstop] at htok
    rw [mask_from, dif_pos (by omega), hdrop, if_pos (reads_append hreads back), htok]
    have hsplit := congrArg List.length (List.takeWhile_append_dropWhile (p := in_tok) (l := (c :: cs).drop 7))
    have hnext := ih (front ++ (c :: cs).take 7 ++ mask ((c :: cs).drop 7))
    have hp' : (front ++ (c :: cs).take 7 ++ mask ((c :: cs).drop 7)).length =
        front.length + 7 + (mask ((c :: cs).drop 7)).length := by rw [List.length_append, hp]
    have hstop' : front.length + 7 + (mask ((c :: cs).drop 7)).length + (((c :: cs).drop 7).dropWhile in_tok).length =
        front.length + (c :: cs).length := by
      rw [List.length_append] at hsplit
      rw [mask, List.length_map]
      omega
    rw [hp', hstop'] at hnext
    rw [hnext]
    simp only [List.append_assoc]
  | case3 c cs hreads ih =>
    have hdrop : (front ++ (c :: cs) ++ back).drop front.length = (c :: cs) ++ back := by simp
    have hnext := ih (front ++ [c])
    have hmem : front ++ [c] ++ cs ++ back = front ++ (c :: cs) ++ back := by simp
    have hstop : (front ++ [c]).length + cs.length = front.length + (c :: cs).length := by
      simp
      omega
    rw [hmem, hstop, List.length_append, List.length_singleton] at hnext
    have hgoes : mask_from (front ++ (c :: cs) ++ back) front.length (front.length + (c :: cs).length) =
        mask_from (front ++ (c :: cs) ++ back) (front.length + 1) (front.length + (c :: cs).length) := by
      by_cases hfits : front.length + 7 ≤ front.length + (c :: cs).length
      · have hnone : ¬ reads bearer (c :: cs ++ back) = true := by
          rw [reads_of_fits (by omega)]
          exact hreads
        rw [mask_from, dif_pos hfits, hdrop, if_neg hnone]
      · rw [mask_from, dif_neg hfits, mask_from, dif_neg (by omega)]
    rw [hgoes, hnext]
    simp

theorem length_mask_bearer (l : Bytes) : (mask_bearer l).length = l.length := by
  fun_induction mask_bearer l with
  | case1 => rfl
  | case2 c cs hreads ih =>
    have hseven := reads_bearer_length hreads
    have hsplit := congrArg List.length (List.takeWhile_append_dropWhile (p := in_tok) (l := (c :: cs).drop 7))
    rw [List.length_append, List.length_drop] at hsplit
    rw [List.length_append, List.length_append, List.length_take, ih, mask, List.length_map]
    omega
  | case3 c cs hreads ih => rw [List.length_cons, ih, List.length_cons]

theorem length_redact_line (l : Bytes) : (redact_line l).length = l.length := by
  unfold redact_line
  split
  · exact length_wiped _
  · exact length_mask_bearer l

theorem redact_line_eq (front l back : Bytes) :
    (if kill_from (front ++ l ++ back) front.length l.length 0 then wipe (front ++ l ++ back) front.length l.length
      else mask_from (front ++ l ++ back) front.length (front.length + l.length)) = front ++ redact_line l ++ back := by
  have hkill := kill_from_eq front [] l back
  rw [List.append_nil, List.length_nil, Nat.zero_add] at hkill
  rw [hkill, redact_line]
  split
  · exact wipe_eq front l back
  · exact mask_from_eq front l back

/-! ## The text -/

theorem memchr_none {front l back : Bytes} (hl : newline ∉ l) :
    memchr (front ++ l ++ back) front.length newline l.length = none := by
  rw [memchr, List.append_assoc, List.drop_left' rfl, List.take_left' rfl]
  exact List.idxOf?_eq_none_iff.2 hl

theorem memchr_some {front l r back : Bytes} (hl : newline ∉ l) :
    memchr (front ++ (l ++ newline :: r) ++ back) front.length newline (l ++ newline :: r).length = some l.length := by
  rw [memchr, List.append_assoc, List.drop_left' rfl, List.take_left' rfl]
  induction l with
  | nil => simp [List.idxOf?_cons]
  | cons c l ih =>
    have hc : (c == newline) = false := beq_false_of_ne fun h => hl (h ▸ List.mem_cons_self)
    simp [List.idxOf?_cons, hc, ih fun h => hl (List.mem_cons_of_mem c h)]

theorem head_ne_zero {l : Bytes} (h0 : (0 : UInt8) ∉ l) : l.head? ≠ some 0 := fun h => h0 (List.mem_of_head? h)

theorem zero_notMem_parts {l r : Bytes} (h : (0 : UInt8) ∉ l ++ newline :: r) : (0 : UInt8) ∉ l ∧ (0 : UInt8) ∉ r :=
  ⟨fun hl => h (List.mem_append_left _ hl), fun hr => h (List.mem_append_right _ (List.mem_cons_of_mem _ hr))⟩

/-- On a text that ends in a NUL, the loops in memory are the list functions. -/
theorem redact_from_eq (front text after : Bytes) (h0 : (0 : UInt8) ∉ text) :
    redact_from (front ++ text ++ 0 :: after) front.length (front.length + text.length) =
      front ++ Log.eink_log_ring_redact_inplace text ++ 0 :: after := by
  induction text using line_induction generalizing front with
  | last l hl =>
    rw [redact_last hl (head_ne_zero h0), cstring_of_notMem h0, List.drop_length, List.append_nil]
    cases l with
    | nil =>
      rw [redact_from, dif_neg (by simp)]
      simp [redact_line, kill_nil, mask_bearer]
    | cons c cs =>
      have hget : (front ++ (c :: cs) ++ 0 :: after).getD front.length 0 = c := by simp
      have hc : c ≠ 0 := fun h => h0 (h ▸ List.mem_cons_self)
      have hcstring : cstring ((front ++ (c :: cs) ++ 0 :: after).drop front.length) = c :: cs := by
        rw [List.append_assoc, List.drop_left' rfl, cstring_append h0]
        simp [cstring]
      rw [redact_from, dif_pos ⟨by simp, by rw [hget]; exact hc⟩]
      dsimp only
      rw [Nat.add_sub_cancel_left, memchr_none hl, Option.getD_none, hcstring, if_pos rfl]
      exact redact_line_eq _ _ _
  | cons l r hl ih =>
    obtain ⟨hl0, hr0⟩ := zero_notMem_parts h0
    have hmem : front ++ (l ++ newline :: r) ++ 0 :: after = front ++ l ++ (newline :: r ++ 0 :: after) := by simp
    have hget : (front ++ (l ++ newline :: r) ++ 0 :: after).getD front.length 0 ≠ 0 := by
      cases l with
      | nil =>
        simp
        decide
      | cons c cs =>
        simp
        exact fun h => hl0 (h ▸ List.mem_cons_self)
    have hnext := ih (front ++ redact_line l ++ [newline]) hr0
    have hmem' : front ++ redact_line l ++ [newline] ++ r ++ 0 :: after =
        front ++ redact_line l ++ (newline :: r ++ 0 :: after) := by simp
    have hline : (front ++ redact_line l ++ [newline]).length = front.length + l.length + 1 := by
      simp [length_redact_line]
      omega
    have hstop : front.length + l.length + 1 + r.length = front.length + (l ++ newline :: r).length := by
      rw [List.length_append, List.length_cons]
      omega
    rw [hmem', hline, hstop] at hnext
    have hlt : front.length < front.length + (l ++ newline :: r).length := by
      rw [List.length_append, List.length_cons]
      omega
    rw [redact_cons hl (head_ne_zero hl0), redact_from, dif_pos ⟨hlt, hget⟩]
    dsimp only
    rw [Nat.add_sub_cancel_left, memchr_some hl, Option.getD_some, if_neg (Option.some_ne_none _), hmem,
      redact_line_eq, hnext]
    simp

end EinkNode.Log
