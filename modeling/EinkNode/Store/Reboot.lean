import EinkNode.Http.ConfigCache
import EinkNode.Lib.Quoted
import EinkNode.Store.Meta
/-!
# The schedule after a reboot

`eink_store_save_schedule` prints the texts of a job between quotes as they are,
and `eink_store_load_schedule` looks for the keys wherever they stand in the
object and for the brace that ends it. Which schedules come back?
-/
open NodeLib EinkNode.Scheduler EinkNode.Http

namespace EinkNode.Store

/-! ## When a job comes back -/

/-- The only closing brace is the last byte. -/
def BraceLast (s : Bytes) : Prop := s.dropWhile (· ≠ 125) = [125]

instance (s : Bytes) : Decidable (BraceLast s) := inferInstanceAs (Decidable (_ = _))

/-- The job is the last one that the table holds, so nothing is read after it,
and the text that a brace cuts off says nothing. -/
def CutAtEnd (i : Nat) (j : Job) : Prop :=
  i + 1 = EINK_MAX_JOBS ∧ j.next_run_unix = 0 ∧
    (125 ∉ j.image_id.val ∧ BraceLast j.cron.val ∨
      BraceLast j.image_id.val ∧ (j.job_id.val = ascii "cron" ∨ j.cron.val = []))

/-- A text that is the name of a key is taken for the key: what follows is then read for the value. -/
structure KeysKept (j : Job) : Prop where
  image_id : j.job_id.val = ascii "image_id" → j.image_id.val = ascii "image_id"
  cron : j.job_id.val = ascii "cron" → j.cron.val = ascii "image_id"
  cron_image : j.job_id.val ≠ ascii "cron" → j.image_id.val = ascii "cron" → j.cron.val = ascii "cron"
  next_run : j.job_id.val = ascii "next_run" ∨ j.image_id.val = ascii "next_run" → j.next_run_unix = 0

/-- The job at place `i` of the table comes back. -/
structure Survives (i : Nat) (j : Job) : Prop where
  named : j.job_id.val ≠ [] ∧ j.image_id.val ≠ []
  unquoted : 34 ∉ j.job_id.val ∧ 34 ∉ j.image_id.val ∧ 34 ∉ j.cron.val
  keys : KeysKept j
  braces : 125 ∉ j.job_id.val ∧ (125 ∉ j.image_id.val ∧ 125 ∉ j.cron.val ∨ CutAtEnd i j)

/-! ## Reading one object -/

/-- The segment after the next one, behind a key. -/
def value_of (rest : Option (List Bytes)) : Bytes := (rest.getD []).tail.headD []

/-- The number behind the next colon. -/
def number_of (rest : Option (List Bytes)) : Int :=
  ((rest.bind fun r => strchr (joined 34 r) 58).map fun k => strtoll (k.drop 1)).getD 0

theorem quoted_after_eq (objbuf key : Bytes) (cap : Nat) :
    quoted_after objbuf key cap =
      ((((strstr objbuf key).map (·.drop key.length)).bind fun p => (strchr p 34).map (·.drop 1)).getD []
        |>.takeWhile (· ≠ 34)).take (cap - 1) := by
  unfold quoted_after
  cases strstr objbuf key with
  | none => exact List.take_nil.symm
  | some k =>
    rw [Option.map_some, Option.bind_some, Option.bind_some]
    cases strchr (k.drop key.length) 34 with
    | none => exact List.take_nil.symm
    | some q => rfl

theorem quoted_after_joined (key : Bytes) {s : Bytes} {ss : List Bytes} (hkey : 34 ∉ key) (hs : ∀ t ∈ s :: ss, 34 ∉ t)
    (cap : Nat) :
    quoted_after (joined 34 (s :: ss)) (34 :: (key ++ [34])) cap = (value_of (after_key key ss)).take (cap - 1) := by
  rw [quoted_after_eq, show (34 :: (key ++ [34])).length = key.length + 2 by simp, strstr_joined hkey hs]
  cases hk : after_key key ss with
  | none => rfl
  | some r =>
    obtain ⟨hne, hmem⟩ := after_key_some hk
    obtain ⟨t, r, rfl⟩ := List.exists_cons_of_ne_nil hne
    rw [Option.map_some, Option.bind_some, strchr_joined (hs t (List.mem_cons_of_mem _ (hmem t (by simp))))]
    cases r with
    | nil => rfl
    | cons v r =>
      rw [if_neg (List.cons_ne_nil _ _), Option.getD_some,
        takeWhile_joined (hs v (List.mem_cons_of_mem _ (hmem v (by simp))))]
      rfl

/-- The number behind the colon of a key. -/
theorem number_after_joined (key : Bytes) {s : Bytes} {ss : List Bytes} (hkey : 34 ∉ key) (hs : ∀ t ∈ s :: ss, 34 ∉ t) :
    number_after (joined 34 (s :: ss)) (34 :: (key ++ [34])) = number_of (after_key key ss) := by
  have hfind := strstr_joined hkey hs
  rw [show key.length + 2 = (34 :: (key ++ [34])).length by simp] at hfind
  unfold number_after
  have hbind : (strstr (joined 34 (s :: ss)) (34 :: (key ++ [34]))).bind
      (fun k => strchr (k.drop (34 :: (key ++ [34])).length) 58) =
      (after_key key ss).bind fun r => strchr (joined 34 r) 58 := by
    have hmap := congrArg (·.bind fun p => strchr p 58) hfind
    rwa [Option.bind_map, Option.bind_map] at hmap
  rw [hbind, number_of]
  cases (after_key key ss).bind fun r => strchr (joined 34 r) 58 <;> rfl

/-- The texts that are read have no quote. -/
theorem unquoted_of_parse {objbuf : Bytes} {j : Job} (h : parse_job objbuf = .ok j) :
    34 ∉ j.job_id.val ∧ 34 ∉ j.image_id.val ∧ 34 ∉ j.cron.val := by
  have hquoted (key : Bytes) (cap n : Nat) : 34 ∉ (cstring (quoted_after objbuf key cap)).take n := by
    intro hmem
    have hread := (List.takeWhile_prefix _).subset (List.mem_of_mem_take hmem)
    rw [quoted_after_eq] at hread
    simpa using List.mem_takeWhile_imp (List.mem_of_mem_take hread)
  unfold parse_job at h
  dsimp only at h
  split at h
  · cases h
  · cases h
    exact ⟨hquoted _ _ _, hquoted _ _ _, hquoted _ _ _⟩

theorem mem_value_of {key : Bytes} {ss : List Bytes} {c : UInt8} (h : c ∈ value_of (after_key key ss)) :
    ∃ s ∈ ss, c ∈ s := by
  unfold value_of at h
  cases hk : after_key key ss with
  | none =>
    rw [hk] at h
    cases h
  | some r =>
    rw [hk] at h
    obtain ⟨-, hmem⟩ := after_key_some hk
    rcases r with _ | ⟨t, _ | ⟨v, r⟩⟩
    · cases h
    · cases h
    · exact ⟨v, hmem v (by simp), h⟩

/-- An object is read as the job if and only if what stands behind the keys are its texts. -/
theorem parse_job_joined {s : Bytes} {ss : List Bytes} (hs : ∀ t ∈ s :: ss, 34 ∉ t) (hz : ∀ t ∈ ss, 0 ∉ t) (j : Job) :
    parse_job (joined 34 (s :: ss)) = .ok j ↔
      (j.job_id.val ≠ [] ∧ j.image_id.val ≠ []) ∧
      (value_of (after_key (ascii "job_id") ss)).take (EINK_ID_MAX - 1) = j.job_id.val ∧
      (value_of (after_key (ascii "image_id") ss)).take (EINK_ID_MAX - 1) = j.image_id.val ∧
      (value_of (after_key (ascii "cron") ss)).take (EINK_CRON_MAX - 1) = j.cron.val ∧
      number_of (after_key (ascii "next_run") ss) = j.next_run_unix := by
  have hjob : quoted_after (joined 34 (s :: ss)) (ascii "\"job_id\"") EINK_ID_MAX = _ :=
    quoted_after_joined (ascii "job_id") (by decide) hs _
  have himage : quoted_after (joined 34 (s :: ss)) (ascii "\"image_id\"") EINK_ID_MAX = _ :=
    quoted_after_joined (ascii "image_id") (by decide) hs _
  have hcron : quoted_after (joined 34 (s :: ss)) (ascii "\"cron\"") EINK_CRON_MAX = _ :=
    quoted_after_joined (ascii "cron") (by decide) hs _
  have hnumber : number_after (joined 34 (s :: ss)) (ascii "\"next_run\"") = _ :=
    number_after_joined (ascii "next_run") (by decide) hs
  have hcopy (key : Bytes) (n : Nat) : (cstring ((value_of (after_key key ss)).take n)).take n =
      (value_of (after_key key ss)).take n := by
    rw [cstring_of_notMem, List.take_take, Nat.min_self]
    intro h0
    obtain ⟨t, ht, h0⟩ := mem_value_of (List.mem_of_mem_take h0)
    exact hz t ht h0
  have hid (key : Bytes) : (CStr.copy EINK_ID_MAX ((value_of (after_key key ss)).take (EINK_ID_MAX - 1))).val =
      (value_of (after_key key ss)).take (EINK_ID_MAX - 1) := hcopy key _
  have hcronval : (CStr.copy EINK_CRON_MAX ((value_of (after_key (ascii "cron") ss)).take (EINK_CRON_MAX - 1))).val =
      (value_of (after_key (ascii "cron") ss)).take (EINK_CRON_MAX - 1) := hcopy _ _
  unfold parse_job
  rw [hjob, himage, hcron, hnumber]
  dsimp only
  obtain ⟨job_id, image_id, cron, next_run⟩ := j
  constructor
  · intro h
    split at h
    · cases h
    · next hne =>
      obtain ⟨hne1, hne2⟩ := not_or.1 hne
      cases h
      rw [hid, hid, hcronval]
      exact ⟨⟨hne1, hne2⟩, rfl, rfl, rfl, rfl⟩
  · rintro ⟨⟨hne1, hne2⟩, h1, h2, h3, h4⟩
    rw [if_neg (not_or.2 ⟨ne_of_eq_of_ne h1 hne1, ne_of_eq_of_ne h2 hne2⟩)]
    simp only [Except.ok.injEq, Job.mk.injEq]
    exact ⟨CStr.ext ((hid _).trans h1), CStr.ext ((hid _).trans h2), CStr.ext (hcronval.trans h3), h4⟩

/-! ## The object of a job -/

/-- The segments of an object behind its brace: the first text, the others, and the end. -/
def head_segments (job_id : Bytes) : List Bytes := [ascii "job_id", ascii ":", job_id]

def text_segments (key text : Bytes) : List Bytes := [ascii ",", key, ascii ":", text]

def number_segments (number : Bytes) : List Bytes := [ascii ",", ascii "next_run", ascii ":" ++ number]

theorem schedule_entry_eq (i : Nat) (j : Job) :
    schedule_entry i j = (if i = 0 then [] else ascii ",") ++
      joined 34 (ascii "\x7b" :: (head_segments j.job_id.val ++ text_segments (ascii "image_id") j.image_id.val ++
        text_segments (ascii "cron") j.cron.val ++ number_segments (decimalInt j.next_run_unix ++ ascii "\x7d"))) := by
  unfold schedule_entry
  simp [head_segments, text_segments, number_segments, joined, ascii]

section
variable (job_id image_id cron number : Bytes)

theorem value_job_id (ss : List Bytes) :
    value_of (after_key (ascii "job_id") (head_segments job_id ++ ss)) = job_id := rfl

/-- The other texts, where the whole object is read. -/
theorem values_whole :
    let ss := head_segments job_id ++ text_segments (ascii "image_id") image_id ++
      text_segments (ascii "cron") cron ++ number_segments number
    value_of (after_key (ascii "image_id") ss) =
      (if job_id = ascii "image_id" then ascii "image_id" else image_id) ∧
    value_of (after_key (ascii "cron") ss) =
      (if job_id = ascii "cron" then ascii "image_id" else if image_id = ascii "cron" then ascii "cron" else cron) ∧
    number_of (after_key (ascii "next_run") ss) =
      if job_id = ascii "next_run" ∨ image_id = ascii "next_run" then 0 else strtoll number := by
  simp +decide only [head_segments, text_segments, number_segments, List.cons_append, List.nil_append,
    after_key, if_false, if_true]
  refine ⟨?_, ?_, ?_⟩
  · split <;> rfl
  · split
    · rfl
    · split <;> rfl
  · by_cases hjob : job_id = ascii "next_run"
    · rw [if_pos hjob, if_pos (.inl hjob)]
      rfl
    · rw [if_neg hjob]
      by_cases himage : image_id = ascii "next_run"
      · rw [if_pos himage, if_pos (.inr himage)]
        rfl
      · rw [if_neg himage, if_neg (not_or.2 ⟨hjob, himage⟩)]
        split <;> rfl

/-- Where it ends in the text of `cron`. -/
theorem values_to_cron :
    let ss := head_segments job_id ++ text_segments (ascii "image_id") image_id ++ text_segments (ascii "cron") cron
    value_of (after_key (ascii "image_id") ss) =
      (if job_id = ascii "image_id" then ascii "image_id" else image_id) ∧
    value_of (after_key (ascii "cron") ss) =
      (if job_id = ascii "cron" then ascii "image_id" else if image_id = ascii "cron" then ascii "cron" else cron) ∧
    number_of (after_key (ascii "next_run") ss) = 0 := by
  simp +decide only [head_segments, text_segments, List.cons_append, List.nil_append,
    after_key, if_false, if_true]
  refine ⟨?_, ?_, ?_⟩
  · split <;> rfl
  · split
    · rfl
    · split <;> rfl
  · split
    · rfl
    · split <;> rfl

/-- Where it ends in the text of `image_id`. -/
theorem values_to_image :
    let ss := head_segments job_id ++ text_segments (ascii "image_id") image_id
    value_of (after_key (ascii "image_id") ss) =
      (if job_id = ascii "image_id" then ascii "image_id" else image_id) ∧
    value_of (after_key (ascii "cron") ss) = (if job_id = ascii "cron" then ascii "image_id" else []) ∧
    number_of (after_key (ascii "next_run") ss) = 0 := by
  simp +decide only [head_segments, text_segments, List.cons_append, List.nil_append, after_key, if_false, if_true]
  refine ⟨?_, ?_, ?_⟩
  · split <;> rfl
  · split <;> rfl
  · split <;> rfl

end

/-- The bytes that end a text or an object. The words of an object have none of them. -/
def EndsText (c : UInt8) : Prop := c = 0 ∨ c = 34 ∨ c = 125

theorem notMem_head {c : UInt8} (hc : EndsText c) {text : Bytes} (htext : c ∉ text) :
    ∀ t ∈ head_segments text, c ∉ t := by
  have hwords : c ∉ ascii "job_id" ∧ c ∉ ascii ":" := by
    rcases hc with rfl | rfl | rfl <;> decide
  intro t ht
  simp only [head_segments, List.mem_cons, List.not_mem_nil, or_false] at ht
  rcases ht with rfl | rfl | rfl
  · exact hwords.1
  · exact hwords.2
  · exact htext

theorem notMem_text {c : UInt8} (hc : EndsText c) {key text : Bytes} (hkey : c ∉ key) (htext : c ∉ text) :
    ∀ t ∈ text_segments key text, c ∉ t := by
  have hwords : c ∉ ascii "," ∧ c ∉ ascii ":" := by
    rcases hc with rfl | rfl | rfl <;> decide
  intro t ht
  simp only [text_segments, List.mem_cons, List.not_mem_nil, or_false] at ht
  rcases ht with rfl | rfl | rfl | rfl
  · exact hwords.1
  · exact hkey
  · exact hwords.2
  · exact htext

theorem notMem_number {c : UInt8} (hc : EndsText c) {number : Bytes} (hnumber : c ∉ number) :
    ∀ t ∈ number_segments number, c ∉ t := by
  have hwords : c ∉ ascii "," ∧ c ∉ ascii "next_run" ∧ c ∉ ascii ":" := by
    rcases hc with rfl | rfl | rfl <;> decide
  intro t ht
  simp only [number_segments, List.mem_cons, List.not_mem_nil, or_false] at ht
  rcases ht with rfl | rfl | rfl
  · exact hwords.1
  · exact hwords.2.1
  · rw [List.mem_append, not_or]
    exact ⟨hwords.2.2, hnumber⟩

theorem notMem_decimalInt {c : UInt8} (hc : EndsText c) (z : Int) : c ∉ decimalInt z := by
  intro h
  have := mem_decimalInt h
  rcases hc with rfl | rfl | rfl <;> revert this <;> decide

theorem notMem_keys {c : UInt8} (hc : EndsText c) : c ∉ ascii "image_id" ∧ c ∉ ascii "cron" := by
  rcases hc with rfl | rfl | rfl <;> decide

/-! ## Which objects are read as the job -/

section
variable {j : Job}

theorem take_id (id : Id) : id.val.take (EINK_ID_MAX - 1) = id.val := List.take_of_length_le id.fits

theorem take_cron (cron : CStr EINK_CRON_MAX) : cron.val.take (EINK_CRON_MAX - 1) = cron.val :=
  List.take_of_length_le cron.fits

/-- The object is read to its end. -/
theorem parse_whole_iff (hunq : 34 ∉ j.job_id.val ∧ 34 ∉ j.image_id.val ∧ 34 ∉ j.cron.val)
    (hlo : -(2 ^ 63) ≤ j.next_run_unix) (hhi : j.next_run_unix < 2 ^ 63) :
    parse_job (joined 34 (ascii "\x7b" :: (head_segments j.job_id.val ++
      text_segments (ascii "image_id") j.image_id.val ++ text_segments (ascii "cron") j.cron.val ++
      number_segments (decimalInt j.next_run_unix ++ ascii "\x7d")))) = .ok j ↔
    (j.job_id.val ≠ [] ∧ j.image_id.val ≠ []) ∧ KeysKept j := by
  have hfree {c : UInt8} (hc : EndsText c) (h1 : c ∉ j.job_id.val) (h2 : c ∉ j.image_id.val) (h3 : c ∉ j.cron.val)
      (h4 : c ∉ ascii "\x7d") :
      ∀ t ∈ head_segments j.job_id.val ++ text_segments (ascii "image_id") j.image_id.val ++
        text_segments (ascii "cron") j.cron.val ++ number_segments (decimalInt j.next_run_unix ++ ascii "\x7d"),
      c ∉ t := by
    have hnumber : c ∉ decimalInt j.next_run_unix ++ ascii "\x7d" := by
      rw [List.mem_append, not_or]
      exact ⟨notMem_decimalInt hc _, h4⟩
    simp only [List.forall_mem_append]
    exact ⟨⟨⟨notMem_head hc h1, notMem_text hc (notMem_keys hc).1 h2⟩, notMem_text hc (notMem_keys hc).2 h3⟩,
      notMem_number hc hnumber⟩
  have hs := hfree (.inr (.inl rfl)) hunq.1 hunq.2.1 hunq.2.2 (by decide)
  have hz := hfree (.inl rfl) j.job_id.noNul j.image_id.noNul j.cron.noNul (by decide)
  obtain ⟨himage, hcron, hnumber⟩ := values_whole j.job_id.val j.image_id.val j.cron.val
    (decimalInt j.next_run_unix ++ ascii "\x7d")
  rw [parse_job_joined (List.forall_mem_cons.2 ⟨by decide, hs⟩) hz, himage, hcron, hnumber,
    List.append_assoc, List.append_assoc, value_job_id, take_id, strtoll_decimalInt hlo hhi (by decide +kernel)]
  refine and_congr_right fun hne => ⟨?_, ?_⟩
  · rintro ⟨-, hi, hc, hn⟩
    refine ⟨fun h => ?_, fun h => ?_, fun hne h => ?_, fun h => ?_⟩
    · rw [if_pos h] at hi
      exact hi.symm
    · rw [if_pos h] at hc
      exact hc.symm
    · rw [if_neg hne, if_pos h] at hc
      exact hc.symm
    · rw [if_pos h] at hn
      exact hn.symm
  · intro hk
    refine ⟨rfl, ?_, ?_, ?_⟩
    · split
      · next h => exact (hk.image_id h).symm
      · exact take_id _
    · split
      · next h => exact (hk.cron h).symm
      · next hne =>
        split
        · next h => exact (hk.cron_image hne h).symm
        · exact take_cron _
    · split
      · next h => exact (hk.next_run h).symm
      · rfl

/-! ### Objects that a brace in a text ends -/

variable {t x x' : Bytes}

theorem mem_of_mem_cut (hx : t = x ++ 125 :: x') {c : UInt8} (h : c ∈ x ++ [125]) : c ∈ t := by
  rw [hx]
  rw [List.mem_append, List.mem_singleton] at h
  rw [List.mem_append, List.mem_cons]
  exact h.imp_right .inl

theorem cut_ne (hx : t = x ++ 125 :: x') {w : Bytes} (hw : 125 ∉ w) : t ≠ w := by
  rintro rfl
  exact hw (mem_of_mem_cut hx (by simp))

theorem cut_eq_iff (hx : t = x ++ 125 :: x') : x ++ [125] = t ↔ x' = [] := by
  rw [hx]
  simp [eq_comm]

theorem length_cut (hx : t = x ++ 125 :: x') {n : Nat} (h : t.length ≤ n) : (x ++ [125]).length ≤ n := by
  rw [hx, List.length_append, List.length_cons] at h
  rw [List.length_append, List.length_singleton]
  omega

/-- The object ends in the text of `cron`. -/
theorem parse_to_cron_iff (hunq : 34 ∉ j.job_id.val ∧ 34 ∉ j.image_id.val ∧ 34 ∉ j.cron.val)
    (hx : j.cron.val = x ++ 125 :: x') :
    parse_job (joined 34 (ascii "\x7b" :: (head_segments j.job_id.val ++
      text_segments (ascii "image_id") j.image_id.val ++ text_segments (ascii "cron") (x ++ [125])))) = .ok j ↔
    (j.job_id.val ≠ [] ∧ j.image_id.val ≠ []) ∧ KeysKept j ∧ x' = [] ∧ j.next_run_unix = 0 := by
  have hfree {c : UInt8} (hc : EndsText c) (h1 : c ∉ j.job_id.val) (h2 : c ∉ j.image_id.val) (h3 : c ∉ j.cron.val) :
      ∀ t ∈ head_segments j.job_id.val ++ text_segments (ascii "image_id") j.image_id.val ++
        text_segments (ascii "cron") (x ++ [125]), c ∉ t := by
    simp only [List.forall_mem_append]
    exact ⟨⟨notMem_head hc h1, notMem_text hc (notMem_keys hc).1 h2⟩,
      notMem_text hc (notMem_keys hc).2 fun h => h3 (mem_of_mem_cut hx h)⟩
  have hs := hfree (.inr (.inl rfl)) hunq.1 hunq.2.1 hunq.2.2
  have hz := hfree (.inl rfl) j.job_id.noNul j.image_id.noNul j.cron.noNul
  have hlen : (x ++ [125]).length ≤ EINK_CRON_MAX - 1 := length_cut hx j.cron.fits
  obtain ⟨himage, hcron, hnumber⟩ := values_to_cron j.job_id.val j.image_id.val (x ++ [125])
  rw [parse_job_joined (List.forall_mem_cons.2 ⟨by decide, hs⟩) hz, himage, hcron, hnumber, List.append_assoc,
    value_job_id, take_id]
  refine and_congr_right fun hne => ⟨?_, ?_⟩
  · rintro ⟨-, hi, hc, hn⟩
    have hnojob : j.job_id.val ≠ ascii "cron" := by
      intro h
      rw [if_pos h] at hc
      exact cut_ne hx (show 125 ∉ ascii "image_id" by decide) hc.symm
    rw [if_neg hnojob] at hc
    have hnoimage : j.image_id.val ≠ ascii "cron" := by
      intro h
      rw [if_pos h] at hc
      exact cut_ne hx (show 125 ∉ ascii "cron" by decide) hc.symm
    rw [if_neg hnoimage, List.take_of_length_le hlen, cut_eq_iff hx] at hc
    refine ⟨⟨fun h => ?_, fun h => absurd h hnojob, fun _ h => absurd h hnoimage, fun _ => hn.symm⟩, hc, hn.symm⟩
    rw [if_pos h] at hi
    exact hi.symm
  · rintro ⟨hk, hx', hn⟩
    have hnojob : j.job_id.val ≠ ascii "cron" := fun h => cut_ne hx (show 125 ∉ ascii "image_id" by decide) (hk.cron h)
    have hnoimage : j.image_id.val ≠ ascii "cron" := fun h =>
      cut_ne hx (show 125 ∉ ascii "cron" by decide) (hk.cron_image hnojob h)
    rw [if_neg hnojob, if_neg hnoimage, List.take_of_length_le hlen]
    refine ⟨rfl, ?_, (cut_eq_iff hx).2 hx', hn.symm⟩
    split
    · next h => exact (hk.image_id h).symm
    · exact take_id _

/-- The object ends in the text of `image_id`. -/
theorem parse_to_image_iff (hunq : 34 ∉ j.job_id.val ∧ 34 ∉ j.image_id.val) (hx : j.image_id.val = x ++ 125 :: x') :
    parse_job (joined 34 (ascii "\x7b" :: (head_segments j.job_id.val ++
      text_segments (ascii "image_id") (x ++ [125])))) = .ok j ↔
    (j.job_id.val ≠ [] ∧ j.image_id.val ≠ []) ∧ KeysKept j ∧ x' = [] ∧ j.next_run_unix = 0 ∧
      (j.job_id.val = ascii "cron" ∨ j.cron.val = []) := by
  have hfree {c : UInt8} (hc : EndsText c) (h1 : c ∉ j.job_id.val) (h2 : c ∉ j.image_id.val) :
      ∀ t ∈ head_segments j.job_id.val ++ text_segments (ascii "image_id") (x ++ [125]), c ∉ t := by
    simp only [List.forall_mem_append]
    exact ⟨notMem_head hc h1, notMem_text hc (notMem_keys hc).1 fun h => h2 (mem_of_mem_cut hx h)⟩
  have hs := hfree (.inr (.inl rfl)) hunq.1 hunq.2
  have hz := hfree (.inl rfl) j.job_id.noNul j.image_id.noNul
  have hlen : (x ++ [125]).length ≤ EINK_ID_MAX - 1 := length_cut hx j.image_id.fits
  obtain ⟨himage, hcron, hnumber⟩ := values_to_image j.job_id.val (x ++ [125])
  rw [parse_job_joined (List.forall_mem_cons.2 ⟨by decide, hs⟩) hz, himage, hcron, hnumber, value_job_id, take_id]
  refine and_congr_right fun hne => ⟨?_, ?_⟩
  · rintro ⟨-, hi, hc, hn⟩
    have hnoimage : j.job_id.val ≠ ascii "image_id" := by
      intro h
      rw [if_pos h] at hi
      exact cut_ne hx (show 125 ∉ ascii "image_id" by decide) hi.symm
    rw [if_neg hnoimage, List.take_of_length_le hlen, cut_eq_iff hx] at hi
    refine ⟨⟨fun h => absurd h hnoimage, fun h => ?_, fun _ h => absurd h (cut_ne hx (by decide)),
        fun _ => hn.symm⟩, hi,
      hn.symm, ?_⟩
    · rw [if_pos h] at hc
      exact hc.symm
    · by_cases h : j.job_id.val = ascii "cron"
      · exact .inl h
      · rw [if_neg h] at hc
        exact .inr hc.symm
  · rintro ⟨hk, hx', hn, hcron⟩
    have hnoimage : j.job_id.val ≠ ascii "image_id" := fun h =>
      cut_ne hx (show 125 ∉ ascii "image_id" by decide) (hk.image_id h)
    rw [if_neg hnoimage, List.take_of_length_le hlen]
    refine ⟨rfl, (cut_eq_iff hx).2 hx', ?_, hn.symm⟩
    split
    · next h => exact (hk.cron h).symm
    · next h => exact (hcron.resolve_left h).symm

/-- The object ends in the text of `job_id`. -/
theorem parse_to_job_ne (hunq : 34 ∉ j.job_id.val) (hx : j.job_id.val = x ++ 125 :: x') :
    parse_job (joined 34 (ascii "\x7b" :: head_segments (x ++ [125]))) ≠ .ok j := by
  have hs := notMem_head (.inr (.inl rfl)) fun h => hunq (mem_of_mem_cut hx h)
  have hz := notMem_head (.inl rfl) fun h => j.job_id.noNul (mem_of_mem_cut hx h)
  rw [ne_eq, parse_job_joined (List.forall_mem_cons.2 ⟨by decide, hs⟩) hz]
  rintro ⟨⟨-, hne⟩, -, himage, -⟩
  have hnone : value_of (after_key (ascii "image_id") (head_segments (x ++ [125]))) = [] := by
    simp +decide only [head_segments, after_key, if_false]
  rw [hnone] at himage
  exact hne himage.symm

end

/-! ## The loop over the objects -/

/-- Jobs that have been read stay, and no more are read than the table holds. -/
theorem parse_jobs_extends {turns : Nat} {jobs js : List Job} {p : Bytes} (h : parse_jobs turns jobs p = .ok js) :
    jobs <+: js ∧ (jobs.length ≤ EINK_MAX_JOBS → js.length ≤ EINK_MAX_JOBS) := by
  induction turns generalizing jobs p with
  | zero =>
    cases h
    exact ⟨List.prefix_rfl, id⟩
  | succ turns ih =>
    rw [parse_jobs] at h
    split at h
    · cases h
      exact ⟨List.prefix_rfl, id⟩
    · next hmore =>
      split at h
      · cases h
      · split at h
        · cases h
          exact ⟨List.prefix_rfl, id⟩
        · split at h
          · cases h
          · split at h
            · cases h
            · dsimp only at h
              split at h
              · cases h
              · split at h
                · cases h
                · obtain ⟨hpre, hbound⟩ := ih h
                  refine ⟨(List.prefix_append _ _).trans hpre, fun _ => hbound ?_⟩
                  rw [List.length_append, List.length_singleton]
                  exact Nat.lt_of_not_le (not_or.1 hmore).2

theorem parse_jobs_full {jobs : List Job} (h : EINK_MAX_JOBS ≤ jobs.length) (turns : Nat) (p : Bytes) :
    parse_jobs turns jobs p = .ok jobs := by
  cases turns with
  | zero => rfl
  | succ turns => rw [parse_jobs, if_pos (.inr h)]

/-- One object, up to its brace. -/
theorem parse_jobs_object {turns : Nat} {jobs : List Job} {filler x rest : Bytes} (hjobs : jobs.length < EINK_MAX_JOBS)
    (hfill : ∀ c ∈ filler, isFiller c = true) (hx : 125 ∉ x) (hlen : x.length + 2 < 384) :
    parse_jobs (turns + 1) jobs (filler ++ 123 :: (x ++ 125 :: rest)) =
      match parse_job (123 :: (x ++ [125])) with
      | .error e => .error e
      | .ok j => parse_jobs turns (jobs ++ [j]) rest := by
  have hne : filler ++ 123 :: (x ++ 125 :: rest) ≠ [] := by simp
  have hdrop : (filler ++ 123 :: (x ++ 125 :: rest)).dropWhile isFiller = 123 :: (x ++ 125 :: rest) := by
    rw [List.dropWhile_append_of_pos hfill]
    rfl
  have htake : ((123 : UInt8) :: (x ++ 125 :: rest)).take ((x ++ 125 :: rest).length - (125 :: rest).length + 2) =
      123 :: (x ++ [125]) := by
    rw [List.length_append, Nat.add_sub_cancel, show x.length + 2 = (x.length + 1) + 1 from rfl, List.take_succ_cons,
      List.take_length_add_append]
    rfl
  rw [parse_jobs, if_neg (not_or.2 ⟨hne, Nat.not_le.2 hjobs⟩), hdrop]
  dsimp only
  rw [if_neg (by decide), if_neg (by decide), strchr_append hx]
  dsimp only
  rw [htake, if_neg]
  · rfl
  · simp only [List.length_cons, List.length_append, List.length_nil]
    omega

/-- An object that ends at the first brace in its segments: it is read as `j`, and reading goes on behind it. -/
theorem parse_jobs_segments {turns : Nat} {jobs js : List Job} {filler x x' more : Bytes} {ss tt : List Bytes} {j : Job}
    (hjobs : jobs.length < EINK_MAX_JOBS) (hfill : ∀ c ∈ filler, isFiller c = true) (hx : ∀ s ∈ ss ++ [x], 125 ∉ s)
    (hlen : (joined 34 (ascii "\x7b" :: (ss ++ (x ++ 125 :: x') :: tt))).length < 384) :
    parse_jobs (turns + 1) jobs (filler ++ joined 34 (ascii "\x7b" :: (ss ++ (x ++ 125 :: x') :: tt)) ++ more) =
      .ok (jobs ++ j :: js) ↔
    parse_job (joined 34 (ascii "\x7b" :: (ss ++ [x ++ [125]]))) = .ok j ∧
      parse_jobs turns (jobs ++ [j]) (joined 34 (x' :: tt) ++ more) = .ok (jobs ++ j :: js) := by
  have hbrace (ts : List Bytes) (hts : ts ≠ []) : joined 34 (ascii "\x7b" :: ts) = 123 :: 34 :: joined 34 ts := by
    obtain ⟨t, ts, rfl⟩ := List.exists_cons_of_ne_nil hts
    rfl
  have htail : joined 34 ((125 :: x') :: tt) = 125 :: joined 34 (x' :: tt) := by
    cases tt <;> rfl
  have htext : joined 34 (ascii "\x7b" :: (ss ++ (x ++ 125 :: x') :: tt)) =
      123 :: (34 :: joined 34 (ss ++ [x]) ++ 125 :: joined 34 (x' :: tt)) := by
    rw [hbrace _ (by simp), joined_append_cons, htail]
    rfl
  have hobject : joined 34 (ascii "\x7b" :: (ss ++ [x ++ [125]])) = 123 :: (34 :: joined 34 (ss ++ [x]) ++ [125]) := by
    rw [hbrace _ (by simp), joined_append_cons]
    rfl
  have hmem : 125 ∉ (34 : UInt8) :: joined 34 (ss ++ [x]) := by
    rw [List.mem_cons, not_or]
    refine ⟨by decide, fun h => ?_⟩
    rcases mem_joined h with h | ⟨s, hs, hc⟩
    · exact absurd h (by decide)
    · exact hx s hs hc
  simp only [htext, List.length_cons, List.length_append] at hlen
  have hentry : filler ++ joined 34 (ascii "\x7b" :: (ss ++ (x ++ 125 :: x') :: tt)) ++ more =
      filler ++ 123 :: (34 :: joined 34 (ss ++ [x]) ++ 125 :: (joined 34 (x' :: tt) ++ more)) := by
    rw [htext]
    simp
  rw [hentry, hobject, parse_jobs_object hjobs hfill hmem (by rw [List.length_cons]; omega)]
  cases parse_job (123 :: (34 :: joined 34 (ss ++ [x]) ++ [125])) with
  | error e => simp
  | ok j' =>
    constructor
    · intro h
      obtain ⟨more', hmore⟩ := (parse_jobs_extends h).1
      rw [List.append_assoc, List.append_cancel_left_eq, List.singleton_append, List.cons.injEq] at hmore
      obtain ⟨rfl, -⟩ := hmore
      exact ⟨rfl, h⟩
    · rintro ⟨hj, h⟩
      cases hj
      exact h

theorem le_length_schedule_entry (i : Nat) (j : Job) : 2 ≤ (schedule_entry i j).length := by
  rw [schedule_entry_eq, List.length_append]
  simp [head_segments, joined, ascii]
  omega

theorem length_schedule_entry {j : Job} (hlo : -(2 ^ 63) ≤ j.next_run_unix) (hhi : j.next_run_unix < 2 ^ 63) (i : Nat) :
    (schedule_entry i j).length ≤ 227 := by
  have hnumber := length_decimalInt_le hlo hhi
  have hjob := j.job_id.fits
  have himage := j.image_id.fits
  have hcron := j.cron.fits
  have hcomma : (if i = 0 then [] else ascii ",").length ≤ 1 := by
    split <;> decide
  have hwords : (ascii "\x7b\"job_id\":\"").length = 11 ∧ (ascii "\",\"image_id\":\"").length = 14 ∧
      (ascii "\",\"cron\":\"").length = 10 ∧ (ascii "\",\"next_run\":").length = 13 ∧ (ascii "\x7d").length = 1 := by
    decide
  obtain ⟨h1, h2, h3, h4, h5⟩ := hwords
  simp only [schedule_entry, List.length_append, h1, h2, h3, h4, h5]
  simp only [EINK_ID_MAX, EINK_CRON_MAX] at hjob himage hcron
  omega

/-- Behind a brace in a text comes a quote, which is no object. -/
theorem parse_jobs_quote {turns : Nat} {jobs js : List Job} (rest : Bytes) (hturns : 0 < turns)
    (hcount : (jobs ++ js).length ≤ EINK_MAX_JOBS) :
    parse_jobs turns jobs (34 :: rest) = .ok (jobs ++ js) ↔ jobs.length = EINK_MAX_JOBS := by
  obtain ⟨turns, rfl⟩ := Nat.exists_eq_add_of_lt hturns
  rw [List.length_append] at hcount
  by_cases hfull : EINK_MAX_JOBS ≤ jobs.length
  · have hjs : js = [] := List.length_eq_zero_iff.1 (by omega)
    rw [parse_jobs_full hfull, hjs, List.append_nil]
    exact ⟨fun _ => by omega, fun _ => rfl⟩
  · have herror : parse_jobs (0 + turns + 1) jobs (34 :: rest) = .error (-EINVAL) := by
      rw [parse_jobs, if_neg (not_or.2 ⟨List.cons_ne_nil _ _, hfull⟩)]
      rfl
    rw [herror]
    constructor
    · rintro ⟨⟩
    · intro h
      omega

theorem braceLast_iff {s x x' : Bytes} (hs : s = x ++ 125 :: x') (hx : 125 ∉ x) : BraceLast s ↔ x' = [] := by
  have hfind := strchr_append hx x'
  unfold strchr at hfind
  rw [BraceLast, hs]
  have hdrop : (x ++ 125 :: x').dropWhile (· ≠ 125) = 125 :: x' := by
    split at hfind
    · cases hfind
    · exact Option.some.inj hfind
  rw [hdrop]
  simp

theorem braceLast_mem {s : Bytes} (h : BraceLast s) : 125 ∈ s := by
  have hsub := (List.dropWhile_suffix (l := s) (· ≠ (125 : UInt8))).subset
  rw [show s.dropWhile (· ≠ 125) = [125] from h] at hsub
  exact hsub (List.mem_singleton_self _)

/-- A brace in a text ends the job; the job is the last of the table then. -/
theorem parse_jobs_cut (ss : List Bytes) {turns : Nat} {jobs js : List Job} {x x' more t : Bytes} {tt : List Bytes}
    {j : Job} (hlen : (schedule_entry jobs.length j).length < 384) (hturns : 0 < turns)
    (hcount : (jobs ++ [j] ++ js).length ≤ EINK_MAX_JOBS) (hx : ∀ s ∈ ss ++ [x], 125 ∉ s)
    (hentry : schedule_entry jobs.length j =
      (if jobs.length = 0 then [] else ascii ",") ++ joined 34 (ascii "\x7b" :: (ss ++ (x ++ 125 :: x') :: t :: tt)))
    (hend : parse_job (joined 34 (ascii "\x7b" :: (ss ++ [x ++ [125]]))) = .ok j → x' = []) :
    parse_jobs (turns + 1) jobs (schedule_entry jobs.length j ++ more) = .ok (jobs ++ j :: js) ↔
      parse_job (joined 34 (ascii "\x7b" :: (ss ++ [x ++ [125]]))) = .ok j ∧
        jobs.length + 1 = EINK_MAX_JOBS ∧ js = [] := by
  have hfill : ∀ c ∈ (if jobs.length = 0 then [] else ascii ","), isFiller c = true := by
    split <;> decide +kernel
  rw [List.length_append, List.length_append, List.length_singleton] at hcount
  rw [hentry, List.length_append] at hlen
  rw [hentry, parse_jobs_segments (by omega) hfill hx (by omega)]
  refine and_congr_right fun hp => ?_
  rw [hend hp, show jobs ++ j :: js = jobs ++ [j] ++ js by simp]
  have hbound : (jobs ++ [j] ++ js).length ≤ EINK_MAX_JOBS := by
    simp only [List.length_append, List.length_singleton]
    omega
  have hquote := parse_jobs_quote (joined 34 (t :: tt) ++ more) hturns hbound
  rw [show joined 34 ([] :: t :: tt) ++ more = 34 :: (joined 34 (t :: tt) ++ more) from rfl, hquote, List.length_append,
    List.length_singleton]
  constructor
  · intro h
    exact ⟨h, List.length_eq_zero_iff.1 (by omega)⟩
  · exact fun h => h.1

theorem endsText_brace : EndsText 125 :=
  .inr (.inr rfl)

/-! One lemma for each text the first brace of an object can stand in, and one for no brace in any. -/

section Entry

variable {turns : Nat} {jobs js : List Job} {more x x' : Bytes} {j : Job}

/-- The table is full behind this job, so what follows the job is left unread. -/
theorem parse_jobs_last (hlast : jobs.length + 1 = EINK_MAX_JOBS) (hjs : js = []) :
    parse_jobs turns (jobs ++ [j]) more = .ok (jobs ++ [j] ++ js) := by
  rw [parse_jobs_full, hjs, List.append_nil]
  rw [List.length_append, List.length_singleton, hlast]

theorem eq_nil_of_last (hcount : (jobs ++ [j] ++ js).length ≤ EINK_MAX_JOBS) (hlast : jobs.length + 1 = EINK_MAX_JOBS) :
    js = [] := by
  rw [List.length_append, List.length_append, List.length_singleton] at hcount
  exact List.length_eq_zero_iff.1 (by omega)

theorem parse_jobs_entry_brace_job (hlen : (schedule_entry jobs.length j).length < 384) (hpos : 0 < turns)
    (hcount : (jobs ++ [j] ++ js).length ≤ EINK_MAX_JOBS) (hx : j.job_id.val = x ++ 125 :: x') (hmem : 125 ∉ x) :
    parse_jobs (turns + 1) jobs (schedule_entry jobs.length j ++ more) ≠ .ok (jobs ++ j :: js) := by
  have hentry := schedule_entry_eq jobs.length j
  have hne (hp : parse_job (joined 34 (ascii "\x7b" :: head_segments (x ++ [125]))) = .ok j) : False :=
    parse_to_job_ne (unquoted_of_parse hp).1 hx hp
  intro h
  rw [parse_jobs_cut [ascii "job_id", ascii ":"] hlen hpos hcount (notMem_head endsText_brace hmem)
    (by rw [hentry, hx]; rfl) fun hp => (hne hp).elim] at h
  exact hne h.1

theorem parse_jobs_entry_brace_image (hlen : (schedule_entry jobs.length j).length < 384) (hpos : 0 < turns)
    (hcount : (jobs ++ [j] ++ js).length ≤ EINK_MAX_JOBS) (hjob : 125 ∉ j.job_id.val)
    (hx : j.image_id.val = x ++ 125 :: x') (hmem : 125 ∉ x) :
    parse_jobs (turns + 1) jobs (schedule_entry jobs.length j ++ more) = .ok (jobs ++ j :: js) ↔
      Survives jobs.length j ∧ jobs.length + 1 = EINK_MAX_JOBS ∧ js = [] := by
  have hentry := schedule_entry_eq jobs.length j
  have hfree : ∀ s ∈ head_segments j.job_id.val ++ text_segments (ascii "image_id") x, 125 ∉ s := by
    simp only [List.forall_mem_append]
    exact ⟨notMem_head endsText_brace hjob, notMem_text endsText_brace (notMem_keys endsText_brace).1 hmem⟩
  have hread (hp : parse_job (joined 34 (ascii "\x7b" :: (head_segments j.job_id.val ++
      text_segments (ascii "image_id") (x ++ [125])))) = .ok j) :=
    (parse_to_image_iff ⟨(unquoted_of_parse hp).1, (unquoted_of_parse hp).2.1⟩ hx).1 hp
  rw [parse_jobs_cut (head_segments j.job_id.val ++ [ascii ",", ascii "image_id", ascii ":"]) hlen hpos hcount
    hfree (by rw [hentry, hx]; rfl) fun hp => (hread hp).2.2.1]
  refine and_congr_left ?_
  rintro ⟨hi, -⟩
  constructor
  · intro hp
    obtain ⟨hnamed, hkeys, hx', hn, hcron⟩ := hread hp
    have hbrace : BraceLast j.image_id.val := (braceLast_iff hx hmem).2 hx'
    exact ⟨hnamed, unquoted_of_parse hp, hkeys, ⟨hjob, .inr ⟨hi, hn, .inr ⟨hbrace, hcron⟩⟩⟩⟩
  · rintro ⟨hnamed, hunq, hkeys, -, hbraces⟩
    have himage : 125 ∈ j.image_id.val := by
      rw [hx]
      simp
    obtain ⟨hno, -⟩ | ⟨-, hn, ⟨hno, -⟩ | ⟨hb, hcron⟩⟩ := hbraces
    · exact absurd himage hno
    · exact absurd himage hno
    · exact (parse_to_image_iff ⟨hunq.1, hunq.2.1⟩ hx).2 ⟨hnamed, hkeys, (braceLast_iff hx hmem).1 hb, hn, hcron⟩

theorem parse_jobs_entry_brace_cron (hlen : (schedule_entry jobs.length j).length < 384) (hpos : 0 < turns)
    (hcount : (jobs ++ [j] ++ js).length ≤ EINK_MAX_JOBS) (hjob : 125 ∉ j.job_id.val) (himage : 125 ∉ j.image_id.val)
    (hx : j.cron.val = x ++ 125 :: x') (hmem : 125 ∉ x) :
    parse_jobs (turns + 1) jobs (schedule_entry jobs.length j ++ more) = .ok (jobs ++ j :: js) ↔
      Survives jobs.length j ∧ jobs.length + 1 = EINK_MAX_JOBS ∧ js = [] := by
  have hentry := schedule_entry_eq jobs.length j
  have hfree : ∀ s ∈ head_segments j.job_id.val ++ text_segments (ascii "image_id") j.image_id.val ++
      text_segments (ascii "cron") x, 125 ∉ s := by
    simp only [List.forall_mem_append]
    exact ⟨⟨notMem_head endsText_brace hjob, notMem_text endsText_brace (notMem_keys endsText_brace).1 himage⟩,
      notMem_text endsText_brace (notMem_keys endsText_brace).2 hmem⟩
  have hread (hp : parse_job (joined 34 (ascii "\x7b" :: (head_segments j.job_id.val ++
      text_segments (ascii "image_id") j.image_id.val ++ text_segments (ascii "cron") (x ++ [125])))) = .ok j) :=
    (parse_to_cron_iff (unquoted_of_parse hp) hx).1 hp
  rw [parse_jobs_cut (head_segments j.job_id.val ++ text_segments (ascii "image_id") j.image_id.val ++
    [ascii ",", ascii "cron", ascii ":"]) hlen hpos hcount hfree (by rw [hentry, hx]; rfl) fun hp => (hread hp).2.2.1]
  refine and_congr_left ?_
  rintro ⟨hi, -⟩
  constructor
  · intro hp
    obtain ⟨hnamed, hkeys, hx', hn⟩ := hread hp
    have hbrace : BraceLast j.cron.val := (braceLast_iff hx hmem).2 hx'
    exact ⟨hnamed, unquoted_of_parse hp, hkeys, ⟨hjob, .inr ⟨hi, hn, .inl ⟨himage, hbrace⟩⟩⟩⟩
  · rintro ⟨hnamed, hunq, hkeys, -, hbraces⟩
    obtain ⟨-, hno⟩ | ⟨-, hn, ⟨-, hb⟩ | ⟨hb, -⟩⟩ := hbraces
    · rw [hx] at hno
      simp at hno
    · exact (parse_to_cron_iff hunq hx).2 ⟨hnamed, hkeys, (braceLast_iff hx hmem).1 hb, hn⟩
    · exact absurd (braceLast_mem hb) himage

/-- The object is whole, and what comes behind it is the next one. -/
theorem parse_jobs_entry_whole (hlo : -(2 ^ 63) ≤ j.next_run_unix) (hhi : j.next_run_unix < 2 ^ 63)
    (hlen : (schedule_entry jobs.length j).length < 384) (hcount : (jobs ++ [j] ++ js).length ≤ EINK_MAX_JOBS)
    (hjob : 125 ∉ j.job_id.val) (himage : 125 ∉ j.image_id.val) (hcron : 125 ∉ j.cron.val) :
    parse_jobs (turns + 1) jobs (schedule_entry jobs.length j ++ more) = .ok (jobs ++ j :: js) ↔
      Survives jobs.length j ∧ parse_jobs turns (jobs ++ [j]) more = .ok (jobs ++ [j] ++ js) := by
  have hentry := schedule_entry_eq jobs.length j
  have hfree : ∀ s ∈ head_segments j.job_id.val ++ text_segments (ascii "image_id") j.image_id.val ++
      text_segments (ascii "cron") j.cron.val ++ number_segments (decimalInt j.next_run_unix), 125 ∉ s := by
    simp only [List.forall_mem_append]
    exact ⟨⟨⟨notMem_head endsText_brace hjob, notMem_text endsText_brace (notMem_keys endsText_brace).1 himage⟩,
      notMem_text endsText_brace (notMem_keys endsText_brace).2 hcron⟩,
      notMem_number endsText_brace (notMem_decimalInt endsText_brace _)⟩
  have hfill : ∀ c ∈ (if jobs.length = 0 then [] else ascii ","), isFiller c = true := by
    split <;> decide +kernel
  have hwhole : number_segments (decimalInt j.next_run_unix ++ ascii "\x7d") =
      [ascii ",", ascii "next_run"] ++ [ascii ":" ++ decimalInt j.next_run_unix ++ 125 :: []] := by
    rw [List.append_assoc (ascii ":")]
    rfl
  rw [hentry, hwhole, ← List.append_assoc, List.length_append] at hlen
  have hiff (hunq : 34 ∉ j.job_id.val ∧ 34 ∉ j.image_id.val ∧ 34 ∉ j.cron.val) := parse_whole_iff hunq hlo hhi
  rw [hwhole, ← List.append_assoc] at hiff
  rw [List.length_append, List.length_append, List.length_singleton] at hcount
  rw [hentry, hwhole, ← List.append_assoc, parse_jobs_segments (by omega) hfill hfree (by omega),
    show jobs ++ j :: js = jobs ++ [j] ++ js by simp]
  refine and_congr_left fun _ => ?_
  constructor
  · intro hp
    have hunq := unquoted_of_parse hp
    obtain ⟨hnamed, hkeys⟩ := (hiff hunq).1 hp
    exact ⟨hnamed, hunq, hkeys, ⟨hjob, .inl ⟨himage, hcron⟩⟩⟩
  · intro hs
    exact (hiff hs.unquoted).2 ⟨hs.named, hs.keys⟩

/-- One job is read as it was saved, and the others then, if and only if it survives. -/
theorem parse_jobs_entry (hlo : -(2 ^ 63) ≤ j.next_run_unix) (hhi : j.next_run_unix < 2 ^ 63)
    (hcount : (jobs ++ [j] ++ js).length ≤ EINK_MAX_JOBS)
    (hturns : (schedule_entry jobs.length j ++ more).length ≤ turns + 1) :
    parse_jobs (turns + 1) jobs (schedule_entry jobs.length j ++ more) = .ok (jobs ++ j :: js) ↔
      Survives jobs.length j ∧ parse_jobs turns (jobs ++ [j]) more = .ok (jobs ++ [j] ++ js) := by
  have hlen : (schedule_entry jobs.length j).length < 384 := (length_schedule_entry hlo hhi _).trans_lt (by decide)
  have hpos : 0 < turns := by
    have := le_length_schedule_entry jobs.length j
    rw [List.length_append] at hturns
    omega
  -- A job with a brace in one of its texts survives at the last place only, where nothing follows it.
  have hplace (hs : Survives jobs.length j)
      (hbrace : 125 ∈ j.image_id.val ∨ 125 ∈ j.cron.val) : jobs.length + 1 = EINK_MAX_JOBS := by
    obtain ⟨himage, hcron⟩ | ⟨hlast, -⟩ := hs.braces.2
    · exact absurd hbrace (not_or.2 ⟨himage, hcron⟩)
    · exact hlast
  have hiff (hbrace : 125 ∈ j.image_id.val ∨ 125 ∈ j.cron.val) :
      Survives jobs.length j ∧ jobs.length + 1 = EINK_MAX_JOBS ∧ js = [] ↔
        Survives jobs.length j ∧ parse_jobs turns (jobs ++ [j]) more = .ok (jobs ++ [j] ++ js) := by
    refine and_congr_right fun hs => ?_
    constructor
    · intro h
      exact parse_jobs_last h.1 h.2
    · intro _
      have hlast := hplace hs hbrace
      exact ⟨hlast, eq_nil_of_last hcount hlast⟩
  by_cases hjob : 125 ∈ j.job_id.val
  · obtain ⟨x, x', hx, hmem⟩ := List.eq_append_cons_of_mem hjob
    exact ⟨fun h => absurd h (parse_jobs_entry_brace_job hlen hpos hcount hx hmem), fun h => absurd hjob h.1.braces.1⟩
  by_cases himage : 125 ∈ j.image_id.val
  · obtain ⟨x, x', hx, hmem⟩ := List.eq_append_cons_of_mem himage
    rw [parse_jobs_entry_brace_image hlen hpos hcount hjob hx hmem]
    exact hiff (.inl himage)
  by_cases hcron : 125 ∈ j.cron.val
  · obtain ⟨x, x', hx, hmem⟩ := List.eq_append_cons_of_mem hcron
    rw [parse_jobs_entry_brace_cron hlen hpos hcount hjob himage hx hmem]
    exact hiff (.inr hcron)
  exact parse_jobs_entry_whole hlo hhi hlen hcount hjob himage hcron

end Entry

/-! ## The whole file -/

/-- The texts of the jobs from the place `i` on. -/
def entries : Nat → List Job → Bytes
  | _, [] => []
  | i, j :: js => schedule_entry i j ++ entries (i + 1) js

theorem flatten_mapIdx_schedule_entry (js : List Job) (i : Nat) :
    (js.mapIdx fun k j => schedule_entry (i + k) j).flatten = entries i js := by
  induction js generalizing i with
  | nil => rfl
  | cons j js ih =>
    rw [List.mapIdx_cons, List.flatten_cons, entries, ← ih (i + 1), Nat.add_zero]
    congr 3
    funext k j
    rw [Nat.add_assoc, Nat.add_comm 1]

theorem flatten_schedule_entry (js : List Job) : (js.mapIdx schedule_entry).flatten = entries 0 js := by
  have := flatten_mapIdx_schedule_entry js 0
  simpa only [Nat.zero_add] using this

/-- The end of the array, or as much of it as was written. -/
theorem parse_jobs_end {tail : Bytes} (htail : tail <+: ascii "]\x7d\n") (turns : Nat) (jobs : List Job) :
    parse_jobs turns jobs tail = .ok jobs := by
  cases turns with
  | zero => rfl
  | succ turns =>
    rw [parse_jobs]
    split
    · rfl
    · next hne =>
      obtain ⟨c, tail, rfl⟩ := List.exists_cons_of_ne_nil (not_or.1 hne).1
      obtain rfl : c = 93 := (List.cons_prefix_cons.1 htail).1
      rfl

/-- The jobs are read as they were saved if and only if each of them survives. -/
theorem parse_entries_iff {turns : Nat} (jobs : List Job) {js : List Job} {tail : Bytes}
    (htail : tail <+: ascii "]\x7d\n")
    (hint : ∀ j ∈ js, -(2 ^ 63) ≤ j.next_run_unix ∧ j.next_run_unix < 2 ^ 63)
    (hcount : (jobs ++ js).length ≤ EINK_MAX_JOBS) (hturns : (entries jobs.length js ++ tail).length ≤ turns) :
    parse_jobs turns jobs (entries jobs.length js ++ tail) = .ok (jobs ++ js) ↔
      ∀ i j, js[i]? = some j → Survives (jobs.length + i) j := by
  induction js generalizing jobs turns with
  | nil =>
    rw [List.append_nil, entries, List.nil_append, parse_jobs_end htail]
    simp
  | cons j js ih =>
    have hsucc : jobs.length + 1 = (jobs ++ [j]).length := by simp
    have hcount' : (jobs ++ [j] ++ js).length ≤ EINK_MAX_JOBS := by simpa using hcount
    rw [entries, List.append_assoc] at hturns ⊢
    have hlen := le_length_schedule_entry jobs.length j
    rw [List.length_append] at hturns
    cases turns with
    | zero => omega
    | succ turns =>
      rw [parse_jobs_entry (hint j (by simp)).1 (hint j (by simp)).2 hcount' (by rw [List.length_append]; exact hturns),
        hsucc, ih _ (fun j hj => hint j (by simp [hj])) hcount' (by rw [← hsucc]; omega), ← hsucc]
      constructor
      · rintro ⟨hj, hjs⟩ i j' hi
        cases i with
        | zero =>
          cases hi
          exact hj
        | succ i =>
          have := hjs i j' hi
          rwa [Nat.add_assoc, Nat.add_comm 1] at this
      · intro h
        refine ⟨h 0 j rfl, fun i j' hi => ?_⟩
        have := h (i + 1) j' hi
        rwa [Nat.add_assoc, Nat.add_comm 1]

theorem length_entries {js : List Job} (hint : ∀ j ∈ js, -(2 ^ 63) ≤ j.next_run_unix ∧ j.next_run_unix < 2 ^ 63)
    (i : Nat) : (entries i js).length ≤ 227 * js.length := by
  induction js generalizing i with
  | nil => exact Nat.zero_le _
  | cons j js ih =>
    have hhead := length_schedule_entry (hint j (by simp)).1 (hint j (by simp)).2 i
    have hrest := ih (fun j hj => hint j (by simp [hj])) (i + 1)
    rw [entries, List.length_append, List.length_cons]
    omega

theorem length_schedule_file {sched : Schedule} {tail : Bytes} (htail : tail <+: ascii "]\x7d\n")
    (hint : ∀ j ∈ sched.jobs, -(2 ^ 63) ≤ j.next_run_unix ∧ j.next_run_unix < 2 ^ 63) :
    (ascii "\x7b\"jobs\":[" ++ entries 0 sched.jobs ++ tail).length ≤ 8191 := by
  have hjobs := length_entries hint 0
  have hbound := sched.bound
  have htail := htail.length_le
  have hwords : (ascii "\x7b\"jobs\":[").length = 9 ∧ (ascii "]\x7d\n").length = 3 := by decide
  rw [List.length_append, List.length_append]
  simp only [EINK_MAX_JOBS] at hbound
  omega

theorem zero_notMem_entries (js : List Job) (i : Nat) : 0 ∉ entries i js := by
  induction js generalizing i with
  | nil => exact List.not_mem_nil
  | cons j js ih =>
    rw [entries, List.mem_append, not_or]
    refine ⟨?_, ih _⟩
    have hcomma : 0 ∉ (if i = 0 then [] else ascii ",") := by
      split <;> decide
    simp only [schedule_entry, List.mem_append, not_or]
    exact ⟨⟨⟨⟨⟨⟨⟨⟨⟨hcomma, by decide⟩, j.job_id.noNul⟩, by decide⟩, j.image_id.noNul⟩, by decide⟩, j.cron.noNul⟩,
      by decide⟩, zero_notMem_decimalInt _⟩, by decide⟩

/-- The file of a schedule, with as much of its end as was written. -/
theorem parse_schedule_iff {sched : Schedule} {tail : Bytes} (htail : tail <+: ascii "]\x7d\n")
    (hint : ∀ j ∈ sched.jobs, -(2 ^ 63) ≤ j.next_run_unix ∧ j.next_run_unix < 2 ^ 63) :
    parse_schedule ((ascii "\x7b\"jobs\":[" ++ entries 0 sched.jobs ++ tail).take 8191) = .ok sched ↔
      ∀ i j, sched.jobs[i]? = some j → Survives i j := by
  have hzero : 0 ∉ ascii "\x7b\"jobs\":[" ++ entries 0 sched.jobs ++ tail := by
    rw [List.mem_append, List.mem_append, not_or, not_or]
    exact ⟨⟨by decide, zero_notMem_entries _ _⟩, fun h => absurd (htail.subset h) (by decide)⟩
  have hfind : (strstr (ascii "\x7b\"jobs\":[" ++ entries 0 sched.jobs ++ tail) (ascii "\"jobs\"")).bind
      (fun p => strchr p 91) = some (91 :: (entries 0 sched.jobs ++ tail)) := by
    have htext : ascii "\x7b\"jobs\":[" ++ entries 0 sched.jobs ++ tail =
        123 :: (ascii "\"jobs\"" ++ (ascii ":" ++ 91 :: (entries 0 sched.jobs ++ tail))) := by
      rw [List.append_assoc]
      rfl
    have hskip : ¬ascii "\"jobs\"" <+:
        123 :: (ascii "\"jobs\"" ++ (ascii ":" ++ 91 :: (entries 0 sched.jobs ++ tail))) := by
      rw [show ascii "\"jobs\"" = 34 :: ascii "jobs\"" from rfl, List.cons_prefix_cons]
      exact fun h => absurd h.1 (by decide)
    have hword : 91 ∉ ascii "\"jobs\":" := by decide
    rw [htext, strstr_cons_of_ne hskip, strstr_self, Option.bind_some, ← List.append_assoc]
    exact strchr_append hword _
  rw [List.take_of_length_le (length_schedule_file htail hint), parse_schedule, cstring_of_notMem hzero, hfind]
  dsimp only
  rw [List.drop_succ_cons, List.drop_zero, List.length_cons, Nat.add_sub_cancel]
  have hiff := parse_entries_iff [] htail hint sched.bound (le_refl _)
  simp only [List.length_nil, List.nil_append, Nat.zero_add] at hiff
  rw [← hiff]
  cases hp : parse_jobs (entries 0 sched.jobs ++ tail).length [] (entries 0 sched.jobs ++ tail) with
  | error e => simp
  | ok js =>
    have htake : js.take EINK_MAX_JOBS = js := List.take_of_length_le ((parse_jobs_extends hp).2 (Nat.zero_le _))
    obtain ⟨jobs, hbound⟩ := sched
    simp only [Except.ok.injEq, Schedule.take, Schedule.mk.injEq, htake]

/-! ## On the disk -/

section
variable {tmp path : Path}

/-- A file takes the place of another only after everything before has gone well. -/
theorem finish_file_zero {ret : Int} {d : Disk Path} (hne : path ≠ tmp) (h : (finish_file tmp path ret d).1 = 0) :
    0 ≤ ret ∧ (finish_file tmp path ret d).2.files path = d.files tmp := by
  unfold finish_file at h ⊢
  by_cases hret : ret < 0
  · rw [if_pos hret] at h
    exact absurd h (Int.ne_of_lt hret)
  · rw [if_neg hret, bind_app] at h ⊢
    refine ⟨not_lt.1 hret, ?_⟩
    by_cases hren : (fs_rename tmp path d).1 < 0
    · rw [if_pos hren] at h
      exact absurd h (Int.ne_of_lt hren)
    · rw [if_neg hren]
      exact fs_rename_files hren hne

theorem write_entries_error {es : List Bytes} {off : Nat} {d : Disk Path} {e : Int}
    (h : (write_entries tmp off es d).1 = .error e) : e < 0 := by
  induction es generalizing off d with
  | nil => cases h
  | cons entry es ih =>
    unfold write_entries at h
    split at h
    · cases h
      decide
    · rw [bind_app] at h
      split at h
      · cases h
        split
        · assumption
        · decide
      · exact ih h

/-- The texts stand one after the other in the file. -/
theorem write_entries_ok {es : List Bytes} {content : Bytes} {d : Disk Path} {off : Nat}
    (hfile : d.files tmp = some content) (h : (write_entries tmp content.length es d).1 = .ok off) :
    off = (content ++ es.flatten).length ∧
      (write_entries tmp content.length es d).2.files tmp = some (content ++ es.flatten) := by
  induction es generalizing content d with
  | nil =>
    cases h
    rw [List.flatten_nil, List.append_nil]
    exact ⟨rfl, hfile⟩
  | cons entry es ih =>
    unfold write_entries at h ⊢
    split at h
    · cases h
    · next hfits =>
      rw [if_neg hfits, bind_app]
      rw [bind_app] at h
      split at h
      · cases h
      · next hwhole =>
        rw [if_neg hwhole]
        obtain ⟨n, -, hn, hwritten⟩ := fs_write_at_end entry hfile (by omega)
        obtain rfl : n = entry.length := by omega
        rw [List.take_length] at hwritten
        rw [← List.length_append] at h ⊢
        rw [List.flatten_cons, ← List.append_assoc]
        exact ih hwritten h

theorem write_end_ok {content : Bytes} {d : Disk Path} (hfile : d.files tmp = some content)
    (h : 0 ≤ (write_end tmp content.length d).1) :
    ∃ tail, tail <+: ascii "]\x7d\n" ∧ (write_end tmp content.length d).2.files tmp = some (content ++ tail) := by
  unfold write_end at h ⊢
  rw [bind_app] at h ⊢
  have hwrite : 0 ≤ (fs_write tmp content.length (ascii "]\x7d\n") d).1 := by
    split at h
    · omega
    · exact h
  obtain ⟨n, -, -, hwritten⟩ := fs_write_at_end _ hfile hwrite
  refine ⟨_, List.take_prefix n _, ?_⟩
  split
  · exact hwritten
  · exact hwritten

end

variable {b : Build}

/-- Saving that has gone well: all texts are in the file, and their end and the rename are left. -/
theorem save_schedule_ok {sched : Schedule} {d : Disk Path} (h : (eink_store_save_schedule b sched d).1 = 0) :
    ∃ d2 : Disk Path, ¬ (fs_open (path_sched b ++ ascii ".tmp") true true d).1 < 0 ∧
      write_entries (path_sched b ++ ascii ".tmp") 0 (ascii "\x7b\"jobs\":[" :: sched.jobs.mapIdx schedule_entry)
          (fs_open (path_sched b ++ ascii ".tmp") true true d).2 =
        (.ok (ascii "\x7b\"jobs\":[" :: sched.jobs.mapIdx schedule_entry).flatten.length, d2) ∧
      d2.files (path_sched b ++ ascii ".tmp") =
        some (ascii "\x7b\"jobs\":[" :: sched.jobs.mapIdx schedule_entry).flatten ∧
      eink_store_save_schedule b sched d =
        (write_end (path_sched b ++ ascii ".tmp")
          (ascii "\x7b\"jobs\":[" :: sched.jobs.mapIdx schedule_entry).flatten.length >>=
            finish_file (path_sched b ++ ascii ".tmp") (path_sched b)) d2 := by
  unfold eink_store_save_schedule at h ⊢
  rw [bind_app] at h ⊢
  by_cases hopen : (fs_open (path_sched b ++ ascii ".tmp") true true d).1 < 0
  · rw [if_pos hopen] at h
    exact absurd h (Int.ne_of_lt hopen)
  · rw [if_neg hopen, bind_app] at h ⊢
    have hempty := fs_open_trunc hopen
    generalize (fs_open (path_sched b ++ ascii ".tmp") true true d).2 = d1 at h hempty ⊢
    cases hes : write_entries (path_sched b ++ ascii ".tmp") 0
        (ascii "\x7b\"jobs\":[" :: sched.jobs.mapIdx schedule_entry) d1 with
    | mk res d2 =>
      rw [hes] at h
      cases res with
      | error e =>
        have hneg : e < 0 := write_entries_error (congrArg Prod.fst hes)
        have hret := (finish_file_zero (ne_append_tmp _) h).1
        omega
      | ok off =>
        obtain ⟨hoff, hwritten⟩ := write_entries_ok hempty (congrArg Prod.fst hes)
        rw [List.nil_append] at hoff hwritten
        rw [List.length_nil, hes] at hwritten
        subst hoff
        exact ⟨d2, hopen, rfl, hwritten, rfl⟩

/-- What is in the file when saving has gone well; the end of the array may have been cut. -/
theorem save_schedule_file {sched : Schedule} {d : Disk Path} (h : (eink_store_save_schedule b sched d).1 = 0) :
    ∃ tail, tail <+: ascii "]\x7d\n" ∧ (eink_store_save_schedule b sched d).2.files (path_sched b) =
      some (ascii "\x7b\"jobs\":[" ++ entries 0 sched.jobs ++ tail) := by
  have htexts : (ascii "\x7b\"jobs\":[" :: sched.jobs.mapIdx schedule_entry).flatten =
      ascii "\x7b\"jobs\":[" ++ entries 0 sched.jobs := by
    rw [List.flatten_cons, flatten_schedule_entry]
  obtain ⟨d2, -, -, hwritten, hsave⟩ := save_schedule_ok h
  rw [hsave, bind_app] at h ⊢
  rw [htexts] at hwritten h ⊢
  obtain ⟨hend, hfile⟩ := finish_file_zero (ne_append_tmp _) h
  rw [hfile]
  exact write_end_ok hwritten hend

theorem write_entries_calm (tmp : Path) {es : List Bytes} (hes : ∀ entry ∈ es, entry.length < 384) (off : Nat)
    (files : Path → Option Bytes) (hfile : files tmp ≠ none) :
    ∃ off' files', write_entries tmp off es (.calm files) = (.ok off', .calm files') ∧ files' tmp ≠ none := by
  induction es generalizing off files with
  | nil => exact ⟨off, files, rfl, hfile⟩
  | cons entry es ih =>
    unfold write_entries
    rw [if_neg (Nat.not_le.2 (hes entry (by simp))), bind_app, fs_write_calm]
    dsimp only
    rw [if_neg (not_not.2 rfl)]
    exact ih (fun e he => hes e (by simp [he])) _ _ (by simp)

/-- Saving goes well where no call fails. -/
theorem save_schedule_calm {sched : Schedule}
    (hint : ∀ j ∈ sched.jobs, -(2 ^ 63) ≤ j.next_run_unix ∧ j.next_run_unix < 2 ^ 63) (files : Path → Option Bytes) :
    (eink_store_save_schedule b sched (.calm files)).1 = 0 := by
  have hes : ∀ entry ∈ ascii "\x7b\"jobs\":[" :: sched.jobs.mapIdx schedule_entry, entry.length < 384 := by
    intro entry he
    rcases List.mem_cons.1 he with rfl | he
    · decide
    · obtain ⟨i, hi, rfl⟩ := List.mem_mapIdx.1 he
      have hj := hint _ (List.getElem_mem hi)
      exact (length_schedule_entry hj.1 hj.2 i).trans_lt (by decide)
  unfold eink_store_save_schedule
  rw [bind_app, fs_open_calm]
  dsimp only
  rw [if_neg (show ¬(0 : Int) < 0 by decide), bind_app]
  obtain ⟨off, files', hwritten, hfile⟩ := write_entries_calm (path_sched b ++ ascii ".tmp") hes 0
    (fun q => if q = path_sched b ++ ascii ".tmp" then some [] else files q) (by simp)
  rw [hwritten]
  dsimp only
  rw [bind_app]
  have hend : ∃ files'', write_end (path_sched b ++ ascii ".tmp") off (.calm files') = (0, .calm files'') ∧
      ∃ content, files'' (path_sched b ++ ascii ".tmp") = some content := by
    unfold write_end
    rw [bind_app, fs_write_calm]
    dsimp only
    rw [if_pos (by decide)]
    exact ⟨_, fs_sync_calm _ _, _, if_pos rfl⟩
  obtain ⟨files'', hwritten, content, hfile⟩ := hend
  rw [hwritten, finish_file, if_neg (show ¬(0 : Int) < 0 by decide), bind_app, fs_rename_calm hfile
    (ne_append_tmp _).symm]
  rfl

theorem load_schedule_calm {files : Path → Option Bytes} {content : Bytes} (h : files (path_sched b) = some content) :
    (eink_store_load_schedule b (.calm files)).1 = parse_schedule (content.take 8191) := by
  rw [eink_store_load_schedule, bind_app, read_head_calm h]
  rfl

/-- The texts of the jobs fit the buffers that they are read into, and the schedule
comes back after a reboot if and only if each of its jobs survives. -/
theorem schedule_survives_iff (b : Build) (sched : Schedule)
    (hint : ∀ j ∈ sched.jobs, -(2 ^ 63) ≤ j.next_run_unix ∧ j.next_run_unix < 2 ^ 63) :
    ((∀ i j, sched.jobs[i]? = some j → (schedule_entry i j).length ≤ 383) ∧
      (ascii "\x7b\"jobs\":[" ++ (sched.jobs.mapIdx schedule_entry).flatten ++ ascii "]\x7d\n").length ≤ 8191) ∧
    ((∀ d, (eink_store_save_schedule b sched d).1 = 0 →
        (eink_store_load_schedule b (.calm (eink_store_save_schedule b sched d).2.files)).1 = .ok sched) ↔
      ∀ i j, sched.jobs[i]? = some j → Survives i j) := by
  refine ⟨⟨fun i j hj => ?_, ?_⟩, fun h => ?_, fun h d hsave => ?_⟩
  · have hrange := hint j (List.mem_of_getElem? hj)
    exact (length_schedule_entry hrange.1 hrange.2 i).trans (by decide)
  · rw [flatten_schedule_entry]
    exact length_schedule_file List.prefix_rfl hint
  · have hsave := save_schedule_calm (b := b) hint fun _ => none
    have hload := h _ hsave
    obtain ⟨tail, htail, hfile⟩ := save_schedule_file hsave
    rw [load_schedule_calm hfile] at hload
    exact (parse_schedule_iff htail hint).1 hload
  · obtain ⟨tail, htail, hfile⟩ := save_schedule_file hsave
    rw [load_schedule_calm hfile]
    exact (parse_schedule_iff htail hint).2 h

/-- A schedule of one job. -/
def oneJob (job_id : String) (next_run_unix : Int) : Schedule :=
  ⟨[⟨.copy _ (ascii job_id), .copy _ (ascii "menu"), .copy _ (ascii "0 8 * * *"), next_run_unix⟩],
    show 1 ≤ EINK_MAX_JOBS by decide⟩

theorem schedule_survives_iff_one :
    ((∀ i j, (oneJob "job-1" 1800000000).jobs[i]? = some j → (schedule_entry i j).length ≤ 383) ∧
      (ascii "\x7b\"jobs\":[" ++ ((oneJob "job-1" 1800000000).jobs.mapIdx schedule_entry).flatten ++
        ascii "]\x7d\n").length ≤ 8191) ∧
    ((∀ d, (eink_store_save_schedule lz4Build (oneJob "job-1" 1800000000) d).1 = 0 →
        (eink_store_load_schedule lz4Build
          (.calm (eink_store_save_schedule lz4Build (oneJob "job-1" 1800000000) d).2.files)).1 =
            .ok (oneJob "job-1" 1800000000)) ↔
      ∀ i j, (oneJob "job-1" 1800000000).jobs[i]? = some j → Survives i j) :=
  schedule_survives_iff lz4Build (oneJob "job-1" 1800000000) (by decide +kernel)

def quotedJob : Bytes :=
  ascii "\x7b\"schedule\":[\x7b\"job_id\":\"a\\\"b\",\"image_id\":\"menu\",\"cron\":\"0 8 * * *\"\x7d]\x7d"

def bracedJob : Bytes :=
  ascii "\x7b\"schedule\":[\x7b\"job_id\":\"a\x7d\",\"image_id\":\"menu\",\"cron\":\"0 8 * * *\"\x7d]\x7d"

def jobRoot (job_id : String) : Json :=
  .object [(ascii "schedule", .array [.object [(ascii "job_id", .string (ascii job_id)),
    (ascii "image_id", .string (ascii "menu")), (ascii "cron", .string (ascii "0 8 * * *"))]])]

/-- The JSON library on the two bodies. -/
def parseJobs (json : Bytes) : Option Json :=
  if json = quotedJob then some (jobRoot "a\"b") else if json = bracedJob then some (jobRoot "a\x7d") else none

/-- What is loaded after a schedule was saved on an empty disk. -/
def reboot (sched : Schedule) : Except Int Schedule :=
  (eink_store_load_schedule lz4Build (.calm (eink_store_save_schedule lz4Build sched (.calm fun _ => none)).2.files)).1

/-- A quote in a text makes the job come back as another, and a brace makes loading fail. -/
theorem schedule_lost :
    ((parse_config_json parseJobs quotedJob).toOption.map (·.1.sched) = some (oneJob "a\"b" 0) ∧
      (eink_store_save_schedule lz4Build (oneJob "a\"b" 0) (.calm fun _ => none)).1 = 0 ∧
      reboot (oneJob "a\"b" 0) = .ok (oneJob "a" 0) ∧ oneJob "a" 0 ≠ oneJob "a\"b" 0) ∧
    ((parse_config_json parseJobs bracedJob).toOption.map (·.1.sched) = some (oneJob "a\x7d" 0) ∧
      (eink_store_save_schedule lz4Build (oneJob "a\x7d" 0) (.calm fun _ => none)).1 = 0 ∧
      reboot (oneJob "a\x7d" 0) = .error (-EINVAL)) := by
  decide +kernel

end EinkNode.Store
