import EinkNode.Lib.Disk
/-!
# Programs that clean up

Where every unlink goes through, a program that ends badly can take away the
files that it has made. `CleansUp p bad m` says that `m` does so for `p`:
started without such a file it leaves none if its result is bad. `Removes` is
for the part of a program that comes after the file was made.
-/

namespace NodeLib

variable {P : Type} {α β : Type}

/-- Every unlink goes through. -/
def Disk.Deletes (d : Disk P) : Prop := ∀ p, ∀ o ∈ d.faults .fs_unlink p, o.err = none

theorem Disk.Deletes.err {d : Disk P} (h : d.Deletes) (p : P) : d.err .fs_unlink p = none := by
  unfold Disk.err Disk.outcome
  cases hq : d.faults .fs_unlink p with
  | nil => rfl
  | cons o os => exact h p o (hq ▸ List.mem_cons_self)

theorem Touches.deletes {W : P → Prop} {d d' : Disk P} (h : Touches W d d') (hd : d.Deletes) : d'.Deletes :=
  fun p o ho => hd p o ((h.2 _ p).subset ho)

/-- Whatever was there before, a bad result leaves no file. -/
def Removes (p : P) (bad : α → Prop) (m : StateM (Disk P) α) : Prop :=
  Ensures Disk.Deletes m fun a d => d.Deletes ∧ (bad a → d.files p = none)

/-- Where there was no file, a bad result leaves none. -/
def CleansUp (p : P) (bad : α → Prop) (m : StateM (Disk P) α) : Prop :=
  Ensures (fun d => d.Deletes ∧ d.files p = none) m fun a d => d.Deletes ∧ (bad a → d.files p = none)

variable {p : P} {bad : α → Prop}

theorem Removes.cleansUp {m : StateM (Disk P) α} (h : Removes p bad m) : CleansUp p bad m :=
  Ensures.imp h (fun _ => And.left) fun _ _ => id

theorem removes_pure {a : α} (h : ¬ bad a) : Removes p bad (pure a) :=
  ensures_pure fun _ hd => ⟨hd, fun hb => absurd hb h⟩

theorem cleansUp_pure (a : α) : CleansUp p bad (pure a) := ensures_pure fun _ hd => ⟨hd.1, fun _ => hd.2⟩

theorem removes_ite {c : Prop} [Decidable c] {m n : StateM (Disk P) α} (ht : c → Removes p bad m)
    (hf : ¬ c → Removes p bad n) : Removes p bad (if c then m else n) := ensures_ite ht hf

theorem cleansUp_ite {c : Prop} [Decidable c] {m n : StateM (Disk P) α} (ht : c → CleansUp p bad m)
    (hf : ¬ c → CleansUp p bad n) : CleansUp p bad (if c then m else n) := ensures_ite ht hf

/-- What is never written to is not made. -/
theorem cleansUp_of_touches {W : P → Prop} {m : StateM (Disk P) α} (hm : Keeps (Touches W) m) (hp : ¬ W p) :
    CleansUp p bad m := fun d hd => ⟨(hm d).deletes hd.1, fun _ => ((hm d).1 p hp).trans hd.2⟩

/-- After anything at all, the rest has to remove the file. -/
theorem removes_then {W : P → Prop} {m : StateM (Disk P) β} {f : β → StateM (Disk P) α} (hm : Keeps (Touches W) m)
    (hf : ∀ a, Removes p bad (f a)) : Removes p bad (m >>= f) :=
  ensures_bind (Q := fun _ => Disk.Deletes) (fun d hd => (hm d).deletes hd) hf

/-- When something is known of the first result. -/
theorem removes_then_of_always {W : P → Prop} {Q : β → Prop} {m : StateM (Disk P) β} {f : β → StateM (Disk P) α}
    (hQ : Always Q m) (hm : Keeps (Touches W) m) (hf : ∀ a, Q a → Removes p bad (f a)) : Removes p bad (m >>= f) :=
  ensures_bind (Q := fun a d => Q a ∧ d.Deletes) (fun d hd => ⟨hQ d, (hm d).deletes hd⟩)
    fun a d hd => hf a hd.1 d hd.2

/-- A first part that does not write to the file makes none. -/
theorem cleansUp_then {W : P → Prop} {m : StateM (Disk P) β} {f : β → StateM (Disk P) α} (hm : Keeps (Touches W) m)
    (hp : ¬ W p) (hf : ∀ a, CleansUp p bad (f a)) : CleansUp p bad (m >>= f) :=
  ensures_bind (Q := fun _ (d : Disk P) => d.Deletes ∧ d.files p = none)
    (fun d hd => ⟨(hm d).deletes hd.1, ((hm d).1 p hp).trans hd.2⟩) hf

theorem cleansUp_then_of_always {W : P → Prop} {Q : β → Prop} {m : StateM (Disk P) β} {f : β → StateM (Disk P) α}
    (hQ : Always Q m) (hm : Keeps (Touches W) m) (hp : ¬ W p) (hf : ∀ a, Q a → CleansUp p bad (f a)) :
    CleansUp p bad (m >>= f) :=
  ensures_bind (Q := fun a (d : Disk P) => Q a ∧ d.Deletes ∧ d.files p = none)
    (fun d hd => ⟨hQ d, (hm d).deletes hd.1, ((hm d).1 p hp).trans hd.2⟩) fun a d hd => hf a hd.1 d hd.2

/-- A first part that cleans up after itself leaves the file to the rest if its own result is good. -/
theorem cleansUp_bind {bad' : β → Prop} {m : StateM (Disk P) β} {f : β → StateM (Disk P) α} (hm : CleansUp p bad' m)
    (hbad : ∀ a, bad' a → CleansUp p bad (f a)) (hgood : ∀ a, ¬ bad' a → Removes p bad (f a)) :
    CleansUp p bad (m >>= f) := by
  refine ensures_bind hm fun a d hd => ?_
  by_cases ha : bad' a
  · exact hbad a ha d ⟨hd.1, hd.2 ha⟩
  · exact hgood a ha d hd.1

theorem removes_bind {bad' : β → Prop} {m : StateM (Disk P) β} {f : β → StateM (Disk P) α} (hm : Removes p bad' m)
    (hbad : ∀ a, bad' a → CleansUp p bad (f a)) (hgood : ∀ a, ¬ bad' a → Removes p bad (f a)) :
    Removes p bad (m >>= f) := by
  refine ensures_bind hm fun a d hd => ?_
  by_cases ha : bad' a
  · exact hbad a ha d ⟨hd.1, hd.2 ha⟩
  · exact hgood a ha d hd.1

theorem CleansUp.mono {bad' : α → Prop} {m : StateM (Disk P) α} (h : CleansUp p bad' m) (hb : ∀ a, bad a → bad' a) :
    CleansUp p bad m := Ensures.imp h (fun _ => id) fun a _ hd => ⟨hd.1, fun ha => hd.2 (hb a ha)⟩

theorem Removes.mono {bad' : α → Prop} {m : StateM (Disk P) α} (h : Removes p bad' m) (hb : ∀ a, bad a → bad' a) :
    Removes p bad m := Ensures.imp h (fun _ => id) fun a _ hd => ⟨hd.1, fun ha => hd.2 (hb a ha)⟩

variable [DecidableEq P]

/-! ## The calls -/

theorem removes_fs_unlink (p : P) (bad : Int → Prop) : Removes p bad (fs_unlink p) := by
  intro d hd
  have htouch := touches_fs_unlink (W := fun _ => True) (p := p) trivial d
  refine ⟨htouch.deletes hd, fun _ => ?_⟩
  rw [fs_unlink_files, if_pos (hd.err p)]

/-- What the end of every bad branch looks like. -/
theorem removes_unlink_then (p : P) (a : α) : Removes p bad (do let _ ← fs_unlink p; pure a) :=
  removes_bind (removes_fs_unlink p fun _ => True) (fun _ _ => cleansUp_pure a) fun _ h => absurd trivial h

theorem cleansUp_fs_open (p : P) (create trunc : Bool) : CleansUp p (· < 0) (fs_open p create trunc) := by
  rintro d ⟨hd, hfile⟩
  refine ⟨(touches_fs_open (W := fun _ => True) trivial create trunc d).deletes hd, fun hret => ?_⟩
  unfold fs_open at hret ⊢
  dsimp only at hret ⊢
  rw [hfile] at hret ⊢
  cases he : d.err .fs_open p with
  | some e => exact hfile
  | none =>
    cases create with
    | false => exact hfile
    | true => simp [he] at hret

/-- A file that was renamed is gone. -/
theorem removes_fs_rename {src dst : P} (hne : src ≠ dst) : Removes src (0 ≤ ·) (fs_rename src dst) := by
  intro d hd
  have htouch := touches_fs_rename (W := fun _ => True) (p := src) (q := dst) trivial trivial d
  refine ⟨htouch.deletes hd, fun hret => ?_⟩
  have hok := mt (fs_rename_fst src dst d).2 (Int.not_lt.2 hret)
  rw [not_or] at hok
  obtain ⟨b, hb⟩ := Option.ne_none_iff_exists'.1 hok.2
  rw [fs_rename_of_ok (by simpa using hok.1) hb hne]
  exact Disk.files_put_self _ _ _

theorem cleansUp_fs_rename (src dst : P) : CleansUp dst (· < 0) (fs_rename src dst) := by
  rintro d ⟨hd, hfile⟩
  have htouch := touches_fs_rename (W := fun _ => True) (p := src) (q := dst) trivial trivial d
  refine ⟨htouch.deletes hd, fun hret => ?_⟩
  rw [fs_rename_files_of_neg hret, hfile]

end NodeLib
