import EinkNode.Lib.Disk
/-!
# Two runs side by side

`Sim R m` says that `m`, started in two states that `R` relates, ends in one
result and in states that `R` relates. For a disk, `R` is that two disks agree
on some files: a program that looks at no others cannot tell them apart.
-/

namespace NodeLib

variable {σ α β : Type} {R : σ → σ → Prop}

/-- `m` cannot tell related states apart. -/
def Sim (R : σ → σ → Prop) (m : StateM σ α) : Prop := ∀ s t, R s t → (m s).1 = (m t).1 ∧ R (m s).2 (m t).2

theorem sim_pure (a : α) : Sim R (pure a : StateM σ α) := fun _ _ h => ⟨rfl, h⟩

theorem sim_bind {m : StateM σ α} {f : α → StateM σ β} (hm : Sim R m) (hf : ∀ a, Sim R (f a)) :
    Sim R (m >>= f) := by
  intro s t h
  obtain ⟨heq, hrel⟩ := hm s t h
  have := hf (m s).1 _ _ hrel
  rw [bind_app, bind_app, ← heq]
  exact this

/-- When something is known of the first result. -/
theorem sim_bind_of_always {P : α → Prop} {m : StateM σ α} {f : α → StateM σ β} (hP : Always P m) (hm : Sim R m)
    (hf : ∀ a, P a → Sim R (f a)) : Sim R (m >>= f) := by
  intro s t h
  obtain ⟨heq, hrel⟩ := hm s t h
  have := hf (m s).1 (hP s) _ _ hrel
  rw [bind_app, bind_app, ← heq]
  exact this

theorem sim_ite {c : Prop} [Decidable c] {m n : StateM σ α} (ht : Sim R m) (hf : Sim R n) :
    Sim R (if c then m else n) := by
  split
  · exact ht
  · exact hf

/-! ## Programs that read some files only -/

variable {P : Type}

/-- The disks agree on the files in `W` and on how calls to them will end. -/
def AgreeOn (W : P → Prop) (d d' : Disk P) : Prop := ∀ p, W p → SameAt p d d'

variable [DecidableEq P] {W : P → Prop} {p : P}

omit [DecidableEq P] in
theorem AgreeOn.err {d d' : Disk P} (h : AgreeOn W d d') (hp : W p) (c : Call) : d'.err c p = d.err c p :=
  (h p hp).err c

omit [DecidableEq P] in
theorem AgreeOn.outcome {d d' : Disk P} (h : AgreeOn W d d') (hp : W p) (c : Call) :
    d'.outcome c p = d.outcome c p := by
  rw [Disk.outcome, (h p hp).2 c, Disk.outcome]

theorem AgreeOn.called {d d' : Disk P} (h : AgreeOn W d d') (hp : W p) (c : Call) :
    AgreeOn W (d.called c p) (d'.called c p) := by
  intro q hq
  refine ⟨(h q hq).1, fun c' => ?_⟩
  rw [Disk.faults_called, Disk.faults_called, (h p hp).2 c, (h q hq).2 c']

theorem sim_fs_stat (hp : W p) : Sim (AgreeOn W) (fs_stat p) := by
  intro d d' h
  have herr := h.err hp .fs_stat
  have hfile := (h p hp).1
  refine ⟨?_, h.called hp .fs_stat⟩
  simp only [fs_stat, herr, hfile]

theorem sim_fs_open (hp : W p) : Sim (AgreeOn W) (fs_open p false false) := by
  intro d d' h
  have herr := h.err hp .fs_open
  have hfile := (h p hp).1
  have hcalled := h.called hp .fs_open
  unfold fs_open
  rw [herr, hfile]
  cases d.err .fs_open p with
  | some e => exact ⟨rfl, hcalled⟩
  | none =>
    cases d.files p with
    | none => exact ⟨rfl, hcalled⟩
    | some bs => exact ⟨rfl, hcalled⟩

theorem sim_fs_read (hp : W p) (off len : Nat) : Sim (AgreeOn W) (fs_read p off len) := by
  intro d d' h
  refine ⟨?_, h.called hp .fs_read⟩
  simp only [fs_read, h.err hp .fs_read, h.outcome hp .fs_read, (h p hp).1]

theorem sim_fs_seek (hp : W p) : Sim (AgreeOn W) (fs_seek p) := by
  intro d d' h
  refine ⟨?_, h.called hp .fs_seek⟩
  simp only [fs_seek, h.err hp .fs_seek]

end NodeLib
