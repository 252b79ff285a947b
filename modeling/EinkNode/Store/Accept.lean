import EinkNode.Store.Images
/-!
# Replacing an image

`eink_store_accept_temp_image` is meant to be atomic. It unlinks the image in
the store before it renames the temporary file, so a rename that fails after
that leaves neither. We say exactly which patterns of failures lose the image
that `eink_store_resolve_show_path` named, over all patterns.
-/
open NodeLib

namespace EinkNode.Store

/-! ## Unlinking -/

/-- Whether one of `n` attempts to unlink an existing file gets through, when
`fs_stat` and `fs_unlink` have these outcomes in store for it. -/
def unlinked : Nat → List Fault → List Fault → Bool
  | 0, _, _ => false
  | n + 1, stats, unlinks =>
    if (stats.headD .ok).err.isSome then unlinked n stats.tail unlinks
    else if (unlinks.headD .ok).err.isSome then unlinked n stats.tail unlinks.tail
    else true

theorem unlinked_nil {n : Nat} (hn : 0 < n) : unlinked n [] [] = true := by
  obtain ⟨n, rfl⟩ := Nat.exists_eq_succ_of_ne_zero (Nat.ne_of_gt hn)
  simp [unlinked, Fault.err]

/-- No file is left at `p` after as many attempts as `p` occurs in `ps`. -/
def Gone (ps : List Path) (d : Disk Path) (p : Path) : Prop :=
  d.files p = none ∨ unlinked (ps.count p) (d.faults .fs_stat p) (d.faults .fs_unlink p) = true

instance (ps : List Path) (d : Disk Path) (p : Path) : Decidable (Gone ps d p) :=
  inferInstanceAs (Decidable (_ ∨ _))

theorem keeps_unlink_if_exists {R : Disk Path → Disk Path → Prop} [IsPreorder (Disk Path) R] {p : Path}
    (hstat : Keeps R (fs_stat p)) (hunlink : Keeps R (fs_unlink p)) : Keeps R (unlink_if_exists p) := by
  refine keeps_ite (keeps_pure _) (keeps_bind hstat ?_)
  rintro (e | size)
  · exact keeps_pure _
  · exact keeps_bind hunlink fun _ => keeps_pure _

theorem sameAt_unlink_if_exists {p q : Path} (h : q ≠ p) : Keeps (SameAt q) (unlink_if_exists p) :=
  keeps_unlink_if_exists (sameAt_fs_stat h) (sameAt_fs_unlink h)

theorem unlink_if_exists_renames (p : Path) : Keeps (SameQueue .fs_rename) (unlink_if_exists p) :=
  keeps_unlink_if_exists (sameQueue_fs_stat (by decide)) (sameQueue_fs_unlink (by decide))

/-- One attempt uses up the outcomes that `unlinked` counts for it. -/
theorem gone_unlink_if_exists {p : Path} (hp : p ≠ []) (ps : List Path) (d : Disk Path) :
    Gone ps (unlink_if_exists p d).2 p ↔ Gone (p :: ps) d p := by
  cases hf : d.files p with
  | none => cases hs : d.err .fs_stat p <;> simp [unlink_if_exists, hp, Gone, fs_stat, hs, hf]
  | some b =>
    simp only [Gone, hf, reduceCtorEq, false_or, List.count_cons_self, unlinked]
    change _ ↔ (if (d.err .fs_stat p).isSome then _ else if (d.err .fs_unlink p).isSome then _ else _) = true
    cases hs : d.err .fs_stat p with
    | some e => simp [unlink_if_exists, hp, fs_stat, hs, hf]
    | none =>
      cases hu : d.err .fs_unlink p with
      | some e => simp [unlink_if_exists, hp, fs_stat, hs, hf, fs_unlink, hu]
      | none => simp [unlink_if_exists, hp, fs_stat, hs, hf, fs_unlink, hu]

theorem unlink_if_exists_files {p : Path} (hp : p ≠ []) (d : Disk Path) :
    (unlink_if_exists p d).2.files p = d.files p ∨ (unlink_if_exists p d).2.files p = none := by
  unfold unlink_if_exists
  simp only [hp, if_false, bind_app]
  cases (fs_stat p d).1 with
  | error e => exact .inl rfl
  | ok size =>
    simp only [bind_app, pure_app]
    unfold fs_unlink
    dsimp only
    split
    · exact .inl rfl
    · exact .inl rfl
    · exact .inr (by simp)

/-- What the unlinks leave of each file. -/
theorem files_unlink_all {ps : List Path} (hps : [] ∉ ps) (d : Disk Path) (q : Path) :
    (ps.forM unlink_if_exists d).2.files q = if Gone ps d q then none else d.files q := by
  induction ps generalizing d with
  | nil => by_cases h : d.files q = none <;> simp [Gone, unlinked, h]
  | cons p ps ih =>
    simp only [List.mem_cons, not_or] at hps
    change (ps.forM unlink_if_exists (unlink_if_exists p d).2).2.files q = _
    rw [ih hps.2]
    by_cases hq : q = p
    · subst hq
      simp only [gone_unlink_if_exists (Ne.symm hps.1)]
      split
      · rfl
      · next hg =>
        rw [← gone_unlink_if_exists (Ne.symm hps.1)] at hg
        exact (unlink_if_exists_files (Ne.symm hps.1) d).resolve_right fun h => hg (.inl h)
    · obtain ⟨h1, h2⟩ := sameAt_unlink_if_exists hq d
      simp [Gone, h1, h2, List.count_cons_of_ne (Ne.symm hq)]

/-! ## The checks before it -/

/-- The disk as the unlinks find it: the check of a compressed file has asked for its size. -/
def afterCheck (temp_path : Path) (d : Disk Path) : Format → Disk Path
  | .ES6F => d
  | .LZ4 => d.called .fs_stat temp_path

/-- What the check leaves of the disk, as its result tells. -/
def Checked (temp_path : Path) (d : Disk Path) (r : Except Int Format) (d' : Disk Path) : Prop :=
  d'.files = d.files ∧ ∀ format, r = .ok format →
    d.files temp_path ≠ none ∧ ∀ c, ¬ Reading c → d'.faults c = (afterCheck temp_path d format).faults c

theorem checked_error {temp_path : Path} {d d' : Disk Path} (h : d'.files = d.files) (e : Int) :
    Checked temp_path d (.error e) d' := ⟨h, nofun⟩

theorem check_temp_image_spec (b : Build) (temp_path : Path) (d : Disk Path) :
    wp (check_temp_image b temp_path) (Checked temp_path d) d := by
  have hr := reading_read_head temp_path 8 d
  have hok := @read_head_ok temp_path 8 d
  unfold check_temp_image
  rw [wp_bind, wp_iff]
  generalize (read_head temp_path 8 d).2 = d1 at hr ⊢
  cases hhead : (read_head temp_path 8 d).1 with
  | error e => exact checked_error hr.1 e
  | ok head =>
    obtain ⟨bs, hbs, -⟩ := hok hhead
    refine wp_ite (fun _ => checked_error hr.1 _) fun _ => ?_
    split
    · split
      · -- The size of a compressed file is asked for.
        rw [wp_bind, wp_iff]
        have hstat : ∀ c, ¬ Reading c → (d1.called .fs_stat temp_path).faults c =
            (d.called .fs_stat temp_path).faults c := by
          intro c hc
          funext p
          simp only [Disk.faults_called, hr.2 c _ hc, hr.2 .fs_stat _ (by simp [Reading])]
        have hfiles : (d1.called .fs_stat temp_path).files = d.files := hr.1
        change wp _ _ (d1.called .fs_stat temp_path)
        cases (fs_stat temp_path d1).1 with
        | error e => exact (wp_pure _ _ _).2 (checked_error hfiles _)
        | ok size =>
          rw [wp_pure]
          split
          · exact checked_error hfiles _
          · exact ⟨hr.1, by rintro _ ⟨⟩; exact ⟨by simp [hbs], hstat⟩⟩
      · exact checked_error hr.1 _
    · have hv := reading_validate_path temp_path d1
      rw [wp_bind, wp_iff]
      generalize (eink_store_validate_path temp_path d1).2 = d2 at hv ⊢
      have hfiles := hv.1.trans hr.1
      cases (eink_store_validate_path temp_path d1).1 with
      | error e => exact checked_error hfiles e
      | ok hdr =>
        refine ⟨hfiles, ?_⟩
        rintro _ ⟨⟩
        exact ⟨by simp [hbs], fun c hc => funext fun p => (hv.2 c p hc).trans (hr.2 c p hc)⟩

/-! ## Accepting -/

/-- The two names that an image can have in the store. -/
def image_names (b : Build) (image_id : Bytes) : List Path :=
  [eink_store_image_path b image_id, eink_store_image_lz4_path b image_id]

theorem nil_notMem_image_names (b : Build) (image_id : Bytes) : [] ∉ image_names b image_id := by
  simp [image_names, eink_store_image_path, eink_store_image_lz4_path, snprintf, ascii]

/-- The path that `eink_store_resolve_show_path` names when no call fails. -/
def NamedPath (b : Build) (image_id : Bytes) (d : Disk Path) (p : Path) : Prop :=
  ∃ z, (eink_store_resolve_show_path b image_id 300 (.calm d.files)).1 = .ok (p, z)

/-- If the temporary image is refused, the named one is still there. -/
def KeepsNamed (b : Build) (image_id temp_path : Bytes) (d : Disk Path) : Prop :=
  (eink_store_accept_temp_image b image_id temp_path d).1 < 0 →
    ∀ p, NamedPath b image_id d p →
      (eink_store_accept_temp_image b image_id temp_path d).2.files p = d.files p

/-- The temporary file passes the checks, the named image gets unlinked, and
the rename fails: by itself, or because the temporary file went with the image. -/
def LosesNamed (b : Build) (image_id temp_path : Bytes) (d : Disk Path) : Prop :=
  ∃ format, (check_temp_image b temp_path d).1 = .ok format ∧
    (∃ p, NamedPath b image_id d p ∧ Gone (image_names b image_id) (afterCheck temp_path d format) p) ∧
    ((d.err .fs_rename temp_path).isSome ∨
      Gone (image_names b image_id) (afterCheck temp_path d format) temp_path)

theorem namedPath_isSome {b : Build} {image_id : Bytes} {d : Disk Path} {p : Path}
    (h : NamedPath b image_id d p) : d.files p ≠ none := by
  obtain ⟨z, h⟩ := h
  obtain ⟨⟨bs, hbs, -⟩, -⟩ := resolve_calm b d.files h
  simp [hbs]

/-- `Gone` looks at the files and at the two queues of unlinking. -/
theorem gone_congr {ps : List Path} {d d' : Disk Path} (hf : d'.files = d.files)
    (hq : ∀ c, ¬ Reading c → d'.faults c = d.faults c) (p : Path) : Gone ps d' p ↔ Gone ps d p := by
  simp [Gone, hf, hq .fs_stat (by simp [Reading]), hq .fs_unlink (by simp [Reading])]

theorem accept_eq {b : Build} {temp_path : Path} {d d1 : Disk Path} {format : Format} (image_id : Bytes)
    (h : check_temp_image b temp_path d = (.ok format, d1)) :
    eink_store_accept_temp_image b image_id temp_path d =
      fs_rename temp_path (accepted_path b image_id format) ((image_names b image_id).forM unlink_if_exists d1).2 := by
  simp only [eink_store_accept_temp_image, bind_app, h]
  rfl

theorem accept_keeps_named_iff (b : Build) (image_id temp_path : Bytes) (d : Disk Path) :
    KeepsNamed b image_id temp_path d ↔ ¬ LosesNamed b image_id temp_path d := by
  have hspec := check_temp_image_spec b temp_path d
  rw [wp_iff] at hspec
  rcases hc : check_temp_image b temp_path d with ⟨e | format, d1⟩
  · simp only [hc] at hspec
    simp [KeepsNamed, LosesNamed, eink_store_accept_temp_image, hc, hspec.1]
  · simp only [hc] at hspec
    obtain ⟨hfiles, hspec⟩ := hspec
    obtain ⟨htemp, hfaults⟩ := hspec format rfl
    have hgone (p : Path) : Gone (image_names b image_id) d1 p ↔
        Gone (image_names b image_id) (afterCheck temp_path d format) p :=
      gone_congr (by cases format <;> exact hfiles) hfaults p
    have hren := keeps_forM (l := image_names b image_id) (fun p _ => unlink_if_exists_renames p) d1
    have hfiles' := files_unlink_all (nil_notMem_image_names b image_id) d1
    simp only [KeepsNamed, LosesNamed, accept_eq image_id hc]
    generalize ((image_names b image_id).forM unlink_if_exists d1).2 = d2 at hren hfiles' ⊢
    have herr : d2.err .fs_rename temp_path = d.err .fs_rename temp_path := by
      have h : d2.faults .fs_rename = d.faults .fs_rename := by
        rw [hren, hfaults _ (by simp [Reading])]
        cases format with
        | ES6F => rfl
        | LZ4 => funext p; simp [afterCheck]
      simp [Disk.err, Disk.outcome, h]
    simp only [hgone, hfiles] at hfiles'
    rw [fs_rename_fst, herr]
    constructor
    · rintro hkeep ⟨format', hf, ⟨p, hp, hpgone⟩, hfail⟩
      obtain rfl : format' = format := by simpa [hc] using hf.symm
      have hneg : (d.err .fs_rename temp_path).isSome ∨ d2.files temp_path = none :=
        hfail.imp_right fun h => by rw [hfiles', if_pos h]
      have := hkeep hneg p hp
      rw [fs_rename_files_of_neg (fs_rename_fst .. |>.2 (herr ▸ hneg)), hfiles', if_pos hpgone] at this
      exact namedPath_isSome hp this.symm
    · intro hlose hneg p hp
      rw [fs_rename_files_of_neg (fs_rename_fst .. |>.2 (herr ▸ hneg)), hfiles']
      refine if_neg fun hpgone => hlose ⟨format, by rw [hc], ⟨p, hp, hpgone⟩, hneg.imp_right fun h => ?_⟩
      rw [hfiles'] at h
      by_contra hg
      exact htemp (by rwa [if_neg hg] at h)

/-- With two different names and a temporary file under neither, the image is
lost exactly when its unlinking goes through and the rename does not. -/
theorem losesNamed_iff {b : Build} {image_id temp_path : Bytes} (d : Disk Path)
    (hne : eink_store_image_path b image_id ≠ eink_store_image_lz4_path b image_id)
    (htemp : temp_path ∉ image_names b image_id) :
    LosesNamed b image_id temp_path d ↔ (∃ format, (check_temp_image b temp_path d).1 = .ok format) ∧
      (∃ p, NamedPath b image_id d p ∧ d.err .fs_stat p = none ∧ d.err .fs_unlink p = none) ∧
      (d.err .fs_rename temp_path).isSome := by
  have hgone {format : Format} {p : Path} (hp : NamedPath b image_id d p) :
      Gone (image_names b image_id) (afterCheck temp_path d format) p ↔
        d.err .fs_stat p = none ∧ d.err .fs_unlink p = none := by
    have hor : p = eink_store_image_path b image_id ∨ p = eink_store_image_lz4_path b image_id := by
      obtain ⟨z, h⟩ := hp
      exact (resolve_calm b d.files h).2
    have hmem : p ∈ image_names b image_id := by simpa [image_names] using hor
    have hcount : (image_names b image_id).count p = 1 := by
      rcases hor with rfl | rfl <;> simp [image_names, hne, Ne.symm hne]
    have hpt : p ≠ temp_path := fun h => htemp (h ▸ hmem)
    have hq (c : Call) : (afterCheck temp_path d format).faults c p = d.faults c p := by
      cases format <;> simp [afterCheck, hpt]
    have hf : (afterCheck temp_path d format).files p ≠ none := by
      cases format <;> exact namedPath_isSome hp
    simp only [Gone, hf, false_or, hcount, hq, unlinked]
    change (if (d.err .fs_stat p).isSome then _ else if (d.err .fs_unlink p).isSome then _ else _) = true ↔ _
    cases d.err .fs_stat p <;> cases d.err .fs_unlink p <;> simp
  have hkept {format : Format} : (check_temp_image b temp_path d).1 = .ok format →
      ¬ Gone (image_names b image_id) (afterCheck temp_path d format) temp_path := by
    intro hc hg
    have hsome := (check_temp_image_spec b temp_path d).2 format hc
    rcases hg with hg | hg
    · exact hsome.1 (by cases format <;> exact hg)
    · simp [List.count_eq_zero_of_not_mem htemp, unlinked] at hg
  constructor
  · rintro ⟨format, hc, ⟨p, hp, hg⟩, hfail⟩
    exact ⟨⟨format, hc⟩, ⟨p, hp, (hgone hp).1 hg⟩, hfail.resolve_right (hkept hc)⟩
  · rintro ⟨⟨format, hc⟩, ⟨p, hp, hg⟩, hfail⟩
    exact ⟨format, hc, ⟨p, hp, (hgone hp).2 hg⟩, .inl hfail⟩

/-! ## Accepting on a disk that does not fail -/

theorem negErr_check_temp_image (b : Build) (temp_path : Path) : Always NegErr (check_temp_image b temp_path) := by
  have hinval : NegErr (.error (-EINVAL) : Except Int Format) := show -EINVAL < 0 by decide
  refine always_bind (negErr_read_head temp_path 8) ?_
  rintro (e | head) he
  · exact always_pure he
  refine always_ite (fun _ => always_pure hinval) fun _ => always_ite (fun _ => ?_) fun _ => ?_
  · refine always_ite (fun _ => always_then ?_) fun _ => always_pure hinval
    rintro (e | size)
    · exact always_pure hinval
    · refine always_pure ?_
      split
      · exact hinval
      · trivial
  · refine always_bind (negErr_validate_path temp_path) ?_
    rintro (e | hdr) he
    · exact always_pure he
    · exact always_pure trivial

variable {b : Build} {image_id temp_path : Bytes} {d : Disk Path}

/-- A refusal by the checks leaves all files. -/
theorem accept_refused (image_id : Bytes) {e : Int} (h : (check_temp_image b temp_path d).1 = .error e) :
    (eink_store_accept_temp_image b image_id temp_path d).1 < 0 ∧
      (eink_store_accept_temp_image b image_id temp_path d).2.files = d.files := by
  have hneg := negErr_check_temp_image b temp_path d
  have hspec := (check_temp_image_spec b temp_path d).1
  rw [h] at hneg
  simp only [eink_store_accept_temp_image, bind_app, h]
  exact ⟨hneg, hspec⟩

/-- What passes the checks replaces both names of the image. -/
theorem accept_passed {format : Format} (h : (check_temp_image b temp_path d).1 = .ok format)
    (hcalm : ∀ c, ∀ p ∈ temp_path :: image_names b image_id, d.faults c p = [])
    (htemp : temp_path ∉ image_names b image_id) :
    (eink_store_accept_temp_image b image_id temp_path d).1 = 0 ∧
      ∀ p, (eink_store_accept_temp_image b image_id temp_path d).2.files p =
        if p = accepted_path b image_id format then d.files temp_path
        else if p ∈ temp_path :: image_names b image_id then none else d.files p := by
  obtain ⟨hfiles, hspec⟩ := check_temp_image_spec b temp_path d
  obtain ⟨hsome, hfaults⟩ := hspec format h
  rcases hc : check_temp_image b temp_path d with ⟨r, d1⟩
  simp only [hc] at h hfiles hfaults
  subst h
  have hqueue (c : Call) (hr : ¬ Reading c) {p : Path} (hp : p ∈ temp_path :: image_names b image_id) :
      d1.faults c p = [] := by
    rw [hfaults c hr]
    cases format <;> simp [afterCheck, hcalm c p hp, hcalm .fs_stat temp_path]
  have hunlinked (q : Path) : ((image_names b image_id).forM unlink_if_exists d1).2.files q =
      if q ∈ image_names b image_id then none else d.files q := by
    rw [files_unlink_all (nil_notMem_image_names b image_id), hfiles]
    by_cases hq : q ∈ image_names b image_id
    · have hpos : 0 < (image_names b image_id).count q := List.count_pos_iff.2 hq
      rw [if_pos hq, if_pos]
      right
      rw [hqueue .fs_stat (by simp [Reading]) (by simp [hq]), hqueue .fs_unlink (by simp [Reading]) (by simp [hq])]
      exact unlinked_nil hpos
    · simp only [if_neg hq, Gone, List.count_eq_zero_of_not_mem hq, unlinked, hfiles, Bool.false_eq_true, or_false]
      split
      · next hn => exact hn.symm
      · rfl
  have hren := keeps_forM (l := image_names b image_id) (fun p _ => unlink_if_exists_renames p) d1
  rw [accept_eq image_id hc]
  generalize ((image_names b image_id).forM unlink_if_exists d1).2 = d2 at hren hunlinked ⊢
  obtain ⟨bytes, hbytes⟩ := Option.ne_none_iff_exists'.1 hsome
  have hmem : accepted_path b image_id format ∈ image_names b image_id := by
    cases format <;> simp [accepted_path, image_names]
  have hne : temp_path ≠ accepted_path b image_id format := fun he => htemp (he ▸ hmem)
  have herr : d2.err .fs_rename temp_path = none :=
    Disk.err_of_nil ((congrFun hren temp_path).trans (hqueue .fs_rename (by simp [Reading]) List.mem_cons_self))
  rw [fs_rename_of_ok herr (by rw [hunlinked, if_neg htemp, hbytes]) hne, hbytes]
  refine ⟨rfl, fun p => ?_⟩
  by_cases hpt : p = temp_path
  · subst hpt
    simp [hne]
  · rw [Disk.files_put_of_ne _ _ hpt]
    by_cases hpa : p = accepted_path b image_id format
    · simp [hpa]
    · rw [Disk.files_put_of_ne _ _ hpa, Disk.files_called, hunlinked]
      simp [hpa, hpt]

theorem keeps_check_temp_image {R : Disk Path → Disk Path → Prop} [IsPreorder (Disk Path) R]
    (hread : Keeps R (read_head temp_path 8)) (hvalid : Keeps R (eink_store_validate_path temp_path))
    (hstat : Keeps R (fs_stat temp_path)) : Keeps R (check_temp_image b temp_path) := by
  refine keeps_bind hread ?_
  rintro (e | head)
  · exact keeps_pure _
  refine keeps_ite (keeps_pure _) (keeps_ite (keeps_ite (keeps_bind hstat ?_) (keeps_pure _)) (keeps_bind hvalid ?_))
  · rintro (e | size) <;> exact keeps_pure _
  · rintro (e | hdr) <;> exact keeps_pure _

theorem keeps_accept {R : Disk Path → Disk Path → Prop} [IsPreorder (Disk Path) R]
    (hread : Keeps R (read_head temp_path 8)) (hvalid : Keeps R (eink_store_validate_path temp_path))
    (hstat : ∀ p ∈ temp_path :: image_names b image_id, Keeps R (fs_stat p))
    (hunlink : ∀ p ∈ image_names b image_id, Keeps R (fs_unlink p))
    (hrename : ∀ p ∈ image_names b image_id, Keeps R (fs_rename temp_path p)) :
    Keeps R (eink_store_accept_temp_image b image_id temp_path) := by
  have hgone (p : Path) (hp : p ∈ image_names b image_id) : Keeps R (unlink_if_exists p) :=
    keeps_unlink_if_exists (hstat p (by simp [hp])) (hunlink p hp)
  refine keeps_bind (keeps_check_temp_image hread hvalid (hstat _ (by simp))) ?_
  rintro (e | format)
  · exact keeps_pure _
  refine keeps_bind (hgone _ (by simp [image_names])) fun _ => keeps_bind (hgone _ (by simp [image_names])) fun _ => ?_
  exact hrename _ (by cases format <;> simp [image_names, accepted_path])

/-- Other names are left alone. -/
theorem sameAt_accept {q : Path} (hq : q ∉ temp_path :: image_names b image_id) :
    Keeps (SameAt q) (eink_store_accept_temp_image b image_id temp_path) := by
  have hne {p : Path} (hp : p ∈ temp_path :: image_names b image_id) : q ≠ p := fun h => hq (h ▸ hp)
  have ht : q ≠ temp_path := hne (by simp)
  have hopen := sameAt_fs_open ht false false
  have hread := sameAt_fs_read ht
  refine keeps_accept (keeps_read_head hopen hread 8) (keeps_validate_path hopen hread (sameAt_fs_seek ht)) ?_ ?_ ?_
  · exact fun p hp => sameAt_fs_stat (hne hp)
  · exact fun p hp => sameAt_fs_unlink (hne (by simp [hp]))
  · exact fun p hp => sameAt_fs_rename ht (hne (by simp [hp]))

theorem touches_accept {W : Path → Prop} (ht : W temp_path) (hn : ∀ p ∈ image_names b image_id, W p) :
    Keeps (Touches W) (eink_store_accept_temp_image b image_id temp_path) :=
  keeps_accept (keeps_read_head touches_fs_open_read touches_fs_read 8)
    (keeps_validate_path touches_fs_open_read touches_fs_read touches_fs_seek) (fun _ _ => touches_fs_stat)
    (fun p hp => touches_fs_unlink (hn p hp)) fun p hp => touches_fs_rename ht (hn p hp)

/-! ## A failing rename -/

/-- The smallest file that is accepted as compressed. -/
def lz4Head : Bytes := [0x04, 0x22, 0x4D, 0x18, 0, 0, 0, 0, 0, 0, 0, 0, 0, 0, 0, 0]

/-- Image "a" is in the store, a new one is at "t", and renames of "t" fail once. -/
def renameFails : Disk Path :=
  { files := fun p =>
      if p = eink_store_image_lz4_path lz4Build (ascii "a") ∨ p = ascii "t" then some lz4Head else none
    faults := fun c p => if c = .fs_rename ∧ p = ascii "t" then [.error 4 0] else [] }

/-- The call fails with `-EIO` and the old image is gone. -/
theorem accept_loses_named :
    ¬ ∀ (b : Build) (image_id temp_path : Bytes) (d : Disk Path), KeepsNamed b image_id temp_path d := by
  intro h
  have hk := h lz4Build (ascii "a") (ascii "t") renameFails (by decide)
    (eink_store_image_lz4_path lz4Build (ascii "a")) ⟨true, by decide⟩
  exact absurd hk (by decide)

end EinkNode.Store
