import EinkNode.Lib.Sim
import EinkNode.Store.Names
/-!
# What makes an image valid

`eink_store_has_valid_image` looks at the two objects of the image and at
nothing else, so what leaves these alone leaves a valid image valid.
-/
open NodeLib

namespace EinkNode.Store

/-! ## Validation of a stream -/

section
variable {σ : Type} {R : σ → σ → Prop} {read_cb : Nat → StateM σ (Except Int Bytes)}

theorem sim_step {α : Type} {m : StateM σ α} (hm : Sim R m) {s t s' : σ} {r : α} (hrel : R s t) (h : m s = (r, s')) :
    ∃ t', m t = (r, t') ∧ R s' t' := by
  obtain ⟨heq, hrel'⟩ := hm s t hrel
  rw [h] at heq hrel'
  exact ⟨(m t).2, Prod.ext heq.symm rfl, hrel'⟩

theorem sim_validate_loop (hread : ∀ len, Sim R (read_cb len)) (ctx : StreamCtx) :
    Sim R (validate_loop read_cb ctx) := by
  intro s t hrel
  fun_induction validate_loop read_cb ctx s generalizing t with
  | case1 ctx s e s' h =>
    obtain ⟨t', ht, hrel'⟩ := sim_step (hread _) hrel h
    rw [validate_loop, ht]
    exact ⟨rfl, hrel'⟩
  | case2 ctx s s' h =>
    obtain ⟨t', ht, hrel'⟩ := sim_step (hread _) hrel h
    rw [validate_loop, ht]
    exact ⟨rfl, hrel'⟩
  | case3 ctx s chunk s' h hne e hu =>
    obtain ⟨t', ht, hrel'⟩ := sim_step (hread _) hrel h
    rw [validate_loop, ht]
    simp only [hne, dite_false]
    split
    · next e' hu' =>
      rw [hu] at hu'
      cases hu'
      exact ⟨rfl, hrel'⟩
    · next ctx' hu' => rw [hu] at hu'; cases hu'
  | case4 ctx s chunk s' h hne ctx' hu ih =>
    obtain ⟨t', ht, hrel'⟩ := sim_step (hread _) hrel h
    rw [validate_loop.eq_def read_cb ctx t, ht]
    simp only [hne, dite_false]
    split
    · next e' hu' => rw [hu] at hu'; cases hu'
    · next ctx1 hu' =>
      rw [hu] at hu'
      cases hu'
      exact ih t' hrel'

theorem sim_validate_stream {seek_cb : Option (Nat → StateM σ Int)} (hread : ∀ len, Sim R (read_cb len))
    (hseek : ∀ f ∈ seek_cb, Sim R (f 0)) : Sim R (eink_frame_validate_stream read_cb seek_cb) := by
  unfold eink_frame_validate_stream
  apply sim_bind
  · cases seek_cb with
    | none => exact sim_pure _
    | some f => exact hseek f rfl
  intro ret
  refine sim_ite (sim_pure _) (sim_bind (hread _) ?_)
  rintro (e | hdr_raw)
  · exact sim_pure _
  refine sim_ite (sim_pure _) ?_
  split
  · exact sim_pure _
  refine sim_bind (sim_validate_loop hread _) ?_
  rintro (e | ctx)
  · exact sim_pure _
  · exact sim_ite (sim_pure _) (sim_pure _)

end

/-! ## The checks of the store -/

section
variable {b : Build} {image_id : Bytes} {W : Path → Prop} {path : Path}

theorem sim_read_head (hp : W path) (len : Nat) : Sim (AgreeOn W) (read_head path len) :=
  sim_bind (sim_fs_open hp) fun _ => sim_ite (sim_pure _) (sim_fs_read hp 0 len)

/-- The streams of two disks that agree, at the same offset. -/
def AgreeAt (W : Path → Prop) (s t : StreamState) : Prop := AgreeOn W s.1 t.1 ∧ s.2 = t.2

theorem sim_validate_path (hp : W path) : Sim (AgreeOn W) (eink_store_validate_path path) := by
  refine sim_bind (sim_fs_open hp) fun ret => sim_ite (sim_pure _) ?_
  have hread (len : Nat) : Sim (AgreeAt W) (fs_stream_read path len) := by
    rintro ⟨d, off⟩ ⟨d', off'⟩ ⟨hagree, rfl⟩
    obtain ⟨heq, hrel⟩ := sim_fs_read hp off len d d' hagree
    unfold fs_stream_read
    generalize fs_read path off len d = r at heq hrel ⊢
    generalize fs_read path off len d' = r' at heq hrel ⊢
    obtain ⟨r, d1⟩ := r
    obtain ⟨r', d1'⟩ := r'
    obtain rfl : r = r' := heq
    cases r with
    | error e => exact ⟨rfl, hrel, rfl⟩
    | ok bs => exact ⟨rfl, hrel, rfl⟩
  have hseek : ∀ f ∈ some (fs_stream_seek path), Sim (AgreeAt W) (f 0) := by
    rintro f ⟨⟩ ⟨d, off⟩ ⟨d', off'⟩ ⟨hagree, rfl⟩
    obtain ⟨heq, hrel⟩ := sim_fs_seek hp d d' hagree
    unfold fs_stream_seek
    generalize fs_seek path d = r at heq hrel ⊢
    generalize fs_seek path d' = r' at heq hrel ⊢
    obtain ⟨r, d1⟩ := r
    obtain ⟨r', d1'⟩ := r'
    obtain rfl : r = r' := heq
    exact ⟨rfl, hrel, rfl⟩
  intro d d' hagree
  obtain ⟨heq, hrel, -⟩ := sim_validate_stream hread hseek (d, 0) (d', 0) ⟨hagree, rfl⟩
  exact ⟨heq, hrel⟩

variable (hraw : W (eink_store_image_path b image_id)) (hlz4 : W (eink_store_image_lz4_path b image_id))
include hraw hlz4

theorem sim_resolve (cap : Nat) : Sim (AgreeOn W) (eink_store_resolve_show_path b image_id cap) := by
  have hfile {path : Path} (hp : W path) : Sim (AgreeOn W) (path_is_file path) := by
    refine sim_bind (sim_fs_stat hp) ?_
    rintro (e | size)
    · exact sim_pure _
    · exact sim_pure _
  refine sim_bind (hfile hraw) fun raw => sim_ite (sim_pure _) (sim_ite ?_ (sim_pure _))
  exact sim_bind (hfile hlz4) fun lz4 => sim_ite (sim_pure _) (sim_pure _)

/-- What is resolved is one of the two objects. -/
theorem resolve_in (cap : Nat) :
    Always (fun r => ∀ found, r = Except.ok found → W found.1) (eink_store_resolve_show_path b image_id cap) := by
  have herror {e : Int} : ∀ found : Path × Bool, Except.error e = Except.ok found → W found.1 := nofun
  have hfound {path : Path} {is_lz4 : Bool} (hp : W path) :
      ∀ found, (if path.length + 1 > cap then Except.error (-ENOMEM) else Except.ok (path, is_lz4)) = Except.ok found →
        W found.1 := by
    intro found h
    split at h
    · cases h
    · cases h
      exact hp
  refine always_then fun raw => always_ite (fun _ => always_pure (hfound hraw)) fun _ => ?_
  refine always_ite (fun _ => ?_) fun _ => always_pure herror
  exact always_then fun lz4 => always_ite (fun _ => always_pure (hfound hlz4)) fun _ => always_pure herror

theorem sim_has_image_quick : Sim (AgreeOn W) (eink_store_has_image_quick b image_id) := by
  refine sim_bind_of_always (resolve_in hraw hlz4 300) (sim_resolve hraw hlz4 300) ?_
  rintro (e | ⟨path, is_lz4⟩) hfound
  · exact sim_pure _
  have hp := hfound _ rfl
  refine sim_bind (sim_fs_stat hp) ?_
  rintro (e | size)
  · exact sim_pure _
  refine sim_ite (sim_ite (sim_pure _) (sim_bind (sim_read_head hp _) ?_)) ?_
  · rintro (e | head)
    · exact sim_pure _
    · exact sim_pure _
  refine sim_ite (sim_pure _) (sim_bind (sim_read_head hp _) ?_)
  rintro (e | hdr)
  · exact sim_pure _
  refine sim_ite (sim_pure _) ?_
  split
  · exact sim_pure _
  · exact sim_pure _

/-- Disks that agree on the two objects of an image have the same answer. -/
theorem sim_has_valid_image : Sim (AgreeOn W) (eink_store_has_valid_image b image_id) := by
  refine sim_bind_of_always (resolve_in hraw hlz4 300) (sim_resolve hraw hlz4 300) ?_
  rintro (e | ⟨path, is_lz4⟩) hfound
  · exact sim_pure _
  have hp := hfound _ rfl
  refine sim_ite (sim_has_image_quick hraw hlz4) ?_
  refine sim_bind_of_always (resolve_in hraw hlz4 300) (sim_resolve hraw hlz4 300) ?_
  rintro (e | ⟨path, is_lz4⟩) hagain
  -- The second call fails and leaves the first path, or its own path is of the image too.
  on_goal 2 => have hp := hagain _ rfl
  all_goals
    refine sim_ite (sim_bind (sim_read_head hp _) ?_) (sim_bind (sim_validate_path hp) ?_)
    · rintro (e | head)
      · exact sim_pure _
      · exact sim_pure _
    · rintro (e | hdr)
      · exact sim_pure _
      · exact sim_pure _

end

end EinkNode.Store
