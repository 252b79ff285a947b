import EinkNode.Http.ConfigCache
import Mathlib.Data.List.Nodup
/-!
# Two readers of one plan

`sync_v2_once_inner` and `parse_config_json` take the job table and the image
table from the same members of a document. The jobs are the same; of an image
whose URL is too long for the array the one keeps the beginning, and the other
passes it over.
-/
open NodeLib EinkNode.Scheduler

namespace EinkNode.Http

/-- The id and the URL of an entry that has both. -/
def image_texts (item : Json) : Option (Bytes × Bytes) := do
  let image_id ← string_item item "image_id"
  let url ← string_item item "url"
  return (image_id, url)

/-- The texts of the entries of `images`. -/
def plan_entries (root : Json) : List (Bytes × Bytes) := (array_item root "images").filterMap image_texts

/-- An entry as the table has it: each text is cut to its array. -/
def table_image (e : Bytes × Bytes) : PlanImage := { image_id := .copy _ e.1, url := .copy _ e.2 }

/-- The URL fits its array. -/
def UrlFits (e : Bytes × Bytes) : Prop := (cstring e.2).length < EINK_HTTP_URL_MAX

instance (e : Bytes × Bytes) : Decidable (UrlFits e) := inferInstanceAs (Decidable (_ < _))

theorem v2_images_eq (items : List Json) :
    items.filterMap plan_image = (items.filterMap image_texts).map table_image := by
  rw [List.map_filterMap]
  congr 1
  funext item
  unfold plan_image image_texts
  cases string_item item "image_id" with
  | none => rfl
  | some image_id =>
    cases string_item item "url" with
    | none => rfl
    | some url => rfl

theorem config_images_eq (items : List Json) :
    items.filterMap config_image = ((items.filterMap image_texts).filter fun e => UrlFits e).map table_image := by
  rw [List.filter_filterMap, List.map_filterMap]
  congr 1
  funext item
  unfold config_image image_texts
  cases string_item item "image_id" with
  | none => rfl
  | some image_id =>
    cases string_item item "url" with
    | none => rfl
    | some url =>
      by_cases hfits : (cstring url).length < EINK_HTTP_URL_MAX
      · simp [UrlFits, Option.filter, hfits, Nat.not_le.2 hfits, table_image]
      · simp [UrlFits, Option.filter, hfits, Nat.not_lt.1 hfits]

/-- The two readers take the same jobs and the same images from the document. -/
def PlansAgree (root : Json) : Prop :=
  ∀ (cJSON_ParseWithLength : Bytes → Option Json) (json : Bytes), cJSON_ParseWithLength json = some root →
    ∃ plan config debug_log, parse_v2_plan root = some plan ∧
      parse_config_json cJSON_ParseWithLength json = .ok (config, debug_log) ∧
      plan.sched = config.sched ∧ plan.images = config.images

/-- The document speaks `v2`. -/
def SpeaksV2 (root : Json) : Prop := (string_item root "protocol").map cstring = some (ascii "v2")

theorem plansAgree_iff_tables {root : Json} (hv2 : SpeaksV2 root) :
    PlansAgree root ↔ ((plan_entries root).map table_image).take EINK_HTTP_MAX_IMAGES =
      (((plan_entries root).filter fun e => UrlFits e).map table_image).take EINK_HTTP_MAX_IMAGES := by
  have hplan : parse_v2_plan root = some
      { sched := .take ((array_item root "schedule").filterMap plan_job)
        images := ((plan_entries root).map table_image).take EINK_HTTP_MAX_IMAGES
        downloads := ((array_item root "download").filterMap plan_download).take EINK_HTTP_MAX_IMAGES } := by
    unfold SpeaksV2 at hv2
    rw [parse_v2_plan, if_neg (not_not.2 hv2), v2_images_eq]
    rfl
  constructor
  · intro h
    obtain ⟨plan, config, debug_log, hp, hc, -, himages⟩ := h (fun _ => some root) [] rfl
    rw [hplan] at hp
    cases hp
    cases hc
    rw [config_images_eq] at himages
    exact himages
  · intro h parse json hparse
    refine ⟨_, _, _, hplan, by rw [parse_config_json, hparse], rfl, ?_⟩
    rw [config_images_eq]
    exact h

/-- What comes to each place of the tables is the same. -/
def SamePlaces (root : Json) : Prop :=
  ∀ i < EINK_HTTP_MAX_IMAGES, (plan_entries root)[i]?.map table_image =
    ((plan_entries root).filter fun e => UrlFits e)[i]?.map table_image

theorem take_eq_iff {α : Type} {l l' : List α} {n : Nat} : l.take n = l'.take n ↔ ∀ i < n, l[i]? = l'[i]? := by
  constructor
  · intro h i hi
    rw [← List.getElem?_take_of_lt hi, h, List.getElem?_take_of_lt hi]
  · intro h
    apply List.ext_getElem?
    intro i
    by_cases hi : i < n
    · rw [List.getElem?_take_of_lt hi, List.getElem?_take_of_lt hi, h i hi]
    · rw [List.getElem?_take_eq_none (not_lt.1 hi), List.getElem?_take_eq_none (not_lt.1 hi)]

/-- Up to the first entry that does not fit, the entries that fit are all. -/
theorem filter_take_of_all {α : Type} {p : α → Prop} [DecidablePred p] {l : List α} {n : Nat}
    (h : ∀ e ∈ l.take n, p e) : (l.filter fun e => p e).take n = l.take n := by
  have hfront : (l.take n).filter (fun e => p e) = l.take n := by
    rw [List.filter_eq_self]
    exact fun e he => decide_eq_true (h e he)
  conv => lhs; rw [← List.take_append_drop n l, List.filter_append, hfront]
  by_cases hlen : n ≤ l.length
  · rw [List.take_append_of_le_length (by rw [List.length_take]; omega), List.take_take, Nat.min_self]
  · rw [List.drop_of_length_le (by omega), List.filter_nil, List.append_nil, List.take_take, Nat.min_self]

theorem plansAgree_iff_samePlaces {root : Json} (hv2 : SpeaksV2 root) : PlansAgree root ↔ SamePlaces root := by
  rw [plansAgree_iff_tables hv2, take_eq_iff, SamePlaces]
  simp only [List.getElem?_map]

/-- The URLs of the entries that come to a table fit. -/
def FirstFit (root : Json) : Prop := ∀ e ∈ (plan_entries root).take EINK_HTTP_MAX_IMAGES, UrlFits e

/-- No two entries have the same id in the table. -/
def IdsDiffer (root : Json) : Prop := ((plan_entries root).map fun e => (table_image e).image_id).Nodup

theorem samePlaces_of_firstFit {root : Json} (h : FirstFit root) : SamePlaces root := by
  intro i hi
  rw [← List.getElem?_take_of_lt hi, ← filter_take_of_all h, List.getElem?_take_of_lt hi]

/-- An entry that does not fit is in one table only, unless another one hides it. -/
theorem firstFit_of_samePlaces {root : Json} (hids : IdsDiffer root) (h : SamePlaces root) : FirstFit root := by
  intro e he
  obtain ⟨i, hi⟩ := List.mem_iff_getElem?.1 he
  have hlt : i < EINK_HTTP_MAX_IMAGES := by
    by_contra hge
    rw [List.getElem?_take_eq_none (not_lt.1 hge)] at hi
    cases hi
  rw [List.getElem?_take_of_lt hlt] at hi
  have hplace := h i hlt
  rw [hi, Option.map_some] at hplace
  obtain ⟨e', hi', himage⟩ := Option.map_eq_some_iff.1 hplace.symm
  obtain ⟨hmem, hfits⟩ := List.mem_filter.1 (List.mem_of_getElem? hi')
  have hsame : e' = e := List.inj_on_of_nodup_map hids hmem (List.mem_of_getElem? hi)
    (congrArg PlanImage.image_id himage)
  rw [← hsame]
  exact of_decide_eq_true hfits

/-- The readers agree if and only if each place of the tables gets the same entry. They do if the URLs that come to a
table fit, and with ids that differ only then. -/
theorem plans_agree_iff {root : Json} (hv2 : SpeaksV2 root) :
    (PlansAgree root ↔ SamePlaces root) ∧ (FirstFit root → SamePlaces root) ∧
      (IdsDiffer root → (SamePlaces root ↔ FirstFit root)) :=
  ⟨plansAgree_iff_samePlaces hv2, samePlaces_of_firstFit, fun hids =>
    ⟨firstFit_of_samePlaces hids, samePlaces_of_firstFit⟩⟩

/-- A plan with one image. -/
def oneImage (url : Bytes) : Json :=
  .object [(ascii "protocol", .string (ascii "v2")),
    (ascii "images", .array [.object [(ascii "image_id", .string (ascii "a")), (ascii "url", .string url)]])]

theorem entries_oneImage (url : Bytes) : plan_entries (oneImage url) = [(ascii "a", url)] := rfl

theorem speaksV2_oneImage (url : Bytes) : SpeaksV2 (oneImage url) := rfl

theorem plans_agree_short : PlansAgree (oneImage (ascii "http://a/b")) := by
  have hfirst : FirstFit (oneImage (ascii "http://a/b")) := by
    intro e he
    obtain rfl := List.mem_singleton.1 he
    decide
  have h := plans_agree_iff (speaksV2_oneImage (ascii "http://a/b"))
  exact h.1.2 (h.2.1 hfirst)

/-- The one keeps the entry and the other does not. -/
theorem not_samePlaces_of_long {url : Bytes} (h : ¬ UrlFits (ascii "a", url)) : ¬ SamePlaces (oneImage url) := by
  intro hsame
  have hplace := hsame 0 (by decide)
  rw [entries_oneImage, List.filter_cons_of_neg (by rwa [decide_eq_true_iff])] at hplace
  cases hplace

/-- A URL of 2048 bytes is cut by the one and passed over by the other. -/
theorem plans_differ : SpeaksV2 (oneImage (List.replicate 2048 97)) ∧
    ¬ PlansAgree (oneImage (List.replicate 2048 97)) := by
  refine ⟨speaksV2_oneImage _, fun h => not_samePlaces_of_long ?_
    ((plansAgree_iff_samePlaces (speaksV2_oneImage _)).1 h)⟩
  have hnul : 0 ∉ List.replicate 2048 (97 : UInt8) := fun h0 => absurd (List.eq_of_mem_replicate h0) (by decide)
  rw [UrlFits, cstring_of_notMem hnul, List.length_replicate]
  decide

end EinkNode.Http
