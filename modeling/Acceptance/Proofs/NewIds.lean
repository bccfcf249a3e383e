import Acceptance.Proofs.Neighbours
import Acceptance.Proofs.WorkingOff

/-! # Ids of new features

A new feature is named after its place in the list. If no other feature has that id already, the ids
stay different and the new one leads to the new feature; otherwise it leads to the older one. -/

namespace Acceptance

open Json (Kept)

variable {outside : Outside} {m m' : Machine} {entries : List Entries} {e f : Entries} {k : Nat}
  {id : Text}

/-! ## Ids -/

namespace Entry

theorem idText_eq (h : e.get? "id" = some (.text id)) : idText e = id := by
  unfold idText Entry.id Entries.getD
  rw [h]
  rfl

theorem get?_id_inOrder (he : Kept 983 (.object e)) :
    (Json.inOrder e).get? "id" = some (.text id) ↔ e.get? "id" = some (.text id) := by
  rw [Json.get?_inOrder (Json.kept_object.mp he).1]
  cases e.get? "id" with
  | none => simp
  | some v => cases v <;> simp [Json.ordered]

/-- Each entry has an id, a text, and no two have the same. -/
structure DistinctIds (entries : List Entries) : Prop where
  texts : ∀ e ∈ entries, ∃ t, e.get? "id" = some (.text t)
  distinct : (entries.map idText).Nodup

theorem DistinctIds.inOrder (h : DistinctIds entries)
    (hkept : ∀ e ∈ entries, Kept 983 (.object e)) :
    DistinctIds (entries.map Json.inOrder) where
  texts e he := by
    obtain ⟨f, hf, rfl⟩ := List.mem_map.mp he
    obtain ⟨t, ht⟩ := h.texts f hf
    exact ⟨t, (get?_id_inOrder (hkept f hf)).mpr ht⟩
  distinct := by
    have hids : (entries.map Json.inOrder).map idText = entries.map idText := by
      rw [List.map_map]
      refine List.map_congr_left fun e he => ?_
      have hkept' : Kept (982 + 1) (.object e) := hkept e he
      exact idText_of_sameFields (Json.sameFields_inOrder hkept')
    rw [hids]
    exact h.distinct

theorem DistinctIds.concat (h : DistinctIds entries) (he : e.get? "id" = some (.text id))
    (hnew : ∀ f ∈ entries, f.get? "id" ≠ some (.text id)) : DistinctIds (entries ++ [e]) where
  texts f hf := by
    rcases List.mem_append.mp hf with hold | hlast
    · exact h.texts f hold
    · exact ⟨id, List.mem_singleton.mp hlast ▸ he⟩
  distinct := by
    rw [List.map_append, List.map_singleton, idText_eq he]
    refine List.nodup_append.mpr ⟨h.distinct, List.nodup_singleton _, fun s hs t ht => ?_⟩
    obtain ⟨f, hf, rfl⟩ := List.mem_map.mp hs
    obtain ⟨t', ht'⟩ := h.texts f hf
    rw [List.mem_singleton.mp ht, idText_eq ht']
    rintro rfl
    exact hnew f hf ht'

end Entry

namespace Project

/-! ## The first with an id -/

theorem FirstWith.inOrder (h : FirstWith id entries k e)
    (hkept : ∀ e ∈ entries, Kept 983 (.object e)) :
    FirstWith id (entries.map Json.inOrder) k (Json.inOrder e) where
  there := by rw [List.getElem?_map, h.there, Option.map_some]
  found := (Entry.get?_id_inOrder (hkept e (List.mem_of_getElem? h.there))).mpr h.found
  before j f hj hf := by
    rw [List.getElem?_map] at hf
    obtain ⟨g, hg, rfl⟩ := Option.map_eq_some_iff.mp hf
    rw [ne_eq, Entry.get?_id_inOrder (hkept g (List.mem_of_getElem? hg))]
    exact h.before j g hj hg

/-- Among entries with ids of their own, one with the id is the first. -/
theorem firstWith_of_distinct (h : Entry.DistinctIds entries) (hk : entries[k]? = some e)
    (hid : e.get? "id" = some (.text id)) : FirstWith id entries k e where
  there := hk
  found := hid
  before j f hj hf hsame := by
    have hplace := Entry.place_eq h.distinct hf hk
      ((Entry.idText_eq hsame).trans (Entry.idText_eq hid).symm)
    omega

theorem FirstWith.concat (h : FirstWith id entries k e) (f : Entries) :
    FirstWith id (entries ++ [f]) k e := by
  have hk := (List.getElem?_eq_some_iff.mp h.there).1
  refine ⟨by rw [List.getElem?_append_left hk, h.there], h.found, fun j g hj hg => ?_⟩
  rw [List.getElem?_append_left (hj.trans hk)] at hg
  exact h.before j g hj hg

theorem firstWith_last (hid : e.get? "id" = some (.text id))
    (hnew : ∀ f ∈ entries, f.get? "id" ≠ some (.text id)) :
    FirstWith id (entries ++ [e]) entries.length e where
  there := List.getElem?_concat_length
  found := hid
  before j f hj hf := by
    rw [List.getElem?_append_left hj] at hf
    exact hnew f (List.mem_of_getElem? hf)

/-- On the machine the id leads to the entry at the place: that is the feature which is tested, and
the one which is accepted. -/
structure Leads (outside : Outside) (m : Machine) (id : Text) (entries : List Entries) (k : Nat)
    (e : Entries) : Prop where
  first : FirstWith id entries k e
  feature : (feature (.text id)).run outside m = (Feature.ofFields e, m)
  accepted : ∀ (notes : Option Text) (v : Value) (tally : Tally) (m' : Machine),
    (markDone (.text id) (Value.ofText? notes)).run outside m = (.ok (v, tally), m') →
    ∃ u data : Entries, v = .object u ∧ u.get? "id" = some (.text id) ∧
      Rewritten outside m data (entries.set k u) tally m'

theorem leads_of_first {data : Entries}
    (hload : load.run outside m = (.ok ⟨data, entries.map .object⟩, m))
    (hfirst : FirstWith id entries k e) : Leads outside m id entries k e where
  first := hfirst
  feature := by
    have hfind : find ⟨data, entries.map .object⟩ (.text id) = .ok e := by
      unfold find
      rw [locate_iff.mpr hfirst]
      rfl
    unfold feature
    rw [Task.run_bind_ok hload, hfind, Task.run_ofExcept_ok_bind, Task.run_ofExcept]
  accepted notes v tally m' h := by
    obtain ⟨j, f, u, now, hfound, -, hv, hbecomes, hwritten⟩ := markDone_rewritten hload rfl h
    have hsame := (locate_iff.mpr hfound).symm.trans (locate_iff.mpr hfirst)
    obtain ⟨rfl, rfl⟩ := Prod.mk.inj (Except.ok.inj hsame)
    exact ⟨u, _, hv, (hbecomes.others "id" (by decide)).trans hfirst.found, hwritten⟩

/-! ## New features -/

/-- A feature is added to features with ids of their own. If none of them has the id of the new one,
the ids are different again and the new one leads to the new feature. If one has it, the new id
leads to that one, and the ids are no longer different. -/
theorem added_leads {project : Project} (hload : load.run outside m = (.ok project, m))
    (hentries : project.features = entries.map .object) (hids : Entry.DistinctIds entries)
    {g : Entry.Given} {steps v : Value} (hsteps : Entry.stepsOf steps = .ok (g.steps.map .text))
    (h : (addFeature (.text g.description) (.text g.category) (.text g.priority) steps).run
      outside m = (.ok v, m')) :
    ∃ (e data : Entries) (others : List Entries), v = .object e ∧
      e.get? "id" = some (.text (Entry.idOf (entries.length + 1))) ∧
      load.run outside m' = (.ok ⟨data, others.map .object⟩, m') ∧
      others = (entries ++ [e]).map Json.inOrder ∧
      (Entry.DistinctIds others ↔
        ∀ f ∈ entries, f.get? "id" ≠ some (.text (Entry.idOf (entries.length + 1)))) ∧
      ((∀ f ∈ entries, f.get? "id" ≠ some (.text (Entry.idOf (entries.length + 1)))) →
        Leads outside m' (Entry.idOf (entries.length + 1)) others entries.length
          (Json.inOrder e)) ∧
      ∀ k f, entries[k]? = some f →
        f.get? "id" = some (.text (Entry.idOf (entries.length + 1))) →
        Leads outside m' (Entry.idOf (entries.length + 1)) others k (Json.inOrder f) := by
  obtain ⟨rfl, tally, hwritten⟩ := addFeature_rewritten hload hentries hsteps h
  generalize hid : Entry.idOf (entries.length + 1) = id at *
  have hnewId : (Entry.newEntry id g).get? "id" = some (.text id) := (Entry.says_newEntry id g).id
  generalize Entry.newEntry id g = e at *
  obtain ⟨data, hreloaded, -, -⟩ := hwritten.reloaded
  have hkept := hwritten.kept
  have htaken : ∀ k f, entries[k]? = some f → f.get? "id" = some (.text id) →
      FirstWith id ((entries ++ [e]).map Json.inOrder) k (Json.inOrder f) := fun k f hk hf =>
    ((firstWith_of_distinct hids hk hf).concat e).inOrder hkept
  refine ⟨e, data, _, rfl, hnewId, hreloaded, rfl, ⟨fun hdistinct f hf hsame => ?_, fun hnew => ?_⟩,
    fun hnew => ?_, fun k f hk hf => ?_⟩
  · -- The older feature and the new one would be at one place.
    obtain ⟨k, hk⟩ := List.mem_iff_getElem?.mp hf
    have hlast : ((entries ++ [e]).map Json.inOrder)[entries.length]? = some (Json.inOrder e) := by
      rw [List.getElem?_map, List.getElem?_concat_length, Option.map_some]
    have hlastId : (Json.inOrder e).get? "id" = some (.text id) :=
      (Entry.get?_id_inOrder (hkept e (by simp))).mpr hnewId
    have hplace := Entry.place_eq hdistinct.distinct (htaken k f hk hsame).there hlast
      ((Entry.idText_eq (htaken k f hk hsame).found).trans (Entry.idText_eq hlastId).symm)
    have hlt := (List.getElem?_eq_some_iff.mp hk).1
    omega
  · exact (hids.concat hnewId hnew).inOrder hkept
  · exact leads_of_first hreloaded ((firstWith_last hnewId hnew).inOrder hkept)
  · exact leads_of_first hreloaded (htaken k f hk hf)

end Project

/-! ## A shop with a feature that was removed -/

namespace Shop

theorem added_leads_errands : ∃ v m' others e,
    (Project.addFeature (.text "Sign out") (.text "functional") (.text "medium") .null).run idle
      (withFile errandsText) = (.ok v, m') ∧
    Entry.DistinctIds errands ∧ Entry.DistinctIds others ∧
    Project.Leads idle m' "feat-004" others 3 e := by
  have hload : Project.load.run idle (withFile errandsText) =
      (.ok ⟨[("features", .list (errands.map .object))], errands.map .object⟩,
        withFile errandsText) := load_withFile means_errands rfl
  have hids : Entry.DistinctIds errands :=
    ⟨fun e he => (workable_errands.ordinary e he).id, workable_errands.distinct⟩
  have hadded : ((Project.addFeature (.text "Sign out") (.text "functional") (.text "medium")
      .null).run idle (withFile errandsText)).1.toOption.isSome = true := by decide +kernel
  obtain ⟨v, hanswer⟩ := Option.isSome_iff_exists.mp hadded
  obtain ⟨m', hrun⟩ := Task.run_eq_ok_of_toOption hanswer
  have hsteps : Entry.stepsOf .null = .ok (List.map .text []) := rfl
  obtain ⟨e, data, others, -, -, -, -, hdistinct, hleads, -⟩ := Project.added_leads hload rfl hids
    (g := ⟨"Sign out", "functional", "medium", []⟩) hsteps hrun
  have hnew : ∀ f ∈ errands, f.get? "id" ≠ some (.text (Entry.idOf (errands.length + 1))) := by
    intro f hf hsame
    have hshort : (Entry.idText f).length = 1 := by
      simp only [errands, List.mem_cons, List.not_mem_nil, or_false] at hf
      rcases hf with rfl | rfl | rfl <;> rfl
    rw [Entry.idText_eq hsame] at hshort
    exact absurd hshort (by decide)
  exact ⟨v, m', others, _, hrun, hids, hdistinct.mpr hnew, hleads hnew⟩

/-- The first of two features was taken out of the file by hand. -/
def leftText : Text := "\x7b\"features\": [\x7b\"id\": \"feat-002\"\x7d]\x7d"

def left : List Entries := [[("id", .text "feat-002")]]

/-- The new feature has the id of the one that was left, and its id leads to that one. -/
theorem not_distinct_left : ∃ (v : Value) (m' : Machine) (e data : Entries) (others : List Entries),
    Project.load.run idle (withFile leftText) =
      (.ok ⟨[("features", .list (left.map .object))], left.map .object⟩, withFile leftText) ∧
    Entry.DistinctIds left ∧
    (Project.addFeature (.text "Sign out") (.text "functional") (.text "medium") .null).run idle
      (withFile leftText) = (.ok v, m') ∧
    v = .object e ∧ e.get? "id" = some (.text "feat-002") ∧
    Project.load.run idle m' = (.ok ⟨data, others.map .object⟩, m') ∧ others.length = 2 ∧
    ¬ Entry.DistinctIds others ∧
    Project.locate (.text "feat-002") (others.map .object) =
      .ok (0, [("id", .text "feat-002")]) := by
  have hload : Project.load.run idle (withFile leftText) =
      (.ok ⟨[("features", .list (left.map .object))], left.map .object⟩, withFile leftText) :=
    load_withFile ⟨leftText, by cbv, by cbv⟩ rfl
  have hids : Entry.DistinctIds left := by
    refine ⟨fun e he => ?_, by decide⟩
    rw [List.mem_singleton.mp he]
    exact ⟨_, rfl⟩
  have hadded : ((Project.addFeature (.text "Sign out") (.text "functional") (.text "medium")
      .null).run idle (withFile leftText)).1.toOption.isSome = true := by decide +kernel
  obtain ⟨v, hanswer⟩ := Option.isSome_iff_exists.mp hadded
  obtain ⟨m', hrun⟩ := Task.run_eq_ok_of_toOption hanswer
  have hsteps : Entry.stepsOf .null = .ok (List.map .text []) := rfl
  obtain ⟨rfl, tally, hwritten⟩ := Project.addFeature_rewritten hload rfl
    (g := ⟨"Sign out", "functional", "medium", []⟩) hsteps hrun
  obtain ⟨data, hreloaded, -, -⟩ := hwritten.reloaded
  refine ⟨_, m', _, data, _, hload, hids, hrun, rfl, rfl, hreloaded, rfl, fun hdistinct => ?_, rfl⟩
  exact absurd hdistinct.distinct (by decide +kernel)

end Shop

end Acceptance
