import Acceptance.Proofs.Rereading

/-! # Written projects

A project file holds the document of some data. The keys of the tally in it may be other keys once
they are read again, and everything else is read as it was, with its entries in order. -/

namespace Acceptance

open Json (Kept Legible Means inOrder ordered)

variable {content : List UInt8} {data loaded : Entries} {entries : List Entries} {tally : Tally}

namespace Project

/-- The content of a file is the document of the data, with these entries and their tally. -/
structure Written (content : List UInt8) (data : Entries) (entries : List Entries)
    (tally : Tally) : Prop where
  keys : Json.TextKeys data
  features : data.get? "features" = some (.list (entries.map .object))
  counted : Tally.ofEntries entries = .ok tally
  metadata : ∃ w, data.get? "metadata" = some w ∧ Legible 984 w ∧ ordered w = ordered tally.toValue
  kept : ∀ (key : Text) v, key ≠ "metadata" → data.get? key = some v → Kept 984 v
  document : ∃ document, Json.write (.object data) = .ok document ∧ Text.Encodes document ∧
    content = document.flatMap Utf8.bytesOf

namespace Written

/-- What holds of the tally and of everything that a file keeps holds of all values. -/
theorem forall_value (h : Written content data entries tally) {P : Value → Prop}
    (hmetadata : ∀ w, Legible 984 w → ordered w = ordered tally.toValue → P w)
    (hkept : ∀ v, Kept 984 v → P v) : ∀ e ∈ data, P e.2 := by
  intro e he
  obtain ⟨k, v⟩ := e
  obtain ⟨key, rfl⟩ : ∃ key, k = .text key := Key.exists_text (h.keys.texts _ he)
  have hget := (Json.get?_eq_some_iff h.keys.distinct).mpr he
  by_cases hkey : key = "metadata"
  · obtain ⟨w, hw, hlegible, hsame⟩ := h.metadata
    rw [hkey, hw] at hget
    rw [← Option.some.inj hget]
    exact hmetadata w hlegible hsame
  · exact hkept v (h.kept key v hkey hget)

theorem legible (h : Written content data entries tally) :
    Legible Json.mostNested (.object data) :=
  Json.legible_object.mpr (h.forall_value (fun _ hw _ => hw) fun v hv => Json.legible_of_kept v hv)

theorem means (h : Written content data entries tally) :
    Means content (Json.reread (ordered (.object data))) := by
  obtain ⟨document, hwrite, hencodes, rfl⟩ := h.document
  exact Json.means_written h.legible hwrite hencodes

theorem kept_entries (h : Written content data entries tally) :
    ∀ e ∈ entries, Kept 983 (.object e) := by
  have hlist := h.kept "features" _ (by decide) h.features
  exact fun e he => Json.kept_list.mp hlist _ (List.mem_map_of_mem he)

/-! ## What is loaded -/

theorem exists_loaded (h : Written content data entries tally) :
    ∃ loaded, Means content (.object loaded) := by
  obtain ⟨loaded, hloaded, -⟩ := Json.exists_reread_object h.keys
  exact ⟨loaded, hloaded ▸ h.means⟩

theorem get?_loaded (h : Written content data entries tally)
    (hmeans : Means content (.object loaded)) (key : Text) :
    loaded.get? key = ((data.get? key).map ordered).map Json.reread := by
  obtain ⟨loaded', hloaded, hget⟩ := Json.exists_reread_object h.keys
  obtain rfl := Value.object.inj (hmeans.inj (hloaded ▸ h.means))
  exact hget key

theorem get?_loaded_of_ne (h : Written content data entries tally)
    (hmeans : Means content (.object loaded)) {key : Text} (hkey : key ≠ "metadata") :
    loaded.get? key = (data.get? key).map ordered := by
  rw [h.get?_loaded hmeans]
  cases hget : data.get? key with
  | none => rfl
  | some v =>
    rw [Option.map_some, Option.map_some,
      Json.reread_of_kept _ (Json.kept_ordered _ (h.kept key v hkey hget))]

/-- The entries that are loaded are those that were written, in order. -/
theorem loaded_features (h : Written content data entries tally)
    (hmeans : Means content (.object loaded)) :
    loaded.get? "features" = some (.list ((entries.map inOrder).map .object)) := by
  rw [h.get?_loaded_of_ne hmeans (by decide), h.features, Option.map_some, ordered,
    Json.orderedItems_eq_map, List.map_map, List.map_map]
  rfl

theorem loaded_metadata (h : Written content data entries tally)
    (hmeans : Means content (.object loaded)) :
    loaded.get? "metadata" = some (Json.reread (ordered tally.toValue)) := by
  obtain ⟨w, hw, -, hsame⟩ := h.metadata
  rw [h.get?_loaded hmeans, hw, Option.map_some, Option.map_some, hsame]

end Written

end Project

end Acceptance
