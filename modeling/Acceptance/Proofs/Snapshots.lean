import Mathlib.Data.List.Permutation
import Acceptance.Browser.Evidence
import Acceptance.Proofs.JsonDocument
import Acceptance.Proofs.Pieces
import Acceptance.Value.Display

/-! # Snapshots

What a snapshot shows is what one of its texts or numbers shows: its keys count for nothing, and no
two values together show what neither of them does. A snapshot that cannot be read shows nothing,
unless it is nested too deep. -/

namespace Acceptance

namespace Evidence

variable {part : Text} {v : Value}

/-! ## Parts -/

/-- The text is one of the texts in a value, or one of its numbers as a text. -/
inductive Shown : Value → Text → Prop where
  | text {t : Text} : Shown (.text t) t
  | int {n : Int} : Shown (.int n) (Value.shown (.int n))
  | real {x : Binary64} : Shown (.real x) (Value.shown (.real x))
  | item {v : Value} {items : List Value} {part : Text} : v ∈ items → Shown v part →
    Shown (.list items) part
  | entry {e : Key × Value} {entries : Entries} {part : Text} : e ∈ entries → Shown e.2 part →
    Shown (.object entries) part

mutual

theorem shown_of_mem : ∀ (v : Value) {part : Text}, part ∈ scalars v → Shown v part
  | .null, _, h | .bool _, _, h | .moment _, _, h => absurd h List.not_mem_nil
  | .text _, _, h => List.mem_singleton.mp h ▸ .text
  | .int _, _, h => List.mem_singleton.mp h ▸ .int
  | .real _, _, h => List.mem_singleton.mp h ▸ .real
  | .list items, _, h =>
    let ⟨_, hv, hshown⟩ := shown_of_mem_items items h
    .item hv hshown
  | .object entries, _, h =>
    let ⟨_, he, hshown⟩ := shown_of_mem_entries entries h
    .entry he hshown

theorem shown_of_mem_items : ∀ (items : List Value) {part : Text}, part ∈ itemScalars items →
    ∃ v ∈ items, Shown v part
  | [], _, h => absurd h List.not_mem_nil
  | v :: rest, _, h => by
    rcases List.mem_append.mp h with h | h
    · exact ⟨v, by simp, shown_of_mem v h⟩
    · obtain ⟨w, hw, hshown⟩ := shown_of_mem_items rest h
      exact ⟨w, List.mem_cons_of_mem _ hw, hshown⟩

theorem shown_of_mem_entries : ∀ (entries : Entries) {part : Text}, part ∈ entryScalars entries →
    ∃ e ∈ entries, Shown e.2 part
  | [], _, h => absurd h List.not_mem_nil
  | (k, v) :: rest, _, h => by
    rcases List.mem_append.mp h with h | h
    · exact ⟨(k, v), by simp, shown_of_mem v h⟩
    · obtain ⟨e, he, hshown⟩ := shown_of_mem_entries rest h
      exact ⟨e, List.mem_cons_of_mem _ he, hshown⟩

end

theorem itemScalars_eq_flatMap (items : List Value) : itemScalars items = items.flatMap scalars := by
  induction items with
  | nil => rfl
  | cons v rest ih => rw [itemScalars, ih, List.flatMap_cons]

theorem entryScalars_eq_flatMap (entries : Entries) :
    entryScalars entries = entries.flatMap fun e => scalars e.2 := by
  induction entries with
  | nil => rfl
  | cons e rest ih => rw [entryScalars, ih, List.flatMap_cons]

theorem mem_scalars_iff : part ∈ scalars v ↔ Shown v part := by
  refine ⟨shown_of_mem v, fun h => ?_⟩
  induction h with
  | text => exact List.mem_singleton_self _
  | int => exact List.mem_singleton_self _
  | real => exact List.mem_singleton_self _
  | item hv _ ih =>
    rw [scalars, itemScalars_eq_flatMap]
    exact List.mem_flatMap.mpr ⟨_, hv, ih⟩
  | entry he _ ih =>
    rw [scalars, entryScalars_eq_flatMap]
    exact List.mem_flatMap.mpr ⟨_, he, ih⟩

/-! ## Keys -/

mutual

/-- The same value but for the keys of its objects, whose entries are in the same order. -/
inductive SameButKeys : Value → Value → Prop where
  | same (v : Value) : SameButKeys v v
  | list {items others : List Value} : SameItemsButKeys items others →
    SameButKeys (.list items) (.list others)
  | object {entries others : Entries} : SameEntriesButKeys entries others →
    SameButKeys (.object entries) (.object others)

inductive SameItemsButKeys : List Value → List Value → Prop where
  | nil : SameItemsButKeys [] []
  | cons {v w : Value} {rest others : List Value} : SameButKeys v w →
    SameItemsButKeys rest others → SameItemsButKeys (v :: rest) (w :: others)

inductive SameEntriesButKeys : Entries → Entries → Prop where
  | nil : SameEntriesButKeys [] []
  | cons {k l : Key} {v w : Value} {rest others : Entries} : SameButKeys v w →
    SameEntriesButKeys rest others → SameEntriesButKeys ((k, v) :: rest) ((l, w) :: others)

end

mutual

theorem SameButKeys.scalars_eq : ∀ {v w : Value}, SameButKeys v w → scalars v = scalars w
  | _, _, .same _ => rfl
  | _, _, .list h => h.itemScalars_eq
  | _, _, .object h => h.entryScalars_eq

theorem SameItemsButKeys.itemScalars_eq : ∀ {items others : List Value},
    SameItemsButKeys items others → itemScalars items = itemScalars others
  | _, _, .nil => rfl
  | _, _, .cons hvalue hrest => by
    rw [itemScalars, itemScalars, hvalue.scalars_eq, hrest.itemScalars_eq]

theorem SameEntriesButKeys.entryScalars_eq : ∀ {entries others : Entries},
    SameEntriesButKeys entries others → entryScalars entries = entryScalars others
  | _, _, .nil => rfl
  | _, _, .cons hvalue hrest => by
    rw [entryScalars, entryScalars, hvalue.scalars_eq, hrest.entryScalars_eq]

end

/-! ## The text of a snapshot -/

theorem snapshotText_of_read {snapshot : Text} (h : Json.read snapshot = .ok v) :
    snapshotText snapshot = .ok (Text.joinWith "\n" (scalars v)) := by
  unfold snapshotText
  rw [h]

/-- What is within a line is shown exactly if one text or one number of the snapshot shows it,
whatever the keys are. Of the snapshots that cannot be read, those that are nested too deep are a
fault, and the others show nothing. -/
theorem snapshotText_shows (snapshot : Text) :
    (∀ v, Json.read snapshot = .ok v → ∃ shown, snapshotText snapshot = .ok shown ∧
      (∀ t : Text, t ≠ [] → CodePoint.ofChar '\n' ∉ t →
        (t <:+: shown ↔ ∃ part, Shown v part ∧ t <:+: part)) ∧
      ∀ other w, Json.read other = .ok w → SameButKeys v w → snapshotText other = .ok shown) ∧
    ∀ error, Json.read snapshot = .error error →
      (∃ container, error = .nestedTooDeep container ∧
        snapshotText snapshot = .error (.nestedTooDeep (.document container))) ∨
      (∀ container, error ≠ .nestedTooDeep container) ∧ snapshotText snapshot = .ok [] := by
  constructor
  · intro v hread
    refine ⟨_, snapshotText_of_read hread, fun t hne hline => ?_, fun other w hother hsame => ?_⟩
    -- The parts are lines of the text, and a target within a line is within one of them.
    · have hlines : t <:+: Text.joinWith "\n" (scalars v) ↔ ∃ part ∈ scalars v, t <:+: part :=
        Text.infix_joinWith_iff hne hline
      simpa only [mem_scalars_iff] using hlines
    · rw [snapshotText_of_read hother, hsame.scalars_eq]
  · intro error hread
    unfold snapshotText
    rw [hread]
    cases error with
    | nestedTooDeep container => exact .inl ⟨container, rfl, rfl⟩
    | malformed problem line column position => exact .inr ⟨by simp, rfl⟩
    | longInteger digits => exact .inr ⟨by simp, rfl⟩

/-- The number 123 is no part of a page that shows 12 and 3, and neither are its keys. -/
theorem snapshotText_shows_heading : ∃ shown,
    snapshotText "\x7b\"title\": \"Sign in\", \"rows\": [12, true, 3]\x7d" = .ok shown ∧
      Text.of "Sign" <:+: shown ∧ ¬ Text.of "title" <:+: shown ∧ ¬ Text.of "123" <:+: shown ∧
      snapshotText "\x7b\"rows\": \"Sign in\", \"a\": [12, true, 3]\x7d" = .ok shown ∧
      snapshotText "[" = .ok [] := by
  let page (heading rows : Text) : Value :=
    .object [(heading, "Sign in"), (rows, .list [.int 12, .bool true, .int 3])]
  have hread : Json.read "\x7b\"title\": \"Sign in\", \"rows\": [12, true, 3]\x7d" =
      .ok (page "title" "rows") := by cbv
  have hrenamed : Json.read "\x7b\"rows\": \"Sign in\", \"a\": [12, true, 3]\x7d" =
      .ok (page "rows" "a") := by cbv
  have hsame : SameButKeys (page "title" "rows") (page "rows" "a") :=
    .object (.cons (.same _) (.cons (.same _) .nil))
  obtain ⟨shown, hshown, hparts, hkeys⟩ := (snapshotText_shows _).1 _ hread
  have hnowhere : ∀ t : Text, (∀ part ∈ scalars (page "title" "rows"), ¬ t <:+: part) →
      ¬ ∃ part, Shown (page "title" "rows") part ∧ t <:+: part := by
    rintro t h ⟨part, hpart, hin⟩
    exact h part (mem_scalars_iff.mpr hpart) hin
  refine ⟨shown, hshown, ?_, ?_, ?_, hkeys _ _ hrenamed hsame, ?_⟩
  · exact (hparts "Sign" (by decide) (by decide)).mpr
      ⟨"Sign in", .entry (List.mem_cons_self ..) .text, by decide⟩
  · exact fun h => hnowhere _ (by decide) ((hparts "title" (by decide) (by decide)).mp h)
  · exact fun h => hnowhere _ (by decide) ((hparts "123" (by decide) (by decide)).mp h)
  · have hopen : Json.read "[" = .error (.malformed .expectingValue 1 2 1) := by rfl
    rcases (snapshotText_shows "[").2 _ hopen with ⟨container, hdeep, -⟩ | ⟨-, hnothing⟩
    · exact absurd hdeep (by simp)
    · exact hnothing

/-- Lists that are nested too deep cannot be read, and are a fault. -/
theorem not_snapshotText_nil :
    ¬ ∀ snapshot error, Json.read snapshot = .error error → snapshotText snapshot = .ok [] := by
  intro h
  have hbrackets : List.replicate 3000 (CodePoint.ofChar '[') =
      List.replicate (Json.mostNested + 1) (CodePoint.ofChar '[') ++
        List.replicate 2014 (CodePoint.ofChar '[') := by
    rw [List.replicate_append_replicate]
    rfl
  have hread : Json.read (List.replicate 3000 (CodePoint.ofChar '[') ++
      List.replicate 3000 (CodePoint.ofChar ']')) = .error (.nestedTooDeep .list) := by
    rw [hbrackets, List.append_assoc]
    exact Json.read_brackets _
  have hnothing := h _ _ hread
  unfold snapshotText at hnothing
  rw [hread] at hnothing
  exact absurd hnothing (by simp [Fault.ofUnreadable])

end Evidence

end Acceptance
