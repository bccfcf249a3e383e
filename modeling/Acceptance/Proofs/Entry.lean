import Acceptance.Feature.Basic
import Acceptance.Proofs.Tally

/-! # Entries

What a feature's entry says, from when it is made: the id and the texts that were given, and how
often the feature was accepted. -/

namespace Acceptance

/-! ## Texts that files keep -/

namespace Text

theorem encodes_of_areDigits {t : Text} (h : Json.AreDigits t) : Encodes t :=
  (Json.plain_of_areDigits h).encodes

theorem encodes_padded (width n : Nat) : Encodes (padded width n) :=
  encodes_of_areDigits (Json.padded_spec width n).1

end Text

theorem Instant.encodes_toText (i : Instant) : Text.Encodes i.toText := by
  have hdash : Text.Encodes "-" := Text.encodes_of_all rfl
  have hcolon : Text.Encodes ":" := Text.encodes_of_all rfl
  have hfraction : ∀ n : Nat, Text.Encodes (if n = 0 then [] else "." ++ Text.padded 6 n) := by
    intro n
    split
    · exact Text.encodes_of_all rfl
    · exact Text.encodes_append.mpr ⟨Text.encodes_of_all rfl, Text.encodes_padded 6 n⟩
  unfold Instant.toText Date.toText ClockTime.toText
  simp only [Text.encodes_append]
  exact ⟨⟨⟨⟨⟨⟨⟨Text.encodes_padded 4 _, hdash⟩, Text.encodes_padded 2 _⟩, hdash⟩,
    Text.encodes_padded 2 _⟩, Text.encodes_of_all rfl⟩,
    ⟨⟨⟨⟨Text.encodes_padded 2 _, hcolon⟩, Text.encodes_padded 2 _⟩, hcolon⟩,
      Text.encodes_padded 2 _⟩, hfraction _⟩, Text.encodes_of_all rfl⟩

/-! ## What is equal to a text -/

theorem Key.equals_text {k : Key} {t : Text} : k.equals (.text t) = true ↔ k = .text t := by
  have hnumber : ((k.position?.isSome && k.position? == none) &&
      k.position? != some .nowhere) = false := by
    cases k.position? <;> rfl
  cases k with
  | text s =>
    show (s == t && (none : Option Position) != some .nowhere) = true ↔ _
    simp
  | int _ | real _ | bool _ =>
    exact iff_of_false (ne_true_of_eq_false hnumber) (by simp)

/-- No other value is equal to a text. -/
theorem Value.equals_text {v : Value} {t : Text} : v.equals (.text t) = true ↔ v = .text t := by
  cases v with
  | text _ | int _ | real _ | bool _ =>
    rw [equals] <;> simp [key?, Key.equals_text]
  | null | moment _ | list _ | object _ => simp [equals, key?]

namespace Entry

/-! ## Ids -/

theorem idOf_succ (k : Nat) : idOf ((k : Int) + 1) = "feat-" ++ Text.padded 3 (k + 1) := by
  unfold idOf
  rw [if_neg (by omega)]
  rfl

theorem encodes_idOf (k : Nat) : Text.Encodes (idOf ((k : Int) + 1)) := by
  rw [idOf_succ]
  exact Text.encodes_append.mpr ⟨Text.encodes_of_all rfl, Text.encodes_padded 3 _⟩

/-- Features with different numbers have different ids. -/
theorem idOf_inj {j k : Nat} (h : idOf ((j : Int) + 1) = idOf ((k : Int) + 1)) : j = k := by
  rw [idOf_succ, idOf_succ] at h
  have hdigits := List.append_cancel_left h
  have hvalue := congrArg Json.decimalValue hdigits
  rw [(Json.padded_spec 3 _).2.2, (Json.padded_spec 3 _).2.2] at hvalue
  omega

/-! ## What an entry says -/

/-- What a new feature is given. -/
structure Given where
  description : Text
  category : Text
  priority : Text
  steps : List Text
  deriving DecidableEq

/-- The texts of a new feature that are not checked. -/
def Given.texts (g : Given) : List Text := g.description :: g.category :: g.steps

/-- The entry has the id, what was given, and as many acceptances. -/
structure Says (id : Text) (g : Given) (marks : Nat) (e : Entries) : Prop where
  id : e.get? "id" = some (.text id)
  description : e.get? "description" = some (.text g.description)
  category : e.get? "category" = some (.text g.category)
  priority : e.get? "priority" = some (.text g.priority)
  steps : e.get? "steps" = some (Value.texts g.steps)
  passes : e.get? "passes" = some (.bool (0 < marks))
  attempts : e.get? "attempts" = some (.int marks)

variable {id : Text} {g : Given} {marks : Nat} {e : Entries}

theorem getD_of_get? {key : Text} {v : Value} (h : e.get? key = some v) : e.getD key = v := by
  unfold Entries.getD
  rw [h]
  rfl

theorem Says.passes_eq (h : Says id g marks e) : Entry.passes e = decide (0 < marks) := by
  unfold Entry.passes
  rw [getD_of_get? h.passes]
  rfl

theorem Says.attempts_eq (h : Says id g marks e) : Entry.attempts e = .ok marks := by
  unfold Entry.attempts
  rw [getD_of_get? h.attempts]

theorem hasId_text {wanted : Text} :
    hasId e (.text wanted) = true ↔ e.get? "id" = some (.text wanted) := by
  unfold hasId Entry.id Entries.getD
  rw [Value.equals_text]
  cases e.get? "id" <;> simp

theorem Says.hasId_iff (h : Says id g marks e) {wanted : Text} :
    Entry.hasId e (.text wanted) = true ↔ id = wanted := by
  rw [hasId_text, h.id, Option.some.injEq, Value.text.injEq]

/-! ## Texts in place of empty ones -/

theorem orElse_text (t standard : Text) :
    Value.orElse (.text t) (.text standard) = .text (if t.isEmpty then standard else t) := by
  unfold Value.orElse Value.isTruthy
  cases t <;> rfl

theorem Says.priority_eq (h : Says id g marks e) :
    Entry.priority e = .text (if g.priority.isEmpty then standardPriority else g.priority) := by
  unfold Entry.priority
  rw [getD_of_get? h.priority, orElse_text]

theorem Says.category_eq (h : Says id g marks e) :
    Entry.category e = .text (if g.category.isEmpty then standardCategory else g.category) := by
  unfold Entry.category
  rw [getD_of_get? h.category, orElse_text]

theorem Says.alike {f : Entries} (h : Says id g marks e) (k : Says id g marks f) : Alike e f :=
  ⟨by rw [h.priority_eq, k.priority_eq], by rw [h.category_eq, k.category_eq],
    by rw [h.passes_eq, k.passes_eq]⟩

theorem encodes_orStandard {t standard : Text} (ht : Text.Encodes t)
    (hstandard : Text.Encodes standard) :
    Text.Encodes (if t.isEmpty then standard else t) := by
  split
  · exact hstandard
  · exact ht

theorem Says.counted (h : Says id g marks e) (hkept : Json.Kept 2 (.object e)) : Counted e :=
  ⟨⟨_, encodes_orStandard (Json.kept_get? hkept h.priority) (Text.encodes_of_all rfl),
      h.priority_eq⟩,
    ⟨_, encodes_orStandard (Json.kept_get? hkept h.category) (Text.encodes_of_all rfl),
      h.category_eq⟩⟩

theorem Says.encodes (h : Says id g marks e) (hkept : Json.Kept 2 (.object e)) :
    Text.Encodes id ∧ Text.Encodes g.description ∧ ∀ t ∈ g.steps, Text.Encodes t := by
  refine ⟨Json.kept_get? hkept h.id, Json.kept_get? hkept h.description, fun t ht => ?_⟩
  have hsteps := Json.kept_get? hkept h.steps
  exact Json.kept_list.mp hsteps (.text t) (List.mem_map_of_mem ht)

/-- An entry says the same with its fields in order. -/
theorem Says.inOrder (h : Says id g marks e) (hkeys : Json.TextKeys e) :
    Says id g marks (Json.inOrder e) := by
  have hsteps : Json.ordered (Value.texts g.steps) = Value.texts g.steps := by
    unfold Value.texts
    rw [Json.ordered, Json.orderedItems_eq_map, List.map_map]
    rfl
  constructor
  · rw [Json.get?_inOrder hkeys, h.id]; rfl
  · rw [Json.get?_inOrder hkeys, h.description]; rfl
  · rw [Json.get?_inOrder hkeys, h.category]; rfl
  · rw [Json.get?_inOrder hkeys, h.priority]; rfl
  · rw [Json.get?_inOrder hkeys, h.steps, Option.map_some, hsteps]
  · rw [Json.get?_inOrder hkeys, h.passes]; rfl
  · rw [Json.get?_inOrder hkeys, h.attempts]; rfl

/-! ## New entries -/

/-- The fields of a new entry. -/
def newFields (id : Text) (g : Given) : List (Text × Value) :=
  [("id", .text id), ("category", .text g.category), ("priority", .text g.priority),
    ("description", .text g.description), ("steps", .list (g.steps.map .text)),
    ("acceptance_criteria", .list []), ("dependencies", .list []), ("status", "pending"),
    ("passes", .bool false), ("attempts", .int 0), ("notes", "")]

/-- A new entry. -/
def newEntry (id : Text) (g : Given) : Entries := (newFields id g).map fun f => (.text f.1, f.2)

theorem checkPriority_text (t : Text) :
    checkPriority (.text t) =
      if t ∈ priorities then .ok () else .error (.invalid (.priority t)) := by
  have hany : (priorities.any fun priority => Value.equals (.text t) (.text priority)) =
      decide (t ∈ priorities) := by
    rw [Bool.eq_iff_iff, List.any_eq_true, decide_eq_true_eq]
    constructor
    · rintro ⟨priority, hmem, hequals⟩
      have ht : t = priority := by
        simpa [Value.equals, Value.key?, Key.equals, Key.same, Key.position?] using hequals
      rwa [ht]
    · intro hmem
      exact ⟨t, hmem, by simp [Value.equals, Value.key?, Key.equals, Key.same, Key.position?]⟩
  unfold checkPriority
  simp only [hany, decide_eq_true_eq]
  rfl

/-- A feature with a known priority is made, and any other is refused. -/
theorem create_eq (id : Text) (g : Given) :
    create (.text id) (.text g.description) (.text g.category) (.text g.priority)
        (Value.texts g.steps) =
      if g.priority ∈ priorities then .ok (.object (newEntry id g))
      else .error (.invalid (.priority g.priority)) := by
  unfold create
  rw [checkPriority_text]
  split <;> rfl

theorem says_newEntry (id : Text) (g : Given) : Says id g 0 (newEntry id g) where
  id := rfl
  description := rfl
  category := rfl
  priority := rfl
  steps := rfl
  passes := rfl
  attempts := rfl

theorem kept_newEntry {id : Text} {g : Given} (hid : Text.Encodes id)
    (hpriority : g.priority ∈ priorities) (htexts : ∀ t ∈ g.texts, Text.Encodes t) :
    Json.Kept 2 (.object (newEntry id g)) := by
  obtain ⟨hdescription, hcategory, hsteps⟩ : Text.Encodes g.description ∧
      Text.Encodes g.category ∧ ∀ t ∈ g.steps, Text.Encodes t := by
    unfold Given.texts at htexts
    rw [List.forall_mem_cons, List.forall_mem_cons] at htexts
    exact htexts
  have hpriorities : ∀ t ∈ priorities, Text.Encodes t := by
    intro t ht
    unfold priorities at ht
    simp only [List.mem_cons, List.not_mem_nil, or_false] at ht
    rcases ht with rfl | rfl | rfl | rfl <;> exact Text.encodes_of_all rfl
  show Json.Kept 2 (Value.record (newFields id g))
  refine Json.kept_record rfl fun f hf => ?_
  unfold newFields at hf
  simp only [List.mem_cons, List.not_mem_nil, or_false] at hf
  rcases hf with rfl | rfl | rfl | rfl | rfl | rfl | rfl | rfl | rfl | rfl | rfl
  · exact hid
  · exact hcategory
  · exact hpriorities _ hpriority
  · exact hdescription
  · exact Json.kept_texts hsteps
  · exact Json.kept_list.mpr (by simp)
  · exact Json.kept_list.mpr (by simp)
  · exact Text.encodes_of_all rfl
  · trivial
  · trivial
  · exact Text.encodes_of_all rfl

theorem mentions_newEntry (id : Text) {g : Given} {t : Text} (ht : t ∈ g.texts) :
    Json.Mentions t (.object (newEntry id g)) := by
  have htexts : ∀ f ∈ newEntry id g, f.1.isText = true := by
    intro f hf
    obtain ⟨field, -, rfl⟩ := List.mem_map.mp hf
    rfl
  unfold Given.texts at ht
  rcases List.mem_cons.mp ht with rfl | ht
  · exact .under (e := ("description", .text g.description)) htexts (by simp [newEntry, newFields])
      .text
  rcases List.mem_cons.mp ht with rfl | ht
  · exact .under (e := ("category", .text g.category)) htexts (by simp [newEntry, newFields]) .text
  · refine .under (e := ("steps", .list (g.steps.map .text))) htexts
      (by simp [newEntry, newFields]) ?_
    exact .item (List.mem_map_of_mem ht) .text

/-! ## Acceptance -/

/-- The entry after one more acceptance. -/
def accepted (e : Entries) (marks : Nat) (notes : Value) (now : Instant) : Entries :=
  ((((e.set "passes" (.bool true)).set "status" "completed").set "completed_at" now.toText).set
    "attempts" (.int (marks + 1))).set "notes" (notesAfter e notes)

theorem complete_eq (h : Says id g marks e) (notes : Value) (now : Instant) :
    complete e notes now = .ok (accepted e marks notes now) := by
  unfold complete
  rw [h.attempts_eq]
  rfl

/-- The fields that an acceptance sets. -/
def acceptanceKeys : List Text := ["passes", "status", "completed_at", "attempts", "notes"]

theorem get?_acceptance {key : Text} (h : key ∉ acceptanceKeys) (e : Entries) (now : Instant)
    (attempts : Int) (notes : Value) :
    (((((e.set "passes" (.bool true)).set "status" "completed").set "completed_at" now.toText).set
      "attempts" (.int attempts)).set "notes" notes).get? key = e.get? key := by
  unfold acceptanceKeys at h
  simp only [List.mem_cons, List.not_mem_nil, or_false, not_or] at h
  obtain ⟨hpasses, hstatus, hcompleted, hattempts, hnotes⟩ := h
  rw [Entries.get?_set_of_ne hnotes, Entries.get?_set_of_ne hattempts,
    Entries.get?_set_of_ne hcompleted, Entries.get?_set_of_ne hstatus,
    Entries.get?_set_of_ne hpasses]

theorem get?_accepted {key : Text} (h : key ∉ acceptanceKeys) (e : Entries) (marks : Nat)
    (notes : Value) (now : Instant) : (accepted e marks notes now).get? key = e.get? key :=
  get?_acceptance h e now _ _

theorem Says.accepted (h : Says id g marks e) (notes : Value) (now : Instant) :
    Says id g (marks + 1) (accepted e marks notes now) := by
  constructor
  · rw [get?_accepted (by decide), h.id]
  · rw [get?_accepted (by decide), h.description]
  · rw [get?_accepted (by decide), h.category]
  · rw [get?_accepted (by decide), h.priority]
  · rw [get?_accepted (by decide), h.steps]
  · unfold Entry.accepted
    rw [Entries.get?_set_of_ne (by decide), Entries.get?_set_of_ne (by decide),
      Entries.get?_set_of_ne (by decide), Entries.get?_set_of_ne (by decide),
      Entries.get?_set_self]
    simp
  · unfold Entry.accepted
    rw [Entries.get?_set_of_ne (by decide), Entries.get?_set_self]
    rfl

theorem encodes_acceptanceKey {key : Text} (h : key ∈ acceptanceKeys) : Text.Encodes key := by
  have hall : acceptanceKeys.all (fun key => key.all (!·.isSurrogate)) = true := rfl
  exact Text.encodes_of_all (List.all_eq_true.mp hall key h)

theorem complete_eq_ok {u : Entries} {notes : Value} {now : Instant}
    (h : complete e notes now = .ok u) : ∃ n, attempts e = .ok n ∧
      u = ((((e.set "passes" (.bool true)).set "status" "completed").set "completed_at"
        now.toText).set "attempts" (.int (n + 1))).set "notes" (notesAfter e notes) := by
  unfold complete at h
  cases hn : attempts e with
  | error fault => exact absurd (hn ▸ h) (by simp [bind, Except.bind])
  | ok n =>
    rw [hn] at h
    exact ⟨n, rfl, (Except.ok.inj h).symm⟩

/-- What holds of an entry holds once it is accepted, if setting one field to a value of some kind
keeps it, and the values of an acceptance are of this kind. -/
theorem complete_preserves {P : Entries → Prop} {Q : Value → Prop} {u : Entries} {notes : Value}
    {now : Instant} (h : complete e notes now = .ok u)
    (hset : ∀ {f : Entries} {key : Text} {v : Value}, Text.Encodes key → P f → Q v →
      P (f.set key v))
    (htruth : Q (.bool true)) (htext : ∀ {t : Text}, Text.Encodes t → Q (.text t))
    (hattempts : ∀ n, attempts e = .ok n → Q (.int (n + 1))) (hnotes : Q notes)
    (hold : ∀ v, e.get? "notes" = some v → Q v) (he : P e) : P u := by
  obtain ⟨n, hn, rfl⟩ := complete_eq_ok h
  have hafter : Q (notesAfter e notes) := by
    unfold notesAfter
    split
    · exact hnotes
    · cases hget : e.get? "notes" with
      | none => exact htext (Text.encodes_of_all rfl)
      | some v => exact hold v hget
  have hpasses : P (e.set "passes" (.bool true)) :=
    hset (encodes_acceptanceKey (by decide)) he htruth
  have hstatus : P ((e.set "passes" (.bool true)).set "status" "completed") :=
    hset (encodes_acceptanceKey (by decide)) hpasses (htext (Text.encodes_of_all rfl))
  have hcompleted : P (((e.set "passes" (.bool true)).set "status" "completed").set "completed_at"
      now.toText) :=
    hset (encodes_acceptanceKey (by decide)) hstatus (htext (Instant.encodes_toText now))
  have hcounted : P ((((e.set "passes" (.bool true)).set "status" "completed").set "completed_at"
      now.toText).set "attempts" (.int (n + 1))) :=
    hset (encodes_acceptanceKey (by decide)) hcompleted (hattempts n hn)
  exact hset (encodes_acceptanceKey (by decide)) hcounted hafter

theorem kept_complete {depth : Nat} {u : Entries} {notes : Value} {now : Instant}
    (he : Json.Kept (depth + 1) (.object e)) (hnotes : Json.Kept depth notes)
    (h : complete e notes now = .ok u) : Json.Kept (depth + 1) (.object u) :=
  complete_preserves (P := fun f => Json.Kept (depth + 1) (.object f)) (Q := Json.Kept depth) h
    (fun hkey hf hv => Json.kept_set hf hkey hv) trivial (fun ht => ht) (fun _ _ => trivial) hnotes
    (fun _ hget => Json.kept_get? he hget) he

theorem notesAfter_of_ne (e : Entries) {t : Text} (h : t ≠ []) :
    notesAfter e (Value.ofText? (some t)) = .text t := by
  unfold notesAfter
  rw [if_pos]
  · rfl
  · cases t with
    | nil => exact absurd rfl h
    | cons c t => rfl

theorem mentions_accepted (hkeys : Json.TextKeys e) (marks : Nat) {t : Text} (ht : t ≠ [])
    (now : Instant) :
    Json.Mentions t (.object (accepted e marks (Value.ofText? (some t)) now)) := by
  have htexts : Json.TextKeys (accepted e marks (Value.ofText? (some t)) now) :=
    ((((hkeys.set (encodes_acceptanceKey (by decide)) _).set (encodes_acceptanceKey (by decide))
      _).set (encodes_acceptanceKey (by decide)) _).set (encodes_acceptanceKey (by decide)) _).set
        (encodes_acceptanceKey (by decide)) _
  have hnotes : (accepted e marks (Value.ofText? (some t)) now).get? "notes" = some (.text t) := by
    unfold accepted
    rw [Entries.get?_set_self, notesAfter_of_ne e ht]
  exact .of_get? htexts.texts hnotes .text

/-! ## Features -/

/-- A run sees what was given. -/
theorem Says.feature (h : Says id g marks e) :
    ∃ f, Feature.ofFields e = .ok f ∧ f.id = id ∧ f.description = g.description ∧
      f.steps = g.steps ∧ f.passes = decide (0 < marks) ∧
      f.priority = (if g.priority.isEmpty then standardPriority else g.priority) ∧
      f.category = (if g.category.isEmpty then standardCategory else g.category) := by
  have hsteps : Feature.stepsOf (e.getD "steps") = .ok g.steps := by
    rw [getD_of_get? h.steps]
    show Except.ok ((g.steps.map Value.text).map Value.shown) = _
    rw [List.map_map]
    exact congrArg Except.ok (List.map_id g.steps)
  have hfeature : Feature.ofFields e = .ok
      { id
        description := g.description
        steps := g.steps
        passes := decide (0 < marks)
        testData := Feature.testDataOf e
        priority := if g.priority.isEmpty then standardPriority else g.priority
        category := if g.category.isEmpty then standardCategory else g.category } := by
    unfold Feature.ofFields
    rw [h.id, hsteps, h.description, h.passes_eq, h.priority_eq, h.category_eq]
    rfl
  exact ⟨_, hfeature, rfl, rfl, rfl, rfl, rfl, rfl⟩

end Entry

end Acceptance
