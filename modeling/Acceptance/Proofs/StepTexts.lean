import Acceptance.Proofs.Longest
import Acceptance.Proofs.Wording
import Acceptance.Step.Target
import Acceptance.Step.Input

/-! # Texts of steps

What a step is about is cut out of the step, or it comes from the routes or the data of its feature.
So it can be encoded if they can. -/

namespace Acceptance

open Text (Encodes)

/-- Field and value can be encoded. -/
structure Input.Encodes (i : Input) : Prop where
  field : Text.Encodes i.field
  value : Text.Encodes i.value

/-- All paths of the routes can be encoded. -/
def Routes.Encodes (routes : Routes) : Prop := ∀ r ∈ routes, Text.Encodes r.2

namespace Step

variable {t : Text}

theorem encodes_withoutQuotes (h : Encodes t) : Encodes (withoutQuotes t) := (h.filter _).trim

theorem encodes_withoutVerb (h : Encodes t) (verbs : List Text) : Encodes (withoutVerb t verbs) := by
  unfold withoutVerb
  dsimp only
  split
  · exact (h.trim.drop _).trim
  · exact h.trim

/-! ## Targets -/

theorem encodes_resolve {routes : Routes} (h : routes.Encodes) {path : Text}
    (hresolve : routes.resolve t = some path) : Encodes path := by
  obtain ⟨r, hr, rfl⟩ := Option.map_eq_some_iff.mp hresolve
  exact h r (mem_of_longest? hr)

theorem encodes_cleanTarget (h : Encodes t) : Encodes (cleanTarget t) :=
  encodes_withoutQuotes (encodes_withoutVerb h _)

theorem encodes_navigateTarget {routes : Routes} (h : Encodes t) (hroutes : routes.Encodes) :
    Encodes (navigateTarget t routes) := by
  unfold navigateTarget
  dsimp only
  split
  · exact encodes_cleanTarget h
  split
  next path hpath =>
    split
    · exact encodes_cleanTarget h
    · exact encodes_resolve hroutes hpath
  · exact encodes_cleanTarget h

theorem encodes_clickTarget (h : Encodes t) : Encodes (clickTarget t) := by
  unfold clickTarget
  dsimp only
  split
  · exact ((encodes_cleanTarget h).dropEnd _).trim
  · exact encodes_cleanTarget h

/-! ## Inputs

Every reader cuts its findings out of the text. -/

variable {rest : Text} {input : Input}

theorem encodes_run? {run : Text} (h : Encodes t) (hrun : run? t = some (run, rest)) :
    Encodes run ∧ Encodes rest := by
  unfold run? at hrun
  rw [List.span_eq_takeWhile_dropWhile] at hrun
  dsimp only at hrun
  split at hrun
  · exact absurd hrun (by simp)
  · obtain ⟨rfl, rfl⟩ := Prod.mk.inj (Option.some.inj hrun)
    exact ⟨h.takeWhile _, h.dropWhile _⟩

theorem encodes_afterWord? {words : List Text} (h : Encodes t)
    (hrest : afterWord? words t = some rest) : Encodes rest := by
  obtain ⟨word, -, rfl⟩ := Option.map_eq_some_iff.mp hrest
  exact h.drop _

theorem encodes_afterBlanks (h : Encodes t) : Encodes (afterBlanks t) := h.dropWhile _

theorem encodes_afterSomeBlanks (h : Encodes t) (hrest : afterSomeBlanks t = some rest) :
    Encodes rest := by
  unfold afterSomeBlanks at hrest
  split at hrest
  · exact absurd hrest (by simp)
  · split at hrest
    · rw [← Option.some.inj hrest]
      exact encodes_afterBlanks h
    · exact absurd hrest (by simp)

theorem encodes_afterAnyCase? {word : Text} (h : Encodes t)
    (hrest : afterAnyCase? word t = some rest) : Encodes rest := by
  induction word generalizing t with
  | nil => exact Option.some.inj hrest ▸ h
  | cons letter word ih =>
    cases t with
    | nil => exact absurd hrest (by simp [afterAnyCase?])
    | cons c more =>
      rw [afterAnyCase?] at hrest
      split at hrest
      · exact ih (Text.encodes_cons.mp h).2 hrest
      · exact absurd hrest (by simp)

/-- What is found at a place of a text is found at the start of a part of it. -/
theorem encodes_firstPlace {search : Text → Option Input}
    (hsearch : ∀ t i, Encodes t → search t = some i → i.Encodes) (h : Encodes t)
    (hfound : firstPlace search t = some input) : input.Encodes := by
  induction t with
  | nil => exact hsearch _ _ h hfound
  | cons c more ih =>
    rw [firstPlace] at hfound
    split at hfound
    next found hstart => exact hsearch _ _ h (Option.some.inj hfound ▸ hstart)
    next => exact ih (Text.encodes_cons.mp h).2 hfound

theorem encodes_valueAfterVerb? {value : Text} (h : Encodes t)
    (hvalue : valueAfterVerb? t = some value) : Encodes value := by
  obtain ⟨rest, hrest, hvalue⟩ := Option.bind_eq_some_iff.mp hvalue
  obtain ⟨⟨run, left⟩, hrun, hvalue⟩ := Option.bind_eq_some_iff.mp hvalue
  rw [← Option.some.inj hvalue]
  have hafter := encodes_afterWord? (encodes_afterBlanks h) hrest
  exact (encodes_run? (encodes_afterBlanks hafter) hrun).1

theorem encodes_valueAfterField? {value : Text} (h : Encodes t)
    (hvalue : valueAfterField? t = some value) : Encodes value := by
  unfold valueAfterField? at hvalue
  rcases Option.or_eq_some_iff.mp hvalue with hinside | ⟨-, hvalue⟩
  · obtain ⟨word, -, hinside⟩ := List.exists_of_findSome?_eq_some hinside
    obtain ⟨rest, hrest, hvalue⟩ := Option.bind_eq_some_iff.mp hinside
    exact encodes_valueAfterVerb? (encodes_afterWord? (encodes_afterBlanks h) hrest) hvalue
  · exact encodes_valueAfterVerb? (encodes_afterBlanks h) hvalue

theorem encodes_shortestField? {taken : Text} (htaken : Encodes taken) (h : Encodes t)
    (hfound : shortestField? taken t = some input) : input.Encodes := by
  induction t generalizing taken with
  | nil => exact absurd hfound (by simp [shortestField?])
  | cons c more ih =>
    obtain ⟨hc, hmore⟩ := Text.encodes_cons.mp h
    have htaken' : Encodes (c :: taken) := Text.encodes_cons.mpr ⟨hc, htaken⟩
    rw [shortestField?] at hfound
    split at hfound
    · exact absurd hfound (by simp)
    split at hfound
    next value hvalue =>
      rw [← Option.some.inj hfound]
      exact ⟨htaken'.reverse, encodes_valueAfterField? hmore hvalue⟩
    next => exact ih htaken' hmore hfound

theorem encodes_placedInput? (h : Encodes t) (hfound : placedInput? t = some input) :
    input.Encodes := by
  obtain ⟨rest, hrest, hfound⟩ := Option.bind_eq_some_iff.mp hfound
  exact encodes_shortestField? Text.encodes_nil
    (encodes_afterBlanks (encodes_afterWord? h hrest)) hfound

theorem encodes_listedInput? (h : Encodes t) (hfound : listedInput? t = some input) :
    input.Encodes := by
  obtain ⟨rest, hrest, hfound⟩ := Option.bind_eq_some_iff.mp hfound
  obtain ⟨⟨field, left⟩, hfield, hfound⟩ := Option.bind_eq_some_iff.mp hfound
  obtain ⟨after, hafter, hfound⟩ := Option.bind_eq_some_iff.mp hfound
  obtain ⟨⟨value, more⟩, hvalue, hfound⟩ := Option.bind_eq_some_iff.mp hfound
  have hruns := encodes_run? (encodes_afterBlanks (encodes_afterWord? h hrest)) hfield
  rw [← Option.some.inj hfound]
  exact ⟨hruns.1, (encodes_run? (encodes_afterSomeBlanks hruns.2 hafter) hvalue).1⟩

theorem encodes_firstRun? {run : Text} (h : Encodes t) (hrun : (run? t).map (·.1) = some run) :
    Encodes run := by
  obtain ⟨⟨found, left⟩, hfound, rfl⟩ := Option.map_eq_some_iff.mp hrun
  exact (encodes_run? h hfound).1

theorem encodes_englishValue? {value : Text} (h : Encodes t)
    (hvalue : englishValue? t = some value) : Encodes value := by
  have hconnected : ∀ word value, ((do
      let rest ← afterAnyCase? word t
      (run? (← afterSomeBlanks rest)).map (·.1)) : Option Text) = some value → Encodes value := by
    intro word value hvalue
    obtain ⟨rest, hrest, hvalue⟩ := Option.bind_eq_some_iff.mp hvalue
    obtain ⟨after, hafter, hvalue⟩ := Option.bind_eq_some_iff.mp hvalue
    exact encodes_firstRun? (encodes_afterSomeBlanks (encodes_afterAnyCase? h hrest) hafter) hvalue
  unfold englishValue? at hvalue
  rcases Option.or_eq_some_iff.mp hvalue with hwith | ⟨-, hvalue⟩
  · exact hconnected _ _ hwith
  rcases Option.or_eq_some_iff.mp hvalue with has | ⟨-, hvalue⟩
  · exact hconnected _ _ has
  · exact encodes_firstRun? h hvalue

theorem encodes_englishFieldAndValue? (h : Encodes t)
    (hfound : englishFieldAndValue? t = some input) : input.Encodes := by
  obtain ⟨start, hstart, hfound⟩ := Option.bind_eq_some_iff.mp hfound
  obtain ⟨⟨field, left⟩, hfield, hfound⟩ := Option.bind_eq_some_iff.mp hfound
  obtain ⟨after, hafter, hfound⟩ := Option.bind_eq_some_iff.mp hfound
  obtain ⟨value, hvalue, hfound⟩ := Option.bind_eq_some_iff.mp hfound
  have hruns := encodes_run? (encodes_afterSomeBlanks h hstart) hfield
  rw [← Option.some.inj hfound]
  exact ⟨hruns.1, encodes_englishValue? (encodes_afterSomeBlanks hruns.2 hafter) hvalue⟩

theorem encodes_englishInput? (h : Encodes t) (hfound : englishInput? t = some input) :
    input.Encodes := by
  have hafter : ∀ word, (afterAnyCase? word t).bind englishFieldAndValue? = some input →
      input.Encodes := by
    intro word hfound
    obtain ⟨rest, hrest, hfound⟩ := Option.bind_eq_some_iff.mp hfound
    exact encodes_englishFieldAndValue? (encodes_afterAnyCase? h hrest) hfound
  unfold englishInput? at hfound
  rcases Option.or_eq_some_iff.mp hfound with hinput | ⟨-, hfound⟩
  · exact hafter _ hinput
  rcases Option.or_eq_some_iff.mp hfound with hfillIn | ⟨-, hfound⟩
  · obtain ⟨fill, hfill, hfillIn⟩ := Option.bind_eq_some_iff.mp hfillIn
    obtain ⟨blanks, hblanks, hfillIn⟩ := Option.bind_eq_some_iff.mp hfillIn
    obtain ⟨rest, hrest, hfillIn⟩ := Option.bind_eq_some_iff.mp hfillIn
    have hstart := encodes_afterSomeBlanks (encodes_afterAnyCase? h hfill) hblanks
    exact encodes_englishFieldAndValue? (encodes_afterAnyCase? hstart hrest) hfillIn
  rcases Option.or_eq_some_iff.mp hfound with hfill | ⟨-, htype⟩
  · exact hafter _ hfill
  · exact hafter _ htype

theorem encodes_cleaned? {cleaned : Input} (h : input.Encodes)
    (hcleaned : cleaned? input = some cleaned) : cleaned.Encodes := by
  unfold cleaned? at hcleaned
  dsimp only at hcleaned
  split at hcleaned
  · exact absurd hcleaned (by simp)
  · rw [← Option.some.inj hcleaned]
    exact ⟨encodes_withoutQuotes h.field, encodes_withoutQuotes h.value⟩

/-- What a fill step enters can be encoded if the step and the data of its feature can. -/
theorem encodes_input {data : Option Input} (h : Encodes t) (hdata : ∀ i ∈ data, i.Encodes) :
    (Step.input t data).Encodes := by
  have hsearches : ∀ search ∈ [placedInput?, listedInput?, englishInput?], ∀ t i, Encodes t →
      search t = some i → i.Encodes := by
    simp only [List.forall_mem_cons]
    exact ⟨fun _ _ => encodes_placedInput?, fun _ _ => encodes_listedInput?,
      fun _ _ => encodes_englishInput?, by simp⟩
  unfold Step.input
  generalize hsaid : List.findSome? _ _ = said
  cases said with
  | some found =>
    obtain ⟨search, hmem, hfound⟩ := List.exists_of_findSome?_eq_some hsaid
    obtain ⟨i, hi, hcleaned⟩ := Option.bind_eq_some_iff.mp hfound
    exact encodes_cleaned? (encodes_firstPlace (hsearches search hmem) h hi) hcleaned
  | none =>
    cases data with
    | some i => exact hdata i rfl
    | none => exact ⟨Text.encodes_of _, Text.encodes_of _⟩

end Step

end Acceptance
