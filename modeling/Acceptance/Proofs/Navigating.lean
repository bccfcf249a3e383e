import Acceptance.Proofs.Addresses
import Acceptance.Proofs.Attempts
import Acceptance.Proofs.Longest
import Acceptance.Proofs.LowerCase
import Acceptance.Proofs.Pieces

/-! # Navigating

A navigate step is a verb, blanks and a target. The target is an address, or the label of a page,
and one command opens it. What stands in the target does not matter: a verb that occurs in it again
is kept, and a label that starts with another label is not taken for it. -/

namespace Acceptance

/-! ## Starts and ends of texts -/

namespace Text

variable {t : Text}

/-- Trimming keeps a text exactly if it keeps it at both ends. -/
theorem trim_eq_self_iff : trim t = t ↔ trimLeft t = t ∧ trimRight t = t := by
  constructor
  · intro h
    have hleft : trimLeft t = t := by
      refine (List.dropWhile_suffix _).eq_of_length_le ?_
      have hlength : t.length ≤ (trimLeft t).length := by
        conv_lhs => rw [← h]
        exact (List.rdropWhile_prefix _ _).length_le
      exact hlength
    refine ⟨hleft, ?_⟩
    rw [trim, hleft] at h
    exact h
  · rintro ⟨hleft, hright⟩
    rw [trim, hleft, hright]

end Text

namespace Step

variable {keyword blanks target step : Text}

/-! ## Targets -/

/-- The text is taken as a target just as it is. -/
structure IsTarget (t : Text) : Prop where
  ne_nil : t ≠ []
  trimmed : Text.trim t = t
  unquoted : ∀ c ∈ t, c ∉ quoteMarks

/-- A scheme, a colon, two slashes, and anything after them. -/
def IsAbsolute (t : Text) : Prop :=
  ∃ (c : CodePoint) (scheme rest : Text), t = c :: scheme ++ "://" ++ rest ∧
    c.isAsciiLetter = true ∧ ∀ d ∈ scheme, isSchemeChar d = true

theorem isAbsoluteUrl_iff {t : Text} : isAbsoluteUrl t = true ↔ IsAbsolute t := by
  constructor
  · intro h
    unfold isAbsoluteUrl at h
    split at h
    · simp at h
    next c rest =>
      obtain ⟨hletter, hstart⟩ := Bool.and_eq_true_iff.mp h
      obtain ⟨after, hafter⟩ := Text.startsWith_iff.mp hstart
      refine ⟨c, rest.takeWhile isSchemeChar, after, ?_, hletter, fun d hd => ?_⟩
      · rw [List.append_assoc, hafter, List.cons_append, List.takeWhile_append_dropWhile]
      · exact List.mem_takeWhile_imp hd
  · rintro ⟨c, scheme, rest, rfl, hletter, hscheme⟩
    have hdrop : (scheme ++ (Text.of "://" ++ rest)).dropWhile isSchemeChar =
        Text.of "://" ++ rest := by
      rw [List.dropWhile_append_of_pos hscheme]
      exact List.dropWhile_cons_of_neg (by decide)
    rw [List.append_assoc, List.cons_append]
    simp only [isAbsoluteUrl, hletter, hdrop, Bool.true_and]
    exact Text.startsWith_iff.mpr (List.prefix_append _ _)

theorem isAbsoluteUrl_eq_false {t : Text} (h : ¬ IsAbsolute t) : isAbsoluteUrl t = false := by
  rwa [← Bool.not_eq_true, isAbsoluteUrl_iff]

theorem withoutQuotes_eq (h : IsTarget target) : withoutQuotes target = target := by
  have hkept : target.filter (fun c => !quoteMarks.contains c) = target := by
    refine List.filter_eq_self.mpr fun c hc => ?_
    simpa using h.unquoted c hc
  rw [withoutQuotes, hkept, h.trimmed]

/-! ## Verbs -/

/-- The word is a verb of navigating, in ASCII letters of any case. -/
def IsNavigateVerb (word : Text) : Prop := word.map CodePoint.asciiLower ∈ navigateVerbs

instance (word : Text) : Decidable (IsNavigateVerb word) :=
  inferInstanceAs (Decidable (_ ∈ navigateVerbs))

/-- No verb is the start of another. -/
theorem verb_eq_of_start : ∀ v ∈ navigateVerbs ++ clickVerbs, ∀ w ∈ navigateVerbs ++ clickVerbs,
    v <+: w → v = w := by
  decide

theorem isPlain_of_isNavigateVerb (h : IsNavigateVerb keyword) : ∀ c ∈ keyword, c.IsPlain := by
  have hverbs : ∀ verb ∈ navigateVerbs, ∀ c ∈ verb, 0x80 ≤ c.val →
      c.lower = c ∧ c ≠ 'Σ' ∧ c ≠ CodePoint.dottedCapitalI := by decide +kernel
  intro c hc
  rcases Nat.lt_or_ge c.val 0x80 with hascii | hlarge
  · exact CodePoint.isPlain_of_ascii hascii
  · have hsame := CodePoint.asciiLower_of_large hlarge
    have hmem : c ∈ keyword.map CodePoint.asciiLower := hsame ▸ List.mem_map_of_mem hc
    obtain ⟨hlower, hsigma, hdotted⟩ := hverbs _ h c hmem hlarge
    exact CodePoint.isPlain_of_lower_eq (hlower.trans hsame.symm) hsigma hdotted

/-- A verb does not start with a blank. -/
theorem exists_cons_of_isNavigateVerb (h : IsNavigateVerb keyword) :
    ∃ c rest, keyword = c :: rest ∧ c.isBlank = false := by
  have hheads : ∀ verb ∈ navigateVerbs, ∃ c ∈ verb.head?, c.isBlank = false := by decide +kernel
  obtain ⟨d, hd, hblank⟩ := hheads _ h
  rw [List.head?_map, Option.mem_def, Option.map_eq_some_iff] at hd
  obtain ⟨c, hc, rfl⟩ := hd
  obtain ⟨rest, rfl⟩ := List.head?_eq_some_iff.mp hc
  refine ⟨c, rest, rfl, ?_⟩
  by_contra hnot
  have hc' : c.isBlank = true := by simpa using hnot
  rw [CodePoint.asciiLower_of_isBlank hc', hc'] at hblank
  simp at hblank

theorem classify_of_isNavigateVerb (h : IsNavigateVerb keyword) (rest : Text) :
    classify (keyword ++ rest) = .navigate := by
  have hmentions : mentions (keyword ++ rest) navigateVerbs = true :=
    List.any_eq_true.mpr ⟨_, h,
      Text.has_iff.mpr (Text.prefix_lower (isPlain_of_isNavigateVerb h) rest).isInfix⟩
  have hfound : groups.find? (fun g => mentions (keyword ++ rest) g.2) =
      some (.navigate, navigateVerbs) := List.find?_cons_of_pos hmentions
  unfold classify
  rw [hfound]

/-- The verb that a text starts with is cut off, and nothing else. -/
theorem withoutVerb_append (h : IsNavigateVerb keyword) {rest : Text}
    (htrim : Text.trim (keyword ++ rest) = keyword ++ rest) :
    withoutVerb (keyword ++ rest) (navigateVerbs ++ clickVerbs) = Text.trim rest := by
  have hverb : keyword.map CodePoint.asciiLower ∈ navigateVerbs ++ clickVerbs :=
    List.mem_append_left _ h
  have hstarts := Text.prefix_lower (isPlain_of_isNavigateVerb h) rest
  have hlongest : longest? List.length (Text.startsWith (Text.lower (keyword ++ rest)))
      (navigateVerbs ++ clickVerbs) = some (keyword.map CodePoint.asciiLower) := by
    refine longest?_eq_of_forall_lt hverb (Text.startsWith_iff.mpr hstarts)
      fun v hv hfits => ?_
    have hstarts' : v <+: Text.lower (keyword ++ rest) := Text.startsWith_iff.mp hfits
    rcases List.prefix_or_prefix_of_prefix hstarts hstarts' with hstart | hstart
    · exact .inl (verb_eq_of_start _ hverb v hv hstart).symm
    · exact .inl (verb_eq_of_start v hv _ hverb hstart)
  unfold withoutVerb
  simp only [htrim, hlongest, List.length_map, List.drop_left]

theorem cleanTarget_append (h : IsNavigateVerb keyword)
    (hblanks : ∀ c ∈ blanks, c.isBlank = true) (htarget : IsTarget target) :
    cleanTarget (keyword ++ (blanks ++ target)) = target := by
  obtain ⟨hleft, hright⟩ := Text.trim_eq_self_iff.mp htarget.trimmed
  -- The target ends with something that is not trimmed, and so do the texts that end with it.
  have hstays : ∃ c ∈ target, c.isBlank = false := by
    by_contra hnone
    have hall : ∀ c ∈ target, c.isBlank = true := by simpa using hnone
    exact htarget.ne_nil (hright.symm.trans (List.rdropWhile_eq_nil_iff.mpr hall))
  have hends : ∀ front, Text.trimRight (front ++ target) = front ++ target := fun front =>
    (Text.trimRightWhere_append front hstays).trans (congrArg (front ++ ·) hright)
  have hstep : Text.trim (keyword ++ (blanks ++ target)) = keyword ++ (blanks ++ target) := by
    obtain ⟨c, rest, rfl, hc⟩ := exists_cons_of_isNavigateVerb h
    rw [Text.trim_eq_self_iff, ← List.append_assoc]
    exact ⟨Text.trimLeftWhere_cons hc _, hends _⟩
  have hrest : Text.trim (blanks ++ target) = target := by
    have hdropped : Text.trimLeft (blanks ++ target) = target :=
      (List.dropWhile_append_of_pos hblanks).trans hleft
    rw [Text.trim, hdropped, hright]
  rw [cleanTarget, withoutVerb_append h hstep, hrest, withoutQuotes_eq htarget]

end Step

/-! ## Labels -/

/-- A label that no other label equals is found, although others may be its start. -/
theorem Routes.resolve_eq {routes : Routes} {label path : Text} (hmem : (label, path) ∈ routes)
    (hother : ∀ r ∈ routes, Text.lower r.1 = Text.lower label → r = (label, path))
    (hlength : ∀ r ∈ routes, (Text.lower r.1).length = r.1.length) :
    routes.resolve label = some path := by
  have hlongest : Step.longest? (·.1.length)
      (fun r => Text.startsWith (Text.lower label) (Text.lower r.1)) routes =
        some (label, path) := by
    refine Step.longest?_eq_of_forall_lt hmem (Text.startsWith_iff.mpr (List.prefix_refl _))
      fun r hr hfits => ?_
    have hstart : Text.lower r.1 <+: Text.lower label := Text.startsWith_iff.mp hfits
    have hlabel : (Text.lower label).length = label.length := hlength _ hmem
    rcases Nat.lt_or_ge r.1.length label.length with hshorter | hnot
    · exact .inr hshorter
    · refine .inl (hother r hr (hstart.eq_of_length_le ?_))
      rw [hlabel, hlength r hr]
      exact hnot
  unfold resolve
  dsimp only
  rw [hlongest]
  rfl

namespace Performer

variable {p : Performer} {outside : Outside} {m : Machine} {step keyword blanks target url : Text}

/-- The target names the address that is to be opened. -/
inductive Names (p : Performer) : Text → Text → Prop where
  /-- An address names itself. -/
  | address {t : Text} : Step.IsAbsolute t → Names p t t
  /-- A label names the address of its page. Lower case does not lengthen or shorten any label, and
  no other label is the same in it. -/
  | page {label path : Text} : (label, path) ∈ p.routes → ¬ Step.IsAbsolute label → path ≠ [] →
    ¬ Step.IsAbsolute path →
    (∀ r ∈ p.routes, Text.lower r.1 = Text.lower label → r = (label, path)) →
    (∀ r ∈ p.routes, (Text.lower r.1).length = r.1.length) →
    Names p label
      (Evidence.withoutSlashes p.baseUrl ++ "/" ++ Text.trimLeftWhere (· = '/') path)

/-- The step opens the address that its target names. -/
theorem Names.resolveUrl_eq (h : Names p target url) (htarget : Step.cleanTarget step = target) :
    p.resolveUrl (Step.navigateTarget step p.routes) = url := by
  cases h with
  | address habsolute =>
    have htrue := Step.isAbsoluteUrl_iff.mpr habsolute
    unfold Step.navigateTarget
    simp only [htarget, htrue, if_true, resolveUrl]
  | page hmem hlabel hne hpath hother hlength =>
    have hroute := Routes.resolve_eq hmem hother hlength
    have hempty := List.isEmpty_eq_false_iff.mpr hne
    unfold Step.navigateTarget
    simp only [htarget, Step.isAbsoluteUrl_eq_false hlabel, hroute, hempty, Bool.false_eq_true,
      if_false, resolveUrl, Step.isAbsoluteUrl_eq_false hpath]

/-- A navigate step gives one command. -/
theorem navigate_dialogue (p : Performer) (step : Text) (outside : Outside) (m : Machine)
    (hurl : p.resolveUrl (Step.navigateTarget step p.routes) = url) :
    ∃ answer last, Dialogue p.gateway outside m [⟨p.openCall url, answer⟩] last ∧
      (p.navigate step).run outside m =
        (answer.map (outcomeOf · ("Failed to open " ++ url)), last) := by
  refine ⟨_, _, .said rfl (.silent _), ?_⟩
  unfold navigate
  dsimp only
  rw [hurl]
  exact Task.run_bind_pure _ _

/-- A verb of navigating in any case, any blanks, and a target that names an address: the step gives
one command, which opens that address, and it passes if the command succeeds. -/
theorem navigates_to (p : Performer) (data : Option Input) (outside : Outside) (m : Machine)
    (hkeyword : Step.IsNavigateVerb keyword) (hblanks : ∀ c ∈ blanks, c.isBlank = true)
    (htarget : Step.IsTarget target) (hnames : Names p target url) :
    ∃ answer last, Dialogue p.gateway outside m [⟨p.openCall url, answer⟩] last ∧
      (p.perform (keyword ++ blanks ++ target) data).run outside m =
        (answer.map (outcomeOf · ("Failed to open " ++ url)), last) ∧
      (answer.map (outcomeOf · ("Failed to open " ++ url)) = .ok .passed ↔
        ∃ r, answer = .ok r ∧ r.success = true) := by
  rw [List.append_assoc]
  have hkind := Step.classify_of_isNavigateVerb hkeyword (blanks ++ target)
  have hurl := hnames.resolveUrl_eq (Step.cleanTarget_append hkeyword hblanks htarget)
  obtain ⟨answer, last, hsaid, hrun⟩ := navigate_dialogue p _ outside m hurl
  refine ⟨answer, last, hsaid, ?_, ?_⟩
  · unfold perform
    rw [hkind]
    exact hrun
  · cases answer with
    | error fault => simp [Except.map]
    | ok r => simp [Except.map, outcomeOf_eq_passed_iff]

theorem names_schedule : usual.Names "课表页" "http://app.test/schedule" := by
  have hurl : Evidence.withoutSlashes usual.baseUrl ++ Text.of "/" ++
      Text.trimLeftWhere (· = '/') (Text.of "/schedule") = Text.of "http://app.test/schedule" := by
    decide
  rw [← hurl]
  refine .page (by decide) ?_ (by decide) ?_ (by decide +kernel) (by decide +kernel)
  · rw [← Step.isAbsoluteUrl_iff]
    decide
  · rw [← Step.isAbsoluteUrl_iff]
    decide

theorem succeeded_telling {output : List Text → Text} {call : BrowserCall}
    {answer : Except Fault CommandResult} {last : Machine}
    (h : Dialogue usual.gateway (telling output) m [⟨call, answer⟩] last) :
    ∃ r, answer = .ok r ∧ r.success = true := by
  cases h with
  | said hgive _ => exact ⟨_, (Prod.mk.inj hgive).1.symm, rfl⟩

/-- Another label is the start of this one, and the address holds the verb again. -/
theorem navigates_to_schedule :
    (∃ answer last, Dialogue usual.gateway (telling fun _ => []) (Machine.bare [])
        [⟨usual.openCall "http://app.test/schedule", answer⟩] last ∧
      (usual.perform "GO To　课表页" none).run (telling fun _ => []) (Machine.bare []) =
        (.ok .passed, last)) ∧
    ∃ answer last, Dialogue usual.gateway (telling fun _ => []) (Machine.bare [])
        [⟨usual.openCall "https://x.test/visit", answer⟩] last ∧
      (usual.perform "Visit https://x.test/visit" none).run (telling fun _ => [])
        (Machine.bare []) = (.ok .passed, last) := by
  have hschedule : Step.IsTarget "课表页" := ⟨by decide, by decide, by decide⟩
  have haddress : Step.IsTarget "https://x.test/visit" := ⟨by decide, by decide, by decide⟩
  have habsolute : Step.IsAbsolute "https://x.test/visit" :=
    Step.isAbsoluteUrl_iff.mp (by decide)
  constructor
  · obtain ⟨answer, last, hsaid, hrun, hpassed⟩ := navigates_to usual none (telling fun _ => [])
      (Machine.bare []) (show Step.IsNavigateVerb (Text.of "GO To") by decide)
      (show ∀ c ∈ Text.of "　", c.isBlank = true by decide) hschedule names_schedule
    exact ⟨answer, last, hsaid, hrun.trans (by rw [hpassed.mpr (succeeded_telling hsaid)])⟩
  · obtain ⟨answer, last, hsaid, hrun, hpassed⟩ := navigates_to usual none (telling fun _ => [])
      (Machine.bare []) (show Step.IsNavigateVerb (Text.of "Visit") by decide)
      (show ∀ c ∈ Text.of " ", c.isBlank = true by decide) haddress (.address habsolute)
    exact ⟨answer, last, hsaid, hrun.trans (by rw [hpassed.mpr (succeeded_telling hsaid)])⟩

end Performer

end Acceptance
