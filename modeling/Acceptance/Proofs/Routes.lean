import Acceptance.Proofs.Navigating

/-! # Labels that are the start of others

Several labels of a table may be the start of one text. The longest of them gives the path, and of
equally long ones the first. If no two labels are the same in lower case, and lower case neither
lengthens nor shortens them, there is only one longest, so the order of the table does not matter. -/

namespace Acceptance

namespace Routes

variable {routes others : Routes} {t : Text} {r s : Text × Text}

/-- The text starts with the label of the route, whatever the case. -/
def Fits (t : Text) (r : Text × Text) : Prop := Text.lower r.1 <+: Text.lower t

/-- The route is the first of the longest that fit: those before it are shorter, and those after it
are not longer. -/
def IsFirstLongest (routes : Routes) (t : Text) (r : Text × Text) : Prop :=
  Fits t r ∧ ∃ front back, routes = front ++ r :: back ∧
    (∀ s ∈ front, Fits t s → s.1.length < r.1.length) ∧
    ∀ s ∈ back, Fits t s → s.1.length ≤ r.1.length

/-- No label is lengthened or shortened by lower case. -/
def KeepsLengths (routes : Routes) : Prop :=
  ∀ r ∈ routes, (Text.lower r.1).length = r.1.length

/-- No two labels are the same in lower case. -/
def AreDistinct (routes : Routes) : Prop := (routes.map fun r => Text.lower r.1).Nodup

/-- The route that gives the path. -/
def longest? (routes : Routes) (t : Text) : Option (Text × Text) :=
  Step.longest? (·.1.length) (fun r => Text.startsWith (Text.lower t) (Text.lower r.1)) routes

theorem resolve_eq_map (routes : Routes) (t : Text) :
    routes.resolve t = (routes.longest? t).map (·.2) := rfl

theorem longest?_eq_none_iff : routes.longest? t = none ↔ ∀ r ∈ routes, ¬ Fits t r := by
  constructor
  · intro h r hr hfits
    have hnot := Step.longest?_eq_none h r hr
    simp [Text.startsWith_iff.mpr hfits] at hnot
  · intro h
    cases hfound : routes.longest? t with
    | none => rfl
    | some r =>
      obtain ⟨hfits, front, back, rfl, -, -⟩ := Step.longest?_eq_some hfound
      exact absurd (Text.startsWith_iff.mp hfits) (h r (by simp))

theorem longest?_eq_some_iff : routes.longest? t = some r ↔ IsFirstLongest routes t r := by
  constructor
  · intro h
    obtain ⟨hfits, front, back, hroutes, hfront, hback⟩ := Step.longest?_eq_some h
    exact ⟨Text.startsWith_iff.mp hfits, front, back, hroutes,
      fun s hs hfits => hfront s hs (Text.startsWith_iff.mpr hfits),
      fun s hs hfits => hback s hs (Text.startsWith_iff.mpr hfits)⟩
  · rintro ⟨hfits, front, back, rfl, hfront, hback⟩
    exact Step.longest?_append_cons (Text.startsWith_iff.mpr hfits)
      (fun s hs hfits => hfront s hs (Text.startsWith_iff.mp hfits))
      fun s hs hfits => hback s hs (Text.startsWith_iff.mp hfits)

/-! ## One longest label -/

/-- Labels of one length that are the start of one text are the same. -/
theorem eq_of_fits (hlengths : KeepsLengths routes) (hdistinct : AreDistinct routes)
    (hr : r ∈ routes) (hs : s ∈ routes) (hfits : Fits t r) (hfits' : Fits t s)
    (hlength : r.1.length = s.1.length) : r = s := by
  have hlower : Text.lower r.1 = Text.lower s.1 := by
    refine List.IsPrefix.eq_of_length (List.prefix_of_prefix_length_le hfits hfits' ?_) ?_
    · rw [hlengths r hr, hlengths s hs, hlength]
    · rw [hlengths r hr, hlengths s hs, hlength]
  exact List.inj_on_of_nodup_map hdistinct hr hs hlower

theorem longest?_eq_of_perm (hlengths : KeepsLengths routes) (hdistinct : AreDistinct routes)
    (hperm : others.Perm routes) : others.longest? t = routes.longest? t := by
  cases hfound : routes.longest? t with
  | none =>
    rw [longest?_eq_none_iff] at hfound ⊢
    exact fun r hr => hfound r (hperm.mem_iff.mp hr)
  | some r =>
    have hfits := (longest?_eq_some_iff.mp hfound).1
    have hr : r ∈ routes := Step.mem_of_longest? hfound
    -- Every other route that fits is shorter, wherever it stands.
    refine Step.longest?_eq_of_forall_lt (hperm.mem_iff.mpr hr) (Text.startsWith_iff.mpr hfits)
      fun s hs hs' => ?_
    have hs : s ∈ routes := hperm.mem_iff.mp hs
    have hfits' : Fits t s := Text.startsWith_iff.mp hs'
    have hle := Step.length_le_of_longest? hfound s hs hs'
    rcases Nat.lt_or_eq_of_le hle with hlt | heq
    · exact .inr hlt
    · exact .inl (eq_of_fits hlengths hdistinct hs hr hfits' hfits heq)

/-- A text has no path if it starts with no label. Otherwise its path is that of the longest label
that it starts with, of equally long ones of the first. A table in another order gives the same path
if no two labels are the same in lower case, and lower case keeps their lengths. -/
theorem resolve_longest (routes : Routes) (t : Text) :
    (routes.resolve t = none ↔ ∀ r ∈ routes, ¬ Fits t r) ∧
      (∀ path, routes.resolve t = some path ↔
        ∃ label, IsFirstLongest routes t (label, path)) ∧
      ∀ others : Routes, KeepsLengths routes → AreDistinct routes → others.Perm routes →
        others.resolve t = routes.resolve t := by
  refine ⟨?_, fun path => ?_, fun others hlengths hdistinct hperm => ?_⟩
  · rw [resolve_eq_map, Option.map_eq_none_iff, longest?_eq_none_iff]
  · rw [resolve_eq_map, Option.map_eq_some_iff]
    constructor
    · rintro ⟨⟨label, path⟩, hfound, rfl⟩
      exact ⟨label, longest?_eq_some_iff.mp hfound⟩
    · rintro ⟨label, hlongest⟩
      exact ⟨(label, path), longest?_eq_some_iff.mpr hlongest, rfl⟩
  · rw [resolve_eq_map, resolve_eq_map, longest?_eq_of_perm hlengths hdistinct hperm]

/-- A label that is the start of another one does not hide it, in whatever order they stand. -/
theorem resolve_longest_nested :
    resolve [("log", "/log"), ("Login", "/login")] "LOGIN page" = some "/login" ∧
      resolve [("Login", "/login"), ("log", "/log")] "LOGIN page" = some "/login" := by
  have hpath : resolve [("log", "/log"), ("Login", "/login")] "LOGIN page" =
      some (Text.of "/login") := by decide +kernel
  have hlengths : KeepsLengths [("log", "/log"), ("Login", "/login")] := by
    unfold KeepsLengths
    decide +kernel
  have hdistinct : AreDistinct [("log", "/log"), ("Login", "/login")] := by
    unfold AreDistinct
    decide +kernel
  obtain ⟨-, -, hanyOrder⟩ := resolve_longest [("log", "/log"), ("Login", "/login")] "LOGIN page"
  exact ⟨hpath, (hanyOrder _ hlengths hdistinct (List.Perm.swap _ _ _)).trans hpath⟩

end Routes

end Acceptance
