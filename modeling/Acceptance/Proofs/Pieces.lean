import Mathlib.Data.List.Infix
import Acceptance.Text.Basic

/-! # Pieces of texts

Where a part of a text can lie when the text is put together from others, and runs that are read up
to their end. -/

namespace Acceptance

namespace Text

variable {s t : Text} {c : CodePoint}

theorem startsWith_iff : startsWith t s = true ↔ s <+: t := List.isPrefixOf_iff_prefix

/-! ## Parts of what is put together -/

/-- A start without a certain code point lies before it. -/
theorem prefix_append_cons (h : c ∉ t) {rest : Text} (hstart : t <+: s ++ c :: rest) : t <+: s := by
  have hfront : s ++ [c] <+: s ++ c :: rest := ⟨rest, by simp⟩
  rcases List.prefix_or_prefix_of_prefix hstart hfront with hbefore | hover
  · rcases List.prefix_concat_iff.mp hbefore with rfl | hbefore
    · exact absurd (by simp) h
    · exact hbefore
  · exact absurd (hover.subset (by simp)) h

/-- A part without a certain code point lies on one side of it. -/
theorem infix_append_cons_iff (h : c ∉ t) (s rest : Text) :
    t <:+: s ++ c :: rest ↔ t <:+: s ∨ t <:+: rest := by
  constructor
  · induction s with
    | nil =>
      rw [List.nil_append, List.infix_cons_iff]
      exact Or.imp_left fun hstart => (prefix_append_cons (s := []) h hstart).isInfix
    | cons d s ih =>
      rw [List.cons_append, List.infix_cons_iff]
      rintro (hstart | hlater)
      · exact .inl (prefix_append_cons (s := d :: s) h hstart).isInfix
      · exact (ih hlater).imp_left fun hin => hin.trans (List.suffix_cons d s).isInfix
  · rintro (hin | hin)
    · exact hin.trans (List.prefix_append _ _).isInfix
    · exact hin.trans (((List.suffix_cons _ _).trans (List.suffix_append _ _)).isInfix)

theorem joinWith_cons_cons (glue first next : Text) (more : List Text) :
    joinWith glue (first :: next :: more) = first ++ glue ++ joinWith glue (next :: more) := rfl

theorem infix_joinWith {glue piece : Text} {pieces : List Text} (h : piece ∈ pieces) :
    piece <:+: joinWith glue pieces := by
  induction pieces with
  | nil => exact absurd h (by simp)
  | cons first rest ih =>
    cases rest with
    | nil => rw [joinWith, List.mem_singleton.mp h]
    | cons next more =>
      rw [joinWith_cons_cons]
      rcases List.mem_cons.mp h with rfl | h
      · exact (List.prefix_append piece glue).isInfix.trans (List.prefix_append _ _).isInfix
      · exact (ih h).trans (List.suffix_append _ _).isInfix

/-- A part without the separator is a part of one of the pieces. -/
theorem infix_joinWith_iff (hne : t ≠ []) (h : c ∉ t) {pieces : List Text} :
    t <:+: joinWith [c] pieces ↔ ∃ piece ∈ pieces, t <:+: piece := by
  refine ⟨fun hin => ?_, fun ⟨piece, hpiece, hin⟩ => hin.trans (infix_joinWith hpiece)⟩
  induction pieces with
  | nil => exact absurd (List.infix_nil.mp hin) hne
  | cons first rest ih =>
    cases rest with
    | nil => exact ⟨first, by simp, hin⟩
    | cons next more =>
      rw [joinWith_cons_cons, List.append_assoc, List.singleton_append,
        infix_append_cons_iff h] at hin
      rcases hin with hfirst | hlater
      · exact ⟨first, by simp, hfirst⟩
      · obtain ⟨piece, hpiece, hin⟩ := ih hlater
        exact ⟨piece, List.mem_cons_of_mem _ hpiece, hin⟩

/-! ## Runs -/

variable {p : CodePoint → Bool} {run rest : Text}

theorem head_run {P : CodePoint → Prop} (hne : run ≠ []) (hrun : ∀ c ∈ run, P c) (rest : Text) :
    ∀ c ∈ (run ++ rest).head?, P c := by
  obtain ⟨d, more, rfl⟩ := List.exists_cons_of_ne_nil hne
  rintro c hc
  obtain rfl := Option.some.inj hc
  exact hrun d (by simp)

theorem takeWhile_run (hrun : ∀ c ∈ run, p c = true) (hend : ∀ c ∈ rest.head?, p c = false) :
    (run ++ rest).takeWhile p = run := by
  rw [List.takeWhile_append_of_pos hrun]
  cases rest with
  | nil => simp
  | cons c rest => simp [hend c rfl]

theorem dropWhile_run (hrun : ∀ c ∈ run, p c = true) (hend : ∀ c ∈ rest.head?, p c = false) :
    (run ++ rest).dropWhile p = rest := by
  rw [List.dropWhile_append_of_pos hrun]
  cases rest with
  | nil => rfl
  | cons c rest => simp [hend c rfl]

end Text

end Acceptance
