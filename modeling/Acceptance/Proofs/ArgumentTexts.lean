import Acceptance.CommandLine.Command
import Acceptance.Proofs.Wording

/-! # Texts of arguments

Options and operands are cut out of the arguments of a command line. So what a command is told can be
encoded if the arguments can. -/

namespace Acceptance

open Text (Encodes)

namespace Arguments

/-- All values and operands can be encoded. -/
structure Parsed.Encodes (p : Parsed) : Prop where
  options : ∀ o ∈ p.options, ∀ t ∈ o.2, Text.Encodes t
  operands : ∀ t ∈ p.operands, Text.Encodes t

namespace Parsed

variable {p : Parsed}

theorem encodes_empty : Parsed.empty.Encodes := ⟨by simp [empty], by simp [empty]⟩

theorem Encodes.withOption (h : p.Encodes) (key : Text) {value : Option Text}
    (hvalue : ∀ t ∈ value, Text.Encodes t) : (p.withOption key value).Encodes where
  options := List.forall_mem_append.mpr ⟨h.options, by simpa using hvalue⟩
  operands := h.operands

theorem Encodes.withOperands (h : p.Encodes) {more : List Text} (hmore : ∀ t ∈ more, Text.Encodes t) :
    (p.withOperands more).Encodes where
  options := h.options
  operands := List.forall_mem_append.mpr ⟨h.operands, hmore⟩

theorem Encodes.values (h : p.Encodes) (key : Text) : ∀ t ∈ p.values key, Text.Encodes t := by
  intro t ht
  obtain ⟨o, ho, hvalue⟩ := List.mem_filterMap.mp ht
  exact h.options o (List.mem_of_mem_filter ho) t hvalue

theorem Encodes.value? (h : p.Encodes) (key : Text) : ∀ t ∈ p.value? key, Text.Encodes t :=
  fun t ht => h.values key t (List.mem_of_getLast? ht)

theorem Encodes.valueOr (h : p.Encodes) (key : Text) {standard : Text}
    (hstandard : Text.Encodes standard) : Text.Encodes ((p.value? key).getD standard) := by
  cases hvalue : p.value? key with
  | none => exact hstandard
  | some t => exact h.value? key t hvalue

end Parsed

namespace Grammar

variable {g : Grammar} {parsed parsed' : Parsed} {arg : Text} {args : List Text}

/-- What was read of the arguments can be encoded. -/
def Reading.Encodes : Reading → Prop
  | .complete parsed => parsed.Encodes
  | .needsValue parsed _ => parsed.Encodes
  | .refused => True

theorem encodes_readCluster {unknown t : Text} (hparsed : parsed.Encodes) (hunknown : Encodes unknown)
    (ht : Encodes t) : (g.readCluster parsed unknown t).Encodes := by
  have hkept : ∀ {unknown : Text}, Encodes unknown →
      Encodes (("-" : Text) ++ unknown.reverse) := fun h => by simpa using h.reverse
  induction t generalizing parsed unknown with
  | nil =>
    rw [readCluster]
    split
    · exact hparsed
    · exact hparsed.withOperands (by simpa using hkept hunknown)
  | cons c rest ih =>
    obtain ⟨hc, hrest⟩ := Text.encodes_cons.mp ht
    rw [readCluster]
    split
    · split
      · exact ih hparsed (Text.encodes_cons.mpr ⟨hc, hunknown⟩) hrest
      · trivial
    next r _ =>
      have hoperands : ∀ t ∈ (if unknown.isEmpty then [] else ["-" ++ unknown.reverse] : List Text),
          Encodes t := by
        split
        · simp
        · simpa using hkept hunknown
      dsimp only
      split
      · exact ih (hparsed.withOption _ (by simp)) hunknown hrest
      split
      · exact hparsed.withOperands hoperands
      · exact (hparsed.withOption _ (by simpa using hrest)).withOperands hoperands

theorem encodes_readLong (hparsed : parsed.Encodes) (r : Rule) {value : Option Text}
    (hvalue : ∀ t ∈ value, Encodes t) : (readLong parsed r value).Encodes := by
  unfold readLong
  split
  · exact hparsed.withOption _ hvalue
  · exact hparsed
  · trivial
  · exact hparsed.withOption _ hvalue

theorem encodes_readDashed (hparsed : parsed.Encodes) (harg : Encodes arg) :
    (g.readDashed parsed arg).Encodes := by
  unfold readDashed
  dsimp only
  split
  · exact encodes_readLong hparsed _ (harg.cutAt '=').2
  split
  · split
    · exact hparsed.withOperands (by simpa using harg)
    · trivial
  · exact encodes_readCluster hparsed Text.encodes_nil (harg.drop 1)

theorem encodes_readFrom (hparsed : parsed.Encodes) (hargs : ∀ arg ∈ args, Encodes arg)
    (h : g.readFrom parsed args = some parsed') : parsed'.Encodes := by
  fun_induction g.readFrom parsed args with
  | case1 parsed => exact Option.some.inj h ▸ hparsed
  | case2 parsed rest =>
    rw [← Option.some.inj h]
    exact hparsed.withOperands (List.forall_mem_cons.mp hargs).2
  | case3 => exact absurd h (by simp)
  | case4 parsed arg rest _ _ next hread ih =>
    obtain ⟨harg, hrest⟩ := List.forall_mem_cons.mp hargs
    have hnext : (g.readDashed parsed arg).Encodes := encodes_readDashed hparsed harg
    rw [hread] at hnext
    exact ih hnext hrest h
  | case5 => exact absurd h (by simp)
  | case6 parsed arg _ _ next key value rest hread ih =>
    obtain ⟨harg, hothers⟩ := List.forall_mem_cons.mp hargs
    obtain ⟨hvalue, hrest⟩ := List.forall_mem_cons.mp hothers
    have hnext : (g.readDashed parsed arg).Encodes := encodes_readDashed hparsed harg
    rw [hread] at hnext
    exact ih (hnext.withOption _ (by simpa using hvalue)) hrest h
  | case7 parsed arg rest _ _ _ ih =>
    obtain ⟨harg, hrest⟩ := List.forall_mem_cons.mp hargs
    exact ih (hparsed.withOperands (by simpa using harg)) hrest h
  | case8 =>
    rw [← Option.some.inj h]
    exact hparsed.withOperands hargs

theorem encodes_read (hargs : ∀ arg ∈ args, Encodes arg) (h : g.read args = some parsed) :
    parsed.Encodes := encodes_readFrom Parsed.encodes_empty hargs h

end Grammar

end Arguments

/-! ## Commands -/

namespace Command

/-- The texts that a command on features is told. -/
def told : Command → List Text
  | .add description priority category steps => description :: priority :: category :: steps
  | .done id notes => id :: notes.toList
  | .commit id message => id.toList ++ message.toList
  | .list filter priority => filter :: priority.toList
  | .test id _ _ baseUrl _ => id.toList ++ baseUrl.toList
  | .verify id notes baseUrl _ => id :: (notes.toList ++ baseUrl.toList)
  | _ => []

variable {c : Command} {p : Arguments.Parsed} {operands : List Text}

theorem one?_eq_some {α : Type} {f : Text → α} {a : α} (h : one? operands f = some a) :
    ∃ t ∈ operands, a = f t := by
  unfold one? at h
  split at h
  next t => exact ⟨t, List.mem_singleton_self t, (Option.some.inj h).symm⟩
  next => exact absurd h (by simp)

theorem atMostOne?_eq_some {α : Type} {f : Option Text → α} {a : α}
    (h : atMostOne? operands f = some a) : ∃ given, (∀ t ∈ given, t ∈ operands) ∧ a = f given := by
  unfold atMostOne? at h
  split at h
  next => exact ⟨none, by simp, (Option.some.inj h).symm⟩
  next t => exact ⟨some t, by simp, (Option.some.inj h).symm⟩
  next => exact absurd h (by simp)

theorem none?_eq_some {α : Type} {a b : α} (h : none? operands a = some b) : b = a := by
  unfold none? at h
  split at h
  · exact (Option.some.inj h).symm
  · exact absurd h (by simp)

theorem encodes_ofParsed? {name : Name} (hp : p.Encodes) (h : ofParsed? name p = some c) :
    ∀ t ∈ c.told, Encodes t := by
  have hvalue := fun key => hp.value? key
  have hgiven : ∀ given : Option Text, (∀ t ∈ given, t ∈ p.operands) →
      ∀ t ∈ given.toList, Encodes t := fun given hgiven t ht =>
    hp.operands t (hgiven t (Option.mem_toList.mp ht))
  unfold ofParsed? at h
  cases name with
  | version => rw [none?_eq_some h]; simp [told]
  | doctor => rw [none?_eq_some h]; simp [told]
  | init =>
    obtain ⟨given, -, rfl⟩ := atMostOne?_eq_some h
    simp [told]
  | status => rw [none?_eq_some h]; simp [told]
  | add =>
    obtain ⟨description, hdescription, rfl⟩ := one?_eq_some h
    simp only [told, List.forall_mem_cons]
    exact ⟨hp.operands _ hdescription, hp.valueOr _ (Text.encodes_of _),
      hp.valueOr _ (Text.encodes_of _), hp.values _⟩
  | next => rw [none?_eq_some h]; simp [told]
  | done =>
    obtain ⟨id, hid, rfl⟩ := one?_eq_some h
    simp only [told, List.forall_mem_cons, Option.mem_toList]
    exact ⟨hp.operands _ hid, hvalue _⟩
  | commit =>
    obtain ⟨given, hin, rfl⟩ := atMostOne?_eq_some h
    simp only [told, List.forall_mem_append]
    exact ⟨hgiven given hin, fun t ht => hvalue _ t (Option.mem_toList.mp ht)⟩
  | list =>
    rw [none?_eq_some h]
    simp only [told, List.forall_mem_cons, Option.mem_toList]
    exact ⟨hp.valueOr _ (Text.encodes_of _), hvalue _⟩
  | «export» => rw [none?_eq_some h]; simp [told]
  | test =>
    obtain ⟨given, hin, rfl⟩ := atMostOne?_eq_some h
    simp only [told, List.forall_mem_append]
    exact ⟨hgiven given hin, fun t ht => hvalue _ t (Option.mem_toList.mp ht)⟩
  | verify =>
    obtain ⟨id, hid, rfl⟩ := one?_eq_some h
    simp only [told, List.forall_mem_cons, List.forall_mem_append, Option.mem_toList]
    exact ⟨hp.operands _ hid, hvalue _, hvalue _⟩
  | browser =>
    dsimp only at h
    split at h
    · exact absurd h (by simp)
    · obtain ⟨timeout, -, rfl⟩ := Option.map_eq_some_iff.mp h
      simp [told]
  | review => rw [none?_eq_some h]; simp [told]

theorem encodes_parse? {name : Name} {args : List Text} (hargs : ∀ arg ∈ args, Encodes arg)
    (h : parse? name args = some c) : ∀ t ∈ c.told, Encodes t := by
  obtain ⟨p, hp, hc⟩ := Option.bind_eq_some_iff.mp h
  exact encodes_ofParsed? (Arguments.Grammar.encodes_read hargs hp) hc

end Command

end Acceptance
