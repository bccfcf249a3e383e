import Acceptance.Feature.Selection
import Acceptance.Proofs.Entry
import Acceptance.Proofs.JsonPrinting

/-! # Ordinary features

A feature whose id is a text, and whose priority and category are texts or missing, has a rank and is
counted. As long as their number can be written, the tally of such features can be printed. -/

namespace Acceptance

open Json (Encodable Printable)

/-! ## Numbers that can be written -/

theorem Value.isLongInt_mono {m n : Nat} (h : m ≤ n) (hn : isLongInt n = false) :
    isLongInt m = false := by
  unfold isLongInt at hn ⊢
  rw [decide_eq_false_iff_not, Int.natAbs_natCast] at hn ⊢
  exact fun hm => hn (hm.trans h)

theorem Value.isLongInt_zero : isLongInt 0 = false :=
  decide_eq_false (Nat.not_le.mpr (tenTo_pos mostDigits))

/-! ## Fields -/

/-- The text that a value is. -/
def Value.text? : Value → Option Text
  | .text t => some t
  | _ => none

/-- A text, or nothing. -/
def Value.IsLabel : Value → Prop
  | .null | .text _ => True
  | _ => False

/-- A label is a text, once there is one to stand in for a missing label. -/
theorem Value.IsLabel.exists_text {v : Value} (h : v.IsLabel) (standard : Text) :
    ∃ t, v.orElse (.text standard) = .text t ∧ (t = standard ∨ v = .text t) := by
  unfold Value.orElse
  cases v with
  | null => exact ⟨standard, rfl, .inl rfl⟩
  | text t =>
    split
    · exact ⟨t, rfl, .inr rfl⟩
    · exact ⟨standard, rfl, .inl rfl⟩
  | bool b => exact h.elim
  | int n => exact h.elim
  | real x => exact h.elim
  | moment m => exact h.elim
  | list items => exact h.elim
  | object entries => exact h.elim

theorem Value.IsLabel.encodes {v : Value} {standard : Text} (h : v.IsLabel) (hv : Encodable v)
    (hstandard : Text.Encodes standard) :
    ∃ t, Text.Encodes t ∧ v.orElse (.text standard) = .text t := by
  obtain ⟨t, ht, rfl | rfl⟩ := h.exists_text standard
  · exact ⟨t, hstandard, ht⟩
  · exact ⟨t, hv, ht⟩

namespace Entry

variable {e : Entries}

/-- The id is a text, and priority and category are texts or missing. -/
structure Ordinary (e : Entries) : Prop where
  id : ∃ t, e.get? "id" = some (.text t)
  priority : (e.getD "priority").IsLabel
  category : (e.getD "category").IsLabel

/-- One more attempt can be counted and written down. -/
def CountsUp (e : Entries) : Prop := ∃ n, attempts e = .ok n ∧ Value.isLongInt (n + 1) = false

/-- The id, if it is a text. -/
def idText (e : Entries) : Text := (Entry.id e).text?.getD []

/-- The rank of an entry whose priority is a text or missing. -/
def rankOfLabel (e : Entries) : Nat := rankOf ((e.getD "priority").text?.getD standardPriority)

theorem Ordinary.counted (h : Ordinary e) (he : Encodable (.object e)) : Counted e :=
  ⟨h.priority.encodes (he.getD _) (Text.encodes_of_all rfl),
    h.category.encodes (he.getD _) (Text.encodes_of_all rfl)⟩

theorem rank_of_label (hpriority : (e.getD "priority").IsLabel) : rank e = .ok (rankOfLabel e) := by
  unfold rank rankOfLabel
  generalize e.getD "priority" = v at hpriority ⊢
  cases v <;> first | rfl | exact hpriority.elim

theorem Ordinary.get?_id (h : Ordinary e) : e.get? "id" = some (.text (idText e)) := by
  obtain ⟨t, ht⟩ := h.id
  unfold idText Entry.id Entries.getD
  rw [ht]
  rfl

theorem Ordinary.hasId_iff (h : Ordinary e) {wanted : Text} :
    hasId e (.text wanted) = true ↔ idText e = wanted := by
  rw [hasId_text, h.get?_id, Option.some.injEq, Value.text.injEq]

end Entry

/-! ## Lists -/

namespace Selection

theorem keep_objects (p : Entries → Bool) (list : List Entries) :
    keep p (list.map .object) = .ok ((list.filter p).map .object) := by
  induction list with
  | nil => rfl
  | cons e rest ih =>
    rw [List.map_cons, keep]
    show (keep p (rest.map .object) >>= fun others =>
      .ok (if p e then Value.object e :: others else others)) = _
    rw [ih]
    cases hp : p e <;> simp [hp, bind, Except.bind]

/-- The entries of a status and a priority, in the order of the list. -/
theorem select_objects {name : Text} {status : Status} (hname : Status.ofName name = .ok status)
    (list : List Entries) (priority : Value) :
    select (list.map .object) name priority = .ok ((list.filter fun e =>
      status.admits e && (!priority.isTruthy || hasPriority priority e)).map .object) := by
  have hstatus : byStatus status (list.map .object) =
      .ok ((list.filter status.admits).map .object) := by
    cases status with
    | all => exact congrArg (fun kept => Except.ok (kept.map Value.object)) (List.filter_true _).symm
    | pending | done => exact keep_objects _ list
  unfold select
  rw [hname]
  show (byStatus status _ >>= _) = _
  rw [hstatus]
  show (if priority.isTruthy then _ else _) = _
  cases priority.isTruthy with
  | true => simp [keep_objects, List.filter_filter, Bool.and_comm]
  | false => simp

end Selection

/-! ## Counts that can be written -/

namespace Counts

/-- Nothing is counted more often than that. -/
def AtMost (n : Nat) (counts : Counts) : Prop :=
  ∀ c ∈ counts, c.2.total ≤ n ∧ c.2.completed ≤ n

variable {counts : Counts} {n : Nat}

theorem AtMost.add (h : counts.AtMost n) (key : Key) (passes : Bool) :
    (counts.add key passes).AtMost (n + 1) := by
  have hone : passes.toNat ≤ 1 := by cases passes <;> decide
  unfold AtMost at h ⊢
  induction counts with
  | nil =>
    intro c hc
    rw [Counts.add, List.mem_singleton] at hc
    rw [hc]
    exact ⟨by simp, by simpa using hone.trans (by omega)⟩
  | cons d rest ih =>
    obtain ⟨hd, hrest⟩ := List.forall_mem_cons.mp h
    rw [Counts.add]
    split
    · refine List.forall_mem_cons.mpr ⟨⟨by simpa using hd.1, ?_⟩, fun c hc => ?_⟩
      · dsimp only
        omega
      · exact ⟨(hrest c hc).1.trans (by omega), (hrest c hc).2.trans (by omega)⟩
    · exact List.forall_mem_cons.mpr
        ⟨⟨hd.1.trans (by omega), hd.2.trans (by omega)⟩, ih hrest⟩

theorem printable_toValue (hkeys : Json.TextKeys counts.entries) (h : counts.AtMost n)
    (hn : Value.isLongInt n = false) : Printable counts.toValue := by
  refine (Json.printable_object hkeys.texts).mpr fun e he => ?_
  refine ⟨hkeys.encodes e he, ?_⟩
  obtain ⟨c, hc, rfl⟩ := List.mem_map.mp he
  obtain ⟨htotal, hcompleted⟩ := h c hc
  refine Json.printable_record.mpr ?_
  simp only [List.forall_mem_cons]
  exact ⟨⟨Text.encodes_of_all rfl, Json.printable_int (Value.isLongInt_mono htotal hn)⟩,
    ⟨Text.encodes_of_all rfl, Json.printable_int (Value.isLongInt_mono hcompleted hn)⟩, by simp⟩

end Counts

namespace Tally

variable {entries : List Entries}

theorem atMost_addAll {byPriority byCategory : Counts} {counts : Counts × Counts} {n : Nat}
    (hadd : addAll byPriority byCategory entries = .ok counts) (hpriority : byPriority.AtMost n)
    (hcategory : byCategory.AtMost n) :
    counts.1.AtMost (n + entries.length) ∧ counts.2.AtMost (n + entries.length) := by
  induction entries generalizing byPriority byCategory n with
  | nil =>
    rw [← Except.ok.inj hadd]
    exact ⟨hpriority, hcategory⟩
  | cons e rest ih =>
    rw [addAll] at hadd
    obtain ⟨priority, -, hadd⟩ := Json.bind_eq_ok hadd
    obtain ⟨category, -, hadd⟩ := Json.bind_eq_ok hadd
    have hall := ih hadd (hpriority.add priority _) (hcategory.add category _)
    rwa [show n + 1 + rest.length = n + (e :: rest).length by rw [List.length_cons]; omega] at hall

/-- Features that are counted have a tally. It is kept by a file and can be printed, as long as the
number of features can be written. -/
theorem exists_tally (h : ∀ e ∈ entries, Entry.Counted e)
    (hcount : Value.isLongInt entries.length = false) :
    ∃ tally, ofEntries entries = .ok tally ∧ Json.Kept 3 tally.toValue ∧
      Printable tally.toValue := by
  obtain ⟨tally, htally, hkept⟩ := ofEntries_spec h
  refine ⟨tally, htally, hkept, ?_⟩
  have hempty : Json.TextKeys (Counts.entries []) :=
    ⟨by simp [Counts.entries], by simp [Counts.entries], List.nodup_nil⟩
  obtain ⟨⟨byPriority, byCategory⟩, hadd, hpriority, hcategory⟩ := addAll_spec h hempty hempty
  obtain ⟨hmostPriority, hmostCategory⟩ := atMost_addAll (n := 0) hadd
    (by simp [Counts.AtMost]) (by simp [Counts.AtMost])
  rw [Nat.zero_add] at hmostPriority hmostCategory
  unfold ofEntries at htally
  rw [hadd] at htally
  rw [← Except.ok.inj htally]
  have hcompleted := Value.isLongInt_mono
    (List.countP_le_length (p := Entry.passes) (l := entries)) hcount
  refine Json.printable_record.mpr ?_
  simp only [List.forall_mem_cons]
  refine ⟨⟨Text.encodes_of_all rfl, Json.printable_int hcount⟩,
    ⟨Text.encodes_of_all rfl, Json.printable_int hcompleted⟩,
    ⟨Text.encodes_of_all rfl, ?_⟩,
    ⟨Text.encodes_of_all rfl, Counts.printable_toValue hpriority hmostPriority hcount⟩,
    ⟨Text.encodes_of_all rfl, Counts.printable_toValue hcategory hmostCategory hcount⟩, by simp⟩
  unfold percentage
  split
  · exact Json.printable_int (Value.isLongInt_mono (Nat.zero_le _) hcount)
  · exact Json.printable_real _

end Tally

end Acceptance
