import Mathlib.Data.List.Sort
import Acceptance.Proofs.Ordinary

/-! # The agenda

Which feature is next is decided anew each time, by looking for the most urgent one. In effect the
features that are pending are taken in the order of a stable sort by rank: the next one is the first
of it, and to take features away does not change the order of the others. -/

namespace Acceptance

/-! ## Sorting by a number -/

section

variable {α β : Type} (f : α → Nat)

/-- The list in the order of a number; of equal ones the first comes first. -/
def sortBy (list : List α) : List α := list.mergeSort fun a b => f a ≤ f b

variable {f} {list : List α}

theorem pairwise_sortBy (list : List α) : (sortBy f list).Pairwise fun a b => f a ≤ f b := by
  have hsorted := @List.pairwise_mergeSort α (fun a b => decide (f a ≤ f b))
    (by simp only [decide_eq_true_eq]; intros; omega)
    (by simp only [Bool.or_eq_true, decide_eq_true_eq]; intros; omega) list
  simpa [sortBy] using hsorted

theorem perm_sortBy (list : List α) : (sortBy f list).Perm list := List.mergeSort_perm _ _

/-- A new element in front is sorted in before those that are not below it. -/
theorem sortBy_cons (a : α) (list : List α) : ∃ below rest, sortBy f list = below ++ rest ∧
    sortBy f (a :: list) = below ++ a :: rest ∧ (∀ b ∈ below, f b < f a) ∧
    ∀ b ∈ rest, f a ≤ f b := by
  obtain ⟨below, rest, hcons, hlist, hbelow⟩ := @List.mergeSort_cons α
    (fun a b => decide (f a ≤ f b)) (by simp only [decide_eq_true_eq]; intros; omega)
    (by simp only [Bool.or_eq_true, decide_eq_true_eq]; intros; omega) a list
  refine ⟨below, rest, hlist, hcons, fun b hb => ?_, fun b hb => ?_⟩
  · have hb' := hbelow b hb
    rw [Bool.not_eq_true', decide_eq_false_iff_not] at hb'
    omega
  · have hsorted := pairwise_sortBy (f := f) (a :: list)
    have hwhole : sortBy f (a :: list) = below ++ a :: rest := hcons
    rw [hwhole] at hsorted
    exact List.rel_of_pairwise_cons (List.pairwise_append.mp hsorted).2.1 hb

theorem head?_sortBy_cons (a : α) (list : List α) :
    (sortBy f (a :: list)).head? =
      match (sortBy f list).head? with
      | some b => if f b < f a then some b else some a
      | none => some a := by
  obtain ⟨below, rest, hlist, hcons, hbelow, hrest⟩ := sortBy_cons (f := f) a list
  rw [hcons, hlist]
  cases below with
  | cons b below =>
    have hb := hbelow b List.mem_cons_self
    simp [hb]
  | nil =>
    cases rest with
    | nil => rfl
    | cons b rest =>
      have hb := hrest b List.mem_cons_self
      simp [Nat.not_lt.mpr hb]

/-- Where a list falls into elements below a number and others, it does so in one way. -/
theorem split_unique {n : Nat} {below below' rest rest' : List α}
    (h : below ++ rest = below' ++ rest') (hbelow : ∀ b ∈ below, f b < n)
    (hbelow' : ∀ b ∈ below', f b < n) (hrest : ∀ b ∈ rest, n ≤ f b)
    (hrest' : ∀ b ∈ rest', n ≤ f b) : below = below' ∧ rest = rest' := by
  induction below generalizing below' with
  | nil =>
    cases below' with
    | nil => exact ⟨rfl, h⟩
    | cons c below' =>
      have hc : n ≤ f c := hrest c (by rw [List.nil_append] at h; rw [h]; simp)
      have hc' := hbelow' c List.mem_cons_self
      omega
  | cons b below ih =>
    have hb := hbelow b List.mem_cons_self
    cases below' with
    | nil =>
      have hb' : n ≤ f b := hrest' b (by rw [List.nil_append] at h; rw [← h]; simp)
      omega
    | cons c below' =>
      rw [List.cons_append, List.cons_append, List.cons.injEq] at h
      obtain ⟨rfl, hrest''⟩ := ih h.2 (fun d hd => hbelow d (List.mem_cons_of_mem b hd))
        fun d hd => hbelow' d (List.mem_cons_of_mem c hd)
      exact ⟨by rw [h.1], hrest''⟩

/-- To take elements away does not change the order of the others. -/
theorem filter_sortBy (p : α → Bool) (list : List α) :
    (sortBy f list).filter p = sortBy f (list.filter p) := by
  induction list with
  | nil => simp [sortBy]
  | cons a list ih =>
    obtain ⟨below, rest, hlist, hcons, hbelow, hrest⟩ := sortBy_cons (f := f) a list
    rw [hcons, List.filter_append]
    rw [hlist, List.filter_append] at ih
    cases hp : p a with
    | false =>
      rw [List.filter_cons_of_neg (by simp [hp]), List.filter_cons_of_neg (by simp [hp]), ih]
    | true =>
      rw [List.filter_cons_of_pos hp, List.filter_cons_of_pos hp]
      obtain ⟨below', rest', hlist', hcons', hbelow', hrest'⟩ :=
        sortBy_cons (f := f) a (list.filter p)
      obtain ⟨rfl, rfl⟩ := split_unique (f := f) (n := f a) (ih.trans hlist')
        (fun b hb => hbelow b (List.mem_of_mem_filter hb)) hbelow'
        (fun b hb => hrest b (List.mem_of_mem_filter hb)) hrest'
      exact hcons'.symm

theorem map_sortBy (g : α → β) (k : β → Nat) (hk : ∀ a, k (g a) = f a) (list : List α) :
    (sortBy f list).map g = sortBy k (list.map g) := by
  unfold sortBy
  refine List.map_mergeSort fun a _ b _ => ?_
  rw [hk, hk]

end

/-! ## What is next -/

namespace Selection

variable {entries : List Entries}

/-- The entries that are still to be done, the most urgent first; equally urgent ones stay in
order. -/
def agenda (entries : List Entries) : List Entries := sortBy Entry.rankOfLabel (pending entries)

theorem mem_agenda {e : Entries} : e ∈ agenda entries ↔ e ∈ entries ∧ Entry.passes e = false := by
  rw [agenda, (perm_sortBy _).mem_iff, pending, List.mem_filter, Bool.not_eq_true']

theorem length_agenda (list : List Entries) : (agenda list).length = (pending list).length :=
  (perm_sortBy _).length_eq

theorem agenda_eq_nil : agenda entries = [] ↔ pending entries = [] := by
  rw [← List.length_eq_zero_iff, length_agenda, List.length_eq_zero_iff]

theorem first?_eq (list : List Entries) :
    first? (list.map fun e => (Entry.rankOfLabel e, e)) =
      (sortBy Entry.rankOfLabel list).head?.map fun e => (Entry.rankOfLabel e, e) := by
  induction list with
  | nil => simp [first?, sortBy]
  | cons e rest ih =>
    rw [List.map_cons, first?, ih, head?_sortBy_cons]
    cases (sortBy Entry.rankOfLabel rest).head? with
    | none => rfl
    | some f =>
      dsimp only [Option.map_some]
      split <;> rfl

theorem ranked_eq {list : List Entries} (h : ∀ e ∈ list, (e.getD "priority").IsLabel) :
    ranked list = .ok (list.map fun e => (Entry.rankOfLabel e, e)) := by
  induction list with
  | nil => rfl
  | cons e rest ih =>
    obtain ⟨he, hrest⟩ := List.forall_mem_cons.mp h
    rw [ranked, Entry.rank_of_label he, ih hrest]
    rfl

/-- The next feature is the first on the agenda. -/
theorem next_eq (h : ∀ e ∈ entries, (e.getD "priority").IsLabel) :
    next (entries.map .object) = .ok (agenda entries).head? := by
  have hpending : ∀ e ∈ pending entries, (e.getD "priority").IsLabel :=
    fun e he => h e (List.mem_of_mem_filter he)
  unfold next
  rw [Entry.allFields_objects]
  show (ranked (pending entries) >>= fun ranked => .ok ((first? ranked).map (·.2))) = _
  rw [ranked_eq hpending]
  show Except.ok ((first? _).map (·.2)) = _
  rw [first?_eq, Option.map_map]
  exact congrArg Except.ok Option.map_id'

end Selection

end Acceptance
