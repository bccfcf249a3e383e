import Acceptance.Proofs.Agenda
import Acceptance.Proofs.Neighbours

/-! # Counts and lists

The tally is made in one pass over the features, and the lists by status in passes of their own.
They agree: every feature is counted once under its priority and once under its category, in
whatever order the features come, and when one more is accepted, three numbers go up. -/

namespace Acceptance

variable {entries others : List Entries} {e u : Entries} {t : Text}

/-! ## Keys -/

namespace Key

variable {k : Key}

@[simp] theorem same_text : k.same (.text t) = true ↔ k = .text t := by
  have hnumber : (k.position?.isSome && k.position? == none) = false := by
    cases k.position? <;> rfl
  cases k with
  | text s => exact beq_iff_eq.trans ⟨fun h => h ▸ rfl, Key.text.inj⟩
  | int _ | real _ | bool _ => exact iff_of_false (ne_true_of_eq_false hnumber) (by simp)

@[simp] theorem text_same : (Key.text t).same k = true ↔ k = .text t := by
  cases k with
  | text s => exact beq_iff_eq.trans ⟨fun h => h ▸ rfl, fun h => (Key.text.inj h).symm⟩
  | int _ | real _ | bool _ => exact iff_of_false Bool.false_ne_true (by simp)

end Key

/-! ## Counts under a label -/

/-- How many of the entries satisfy `p`, and how many of these are accepted. -/
def Count.among (p : Entries → Bool) (entries : List Entries) : Count where
  total := entries.countP p
  completed := entries.countP fun e => p e && Entry.passes e

/-- One more is accepted, if this is so. -/
def Count.plus (c : Count) (more : Bool) : Count :=
  { c with completed := c.completed + more.toNat }

/-- One entry more is accepted, and it is counted as before. -/
theorem Count.among_set {p : Entries → Bool} {k : Nat} (hk : entries[k]? = some e)
    (hpending : Entry.passes e = false) (hpasses : Entry.passes u = true) (hp : p u = p e) :
    Count.among p (entries.set k u) = (Count.among p entries).plus (p e) := by
  obtain ⟨hlt, rfl⟩ := List.getElem?_eq_some_iff.mp hk
  obtain ⟨before, after, hentries, -, hset⟩ : ∃ before after,
      entries = before ++ entries[k] :: after ∧ before.length = k ∧
        entries.set k u = before ++ u :: after := List.exists_of_set hlt
  rw [hset]
  generalize entries[k] = e at hpending hp hentries ⊢
  subst hentries
  cases hpe : p e <;> simp [among, plus, hp, hpe, hpending, hpasses, Nat.add_assoc]

namespace Counts

variable {counts : Counts} {label : Entries → Key}

/-- What was counted under a text; nothing, if it did not come up. -/
def under (counts : Counts) (t : Text) : Count :=
  ((counts.find? fun c => c.1 = .text t).map (·.2)).getD { total := 0, completed := 0 }

theorem under_add (counts : Counts) (key : Key) (passes : Bool) (t : Text) :
    (counts.add key passes).under t = if key = .text t then
      { total := (counts.under t).total + 1
        completed := (counts.under t).completed + passes.toNat }
      else counts.under t := by
  induction counts with
  | nil => by_cases hkey : key = .text t <;> simp [add, under, hkey]
  | cons c rest ih =>
    rw [add]
    by_cases hc : c.1 = .text t
    · by_cases hkey : key = .text t
      · simp [under, hc, hkey]
      · rw [if_neg hkey, if_neg (by rw [hc, Key.text_same]; exact hkey)]
        simp [under, hc]
    · have hskip : ∀ (d : Count) (others : Counts), under ((c.1, d) :: others) t = under others t :=
        fun d others => by simp [under, hc]
      split
      next hsame =>
        have hkey : key ≠ .text t := by
          rintro rfl
          exact hc (Key.same_text.mp hsame)
        rw [hskip, if_neg hkey]
        exact (hskip c.2 rest).symm
      next => rw [hskip c.2, ih, show under (c :: rest) t = under rest t from hskip c.2 rest]

/-- The entries are counted one by one, each under its label. -/
def ofEntries (label : Entries → Key) (entries : List Entries) : Counts :=
  entries.foldl (fun counts e => counts.add (label e) (Entry.passes e)) []

@[simp] theorem ofEntries_nil (label : Entries → Key) : ofEntries label [] = [] := rfl

@[simp] theorem ofEntries_concat (label : Entries → Key) (entries : List Entries) (e : Entries) :
    ofEntries label (entries ++ [e]) =
      (ofEntries label entries).add (label e) (Entry.passes e) := by
  rw [ofEntries, List.foldl_append]
  rfl

theorem under_ofEntries (label : Entries → Key) (entries : List Entries) (t : Text) :
    (ofEntries label entries).under t = .among (fun e => label e = .text t) entries := by
  induction entries using List.reverseRecOn with
  | nil => rfl
  | append_singleton entries e ih =>
    rw [ofEntries_concat, under_add, ih]
    by_cases he : label e = .text t
    · cases hpasses : Entry.passes e <;> simp [Count.among, he, hpasses]
    · simp [Count.among, he]

/-! ## What the counts come to -/

/-- The counts are those of so many entries, so many of which are accepted: no key comes up twice,
and each stands for at least one entry. -/
structure Covers (counts : Counts) (total completed : Nat) : Prop where
  distinct : (counts.map (·.1)).Nodup
  texts : ∀ c ∈ counts, c.1.isText = true
  totals : (counts.map (·.2.total)).sum = total
  completed : (counts.map (·.2.completed)).sum = completed
  within : ∀ c ∈ counts, 0 < c.2.total ∧ c.2.completed ≤ c.2.total

theorem fst_mem_add {key : Key} {passes : Bool}
    (h : key ∈ (counts.add (.text t) passes).map (·.1)) :
    key = .text t ∨ key ∈ counts.map (·.1) := by
  induction counts with
  | nil => exact .inl (List.mem_singleton.mp h)
  | cons c rest ih =>
    rw [add] at h
    split at h
    · exact .inr h
    · rcases List.mem_cons.mp h with rfl | hrest
      · exact .inr List.mem_cons_self
      · exact (ih hrest).imp_right (List.mem_cons_of_mem _)

theorem Covers.add {total completed : Nat} (h : counts.Covers total completed) (t : Text)
    (passes : Bool) :
    (counts.add (.text t) passes).Covers (total + 1) (completed + passes.toNat) := by
  obtain ⟨hdistinct, htexts, rfl, rfl, hwithin⟩ := h
  have hone : passes.toNat ≤ 1 := Bool.toNat_le passes
  induction counts with
  | nil => exact ⟨by simp [Counts.add], by simp [Counts.add, Key.isText], by simp [Counts.add],
      by simp [Counts.add], by simpa [Counts.add] using hone⟩
  | cons c rest ih =>
    obtain ⟨hnew, hdistinct⟩ := List.nodup_cons.mp hdistinct
    obtain ⟨htext, htexts⟩ := List.forall_mem_cons.mp htexts
    obtain ⟨hc, hwithin⟩ := List.forall_mem_cons.mp hwithin
    obtain ⟨hdistinct', htexts', htotals, hcompleted, hwithin'⟩ := ih hdistinct htexts hwithin
    rw [Counts.add]
    split
    next hsame =>
      refine ⟨List.nodup_cons.mpr ⟨hnew, hdistinct⟩, List.forall_mem_cons.mpr ⟨htext, htexts⟩, ?_,
        ?_, List.forall_mem_cons.mpr ⟨?_, hwithin⟩⟩
      all_goals simp only [List.map_cons, List.sum_cons]
      all_goals omega
    next hother =>
      refine ⟨List.nodup_cons.mpr ⟨fun hmem => ?_, hdistinct'⟩,
        List.forall_mem_cons.mpr ⟨htext, htexts'⟩, ?_, ?_, List.forall_mem_cons.mpr ⟨hc, hwithin'⟩⟩
      · rcases fst_mem_add hmem with hkey | hmem
        · exact hother (Key.same_text.mpr hkey)
        · exact hnew hmem
      all_goals simp only [List.map_cons, List.sum_cons] at htotals hcompleted ⊢
      all_goals omega

theorem covers_ofEntries (hlabel : ∀ e ∈ entries, ∃ t, label e = .text t) :
    (ofEntries label entries).Covers entries.length (entries.countP Entry.passes) := by
  induction entries using List.reverseRecOn with
  | nil => exact ⟨by simp, by simp, by simp, by simp, by simp⟩
  | append_singleton entries e ih =>
    rw [List.forall_mem_append, List.forall_mem_singleton] at hlabel
    obtain ⟨t, ht⟩ := hlabel.2
    have hcovers := (ih hlabel.1).add t (Entry.passes e)
    rw [ofEntries_concat, ht]
    have hcompleted : (entries ++ [e]).countP Entry.passes =
        entries.countP Entry.passes + (Entry.passes e).toNat := by
      rw [List.countP_append, List.countP_singleton]
      cases Entry.passes e <;> rfl
    rwa [hcompleted, List.length_append]

theorem under_of_mem (hdistinct : (counts.map (·.1)).Nodup) {n : Count}
    (hmem : (Key.text t, n) ∈ counts) : counts.under t = n := by
  induction counts with
  | nil => exact absurd hmem List.not_mem_nil
  | cons c rest ih =>
    obtain ⟨hnew, hrest⟩ := List.nodup_cons.mp hdistinct
    rcases List.mem_cons.mp hmem with rfl | hmem
    · simp [under]
    · have hc : c.1 ≠ .text t := fun hc => hnew (List.mem_map.mpr ⟨_, hmem, hc.symm⟩)
      rw [← ih hrest hmem]
      simp [under, hc]

/-- Counts of which none is nothing consist of what is counted under the texts that come up. -/
theorem Covers.mem_iff {total completed : Nat} (h : counts.Covers total completed)
    {c : Key × Count} :
    c ∈ counts ↔ ∃ t, c = (.text t, counts.under t) ∧ 0 < (counts.under t).total := by
  constructor
  · intro hmem
    obtain ⟨key, n⟩ := c
    have htext := h.texts _ hmem
    cases key with
    | text t =>
      obtain rfl : counts.under t = n := under_of_mem h.distinct hmem
      exact ⟨t, rfl, (h.within _ hmem).1⟩
    | int _ | real _ | bool _ => exact absurd htext Bool.false_ne_true
  · rintro ⟨t, rfl, hpos⟩
    unfold under at hpos ⊢
    cases hfind : counts.find? fun c => c.1 = .text t with
    | none => simp [hfind] at hpos
    | some c =>
      have hkey : c.1 = .text t := by simpa using List.find?_some hfind
      exact hkey ▸ List.mem_of_find?_eq_some hfind

/-- Counts that agree on every text are the same, but for their order. -/
theorem Covers.perm {others : Counts} {total completed total' completed' : Nat}
    (h : counts.Covers total completed) (hothers : others.Covers total' completed')
    (hunder : ∀ t, counts.under t = others.under t) : counts.Perm others := by
  refine (List.perm_ext_iff_of_nodup (List.Nodup.of_map _ h.distinct)
    (List.Nodup.of_map _ hothers.distinct)).mpr fun c => ?_
  simp only [h.mem_iff, hothers.mem_iff, hunder]

end Counts

/-! ## The tally of entries -/

namespace Entry

/-- The key under which the entry is counted by priority. -/
def priorityKey (e : Entries) : Key := (Entry.priority e).key?.getD standardPriority

/-- The key under which the entry is counted by category. -/
def categoryKey (e : Entries) : Key := (Entry.category e).key?.getD standardCategory

/-- Priority and category can be keys. -/
structure Keyed (e : Entries) : Prop where
  priority : (Entry.priority e).key?.isSome = true
  category : (Entry.category e).key?.isSome = true

/-- Priority and category are texts or missing. -/
structure Labelled (e : Entries) : Prop where
  priority : (e.getD "priority").IsLabel
  category : (e.getD "category").IsLabel

theorem priorityKey_of_label (h : (e.getD "priority").IsLabel) :
    (Entry.priority e).key?.isSome = true ∧ ∃ t, priorityKey e = .text t := by
  obtain ⟨t, ht, -⟩ := h.exists_text standardPriority
  unfold priorityKey Entry.priority
  rw [ht]
  exact ⟨rfl, t, rfl⟩

theorem categoryKey_of_label (h : (e.getD "category").IsLabel) :
    (Entry.category e).key?.isSome = true ∧ ∃ t, categoryKey e = .text t := by
  obtain ⟨t, ht, -⟩ := h.exists_text standardCategory
  unfold categoryKey Entry.category
  rw [ht]
  exact ⟨rfl, t, rfl⟩

end Entry

namespace Tally

variable {byPriority byCategory : Counts} {counts : Counts × Counts} {tally : Tally}

open Entry (priorityKey categoryKey Keyed)

/-- What the tally of the entries is, if there is one. -/
def counted (entries : List Entries) : Tally where
  total := entries.length
  completed := entries.countP Entry.passes
  byPriority := .ofEntries priorityKey entries
  byCategory := .ofEntries categoryKey entries

theorem keyOf_eq_ok {v : Value} {key : Key} : keyOf v = .ok key ↔ v.key? = some key := by
  unfold keyOf
  cases v.key? <;> simp

theorem addAll_eq_ok : addAll byPriority byCategory entries = .ok counts ↔
    (∀ e ∈ entries, Keyed e) ∧ counts =
      (entries.foldl (fun counts e => counts.add (priorityKey e) (Entry.passes e)) byPriority,
        entries.foldl (fun counts e => counts.add (categoryKey e) (Entry.passes e)) byCategory) := by
  induction entries generalizing byPriority byCategory with
  | nil => simp [addAll, eq_comm]
  | cons e rest ih =>
    rw [addAll, List.forall_mem_cons, List.foldl_cons, List.foldl_cons, and_assoc]
    constructor
    · intro h
      obtain ⟨priority, hpriority, h⟩ := Json.bind_eq_ok h
      obtain ⟨category, hcategory, h⟩ := Json.bind_eq_ok h
      have hpriority' := keyOf_eq_ok.mp hpriority
      have hcategory' := keyOf_eq_ok.mp hcategory
      refine ⟨⟨by rw [hpriority']; rfl, by rw [hcategory']; rfl⟩, ?_⟩
      rw [priorityKey, hpriority', categoryKey, hcategory']
      exact ih.mp h
    · rintro ⟨⟨hpriority, hcategory⟩, h⟩
      obtain ⟨priority, hpriority⟩ := Option.isSome_iff_exists.mp hpriority
      obtain ⟨category, hcategory⟩ := Option.isSome_iff_exists.mp hcategory
      rw [priorityKey, hpriority, categoryKey, hcategory] at h
      rw [keyOf_eq_ok.mpr hpriority, keyOf_eq_ok.mpr hcategory]
      exact ih.mpr h

/-- Entries have a tally if their priorities and categories can be keys. -/
theorem ofValues_eq_ok : ofValues (entries.map .object) = .ok tally ↔
    (∀ e ∈ entries, Keyed e) ∧ tally = counted entries := by
  rw [ofValues_objects]
  unfold ofEntries
  constructor
  · intro h
    obtain ⟨counts, hadd, h⟩ := Json.bind_eq_ok h
    obtain ⟨hkeyed, rfl⟩ := addAll_eq_ok.mp hadd
    exact ⟨hkeyed, (Except.ok.inj h).symm⟩
  · rintro ⟨hkeyed, rfl⟩
    rw [addAll_eq_ok.mpr ⟨hkeyed, rfl⟩]
    rfl

theorem labelled_keyed {e : Entries} (h : Entry.Labelled e) : Keyed e :=
  ⟨(Entry.priorityKey_of_label h.priority).1, (Entry.categoryKey_of_label h.category).1⟩

/-- What the counts and the lists by status of these entries have to do with one another. -/
structure Agrees (tally : Tally) (entries : List Entries) : Prop where
  total : tally.total = entries.length
  byPriority : tally.byPriority.Covers tally.total tally.completed
  byCategory : tally.byCategory.Covers tally.total tally.completed
  done : Selection.select (entries.map .object) "done" .null =
    .ok ((entries.filter fun e => Entry.passes e).map .object)
  pending : Selection.select (entries.map .object) "pending" .null =
    .ok ((entries.filter fun e => !Entry.passes e).map .object)
  completed : tally.completed = (entries.filter fun e => Entry.passes e).length
  left : tally.total - tally.completed = (entries.filter fun e => !Entry.passes e).length
  next : ∃ next, Selection.next (entries.map .object) = .ok next ∧
    (next = none ↔ (entries.filter fun e => !Entry.passes e) = [])

/-- The same is counted, but for the order in which the keys come up. -/
structure Same (tally other : Tally) : Prop where
  total : other.total = tally.total
  completed : other.completed = tally.completed
  byPriority : other.byPriority.Perm tally.byPriority
  byCategory : other.byCategory.Perm tally.byCategory

/-- One feature more is accepted, with these keys, and nothing else is counted differently. -/
structure OneMore (before after : Tally) (priority category : Key) : Prop where
  total : after.total = before.total
  completed : after.completed = before.completed + 1
  byPriority : ∀ t, after.byPriority.under t = (before.byPriority.under t).plus (priority = .text t)
  byCategory : ∀ t, after.byCategory.under t = (before.byCategory.under t).plus (category = .text t)

theorem agrees_counted (h : ∀ e ∈ entries, Entry.Labelled e) : (counted entries).Agrees entries where
  total := rfl
  byPriority := Counts.covers_ofEntries fun e he => (Entry.priorityKey_of_label (h e he).priority).2
  byCategory := Counts.covers_ofEntries fun e he => (Entry.categoryKey_of_label (h e he).category).2
  done := by
    have hname : Selection.Status.ofName "done" = .ok .done := rfl
    simp [Selection.select_objects hname, Selection.Status.admits, Value.isTruthy]
  pending := by
    have hname : Selection.Status.ofName "pending" = .ok .pending := rfl
    simp [Selection.select_objects hname, Selection.Status.admits, Value.isTruthy]
  completed := List.countP_eq_length_filter
  left := by
    have hall : entries.length = entries.countP (fun e => Entry.passes e) +
        entries.countP fun e => !Entry.passes e := by
      simpa using List.length_eq_countP_add_countP Entry.passes
    rw [← List.countP_eq_length_filter]
    exact Nat.sub_eq_of_eq_add' hall
  next := by
    refine ⟨_, Selection.next_eq fun e he => (h e he).priority, ?_⟩
    exact List.head?_eq_none_iff.trans Selection.agenda_eq_nil

theorem same_counted (h : ∀ e ∈ entries, Entry.Labelled e) (hperm : others.Perm entries) :
    (counted entries).Same (counted others) := by
  have hothers : ∀ e ∈ others, Entry.Labelled e := fun e he => h e (hperm.mem_iff.mp he)
  have hagrees := agrees_counted h
  have hagrees' := agrees_counted hothers
  have hamong : ∀ p, Count.among p others = Count.among p entries := fun p => by
    rw [Count.among, Count.among, hperm.countP_eq, hperm.countP_eq]
  refine ⟨hperm.length_eq, hperm.countP_eq _, ?_, ?_⟩
  · refine hagrees'.byPriority.perm hagrees.byPriority fun t => ?_
    show (Counts.ofEntries _ _).under t = (Counts.ofEntries _ _).under t
    rw [Counts.under_ofEntries, Counts.under_ofEntries, hamong]
  · refine hagrees'.byCategory.perm hagrees.byCategory fun t => ?_
    show (Counts.ofEntries _ _).under t = (Counts.ofEntries _ _).under t
    rw [Counts.under_ofEntries, Counts.under_ofEntries, hamong]

theorem oneMore_counted {k : Nat} {notes : Option Text} {now : Instant}
    (hk : entries[k]? = some e) (hpending : Entry.passes e = false)
    (hcomplete : Entry.complete e (Value.ofText? notes) now = .ok u) :
    (counted entries).OneMore (counted (entries.set k u)) (priorityKey e) (categoryKey e) := by
  have hpasses : Entry.passes u = true := by
    unfold Entry.passes
    rw [Entry.getD_of_get? (Entry.becomes_of_complete hcomplete).passes]
    rfl
  have hpriority : priorityKey u = priorityKey e := by
    unfold priorityKey Entry.priority
    rw [Entry.getD_complete (by decide) hcomplete]
  have hcategory : categoryKey u = categoryKey e := by
    unfold categoryKey Entry.category
    rw [Entry.getD_complete (by decide) hcomplete]
  have hset : ∀ p : Entries → Bool, p u = p e →
      Count.among p (entries.set k u) = (Count.among p entries).plus (p e) :=
    fun p hp => Count.among_set hk hpending hpasses hp
  refine ⟨List.length_set, ?_, fun t => ?_, fun t => ?_⟩
  · show (entries.set k u).countP Entry.passes = entries.countP Entry.passes + 1
    simpa [Count.among, Count.plus] using congrArg Count.completed (hset (fun _ => true) rfl)
  · show (Counts.ofEntries _ _).under t = ((Counts.ofEntries _ _).under t).plus _
    rw [Counts.under_ofEntries, Counts.under_ofEntries, hset _ (by rw [hpriority])]
  · show (Counts.ofEntries _ _).under t = ((Counts.ofEntries _ _).under t).plus _
    rw [Counts.under_ofEntries, Counts.under_ofEntries, hset _ (by rw [hcategory])]

theorem labelled_complete {notes : Value} {now : Instant} (he : Entry.Labelled e)
    (hcomplete : Entry.complete e notes now = .ok u) : Entry.Labelled u where
  priority := by
    rw [Entry.getD_complete (by decide) hcomplete]
    exact he.priority
  category := by
    rw [Entry.getD_complete (by decide) hcomplete]
    exact he.category

/-- Features whose priorities and categories are texts or missing have a tally that agrees with the
lists by status and with what is next. The order of the features does not matter, and to accept one
that was pending raises three counts by one. -/
theorem counts_agree (h : ∀ e ∈ entries, Entry.Labelled e) : ∃ tally : Tally,
    ofValues (entries.map .object) = .ok tally ∧ tally.Agrees entries ∧
    (∀ others : List Entries, others.Perm entries → ∃ other : Tally,
      ofValues (others.map .object) = .ok other ∧ tally.Same other) ∧
    ∀ (k : Nat) (e u : Entries) (notes : Option Text) (now : Instant),
      entries[k]? = some e → Entry.passes e = false →
      Entry.complete e (Value.ofText? notes) now = .ok u → ∃ after : Tally,
        ofValues ((entries.set k u).map .object) = .ok after ∧
        tally.OneMore after (priorityKey e) (categoryKey e) := by
  have hkeyed : ∀ {list : List Entries}, (∀ e ∈ list, Entry.Labelled e) →
      ofValues (list.map .object) = .ok (counted list) := fun hlist =>
    ofValues_eq_ok.mpr ⟨fun e he => labelled_keyed (hlist e he), rfl⟩
  refine ⟨counted entries, hkeyed h, agrees_counted h, fun others hperm => ?_,
    fun k e u notes now hk hpending hcomplete => ?_⟩
  · exact ⟨counted others, hkeyed fun e he => h e (hperm.mem_iff.mp he), same_counted h hperm⟩
  · have he := h e (List.mem_of_getElem? hk)
    refine ⟨counted (entries.set k u), hkeyed fun f hf => ?_,
      oneMore_counted hk hpending hcomplete⟩
    rcases List.mem_or_eq_of_mem_set hf with hf | rfl
    · exact h f hf
    · exact labelled_complete he hcomplete

/-- Two urgent features, of which one is accepted, and one without a priority. -/
def threeFeatures : List Entries :=
  [[("priority", .text "high"), ("passes", .bool true)], [("priority", .text "high")],
    [("category", .text "style"), ("priority", .null)]]

theorem counts_agree_three : ∃ tally after : Tally,
    ofValues (threeFeatures.map .object) = .ok tally ∧ tally.Agrees threeFeatures ∧
    tally.byPriority = [(.text "high", { total := 2, completed := 1 }),
      (.text "medium", { total := 1, completed := 0 })] ∧
    (∃ other : Tally, ofValues (threeFeatures.reverse.map .object) = .ok other ∧
      tally.Same other) ∧
    tally.OneMore after (.text "medium") (.text "style") ∧
    after.byPriority.under "medium" = { total := 1, completed := 1 } := by
  have hlabelled : ∀ e ∈ threeFeatures, Entry.Labelled e := by
    simp only [threeFeatures, List.forall_mem_cons]
    exact ⟨⟨trivial, trivial⟩, ⟨trivial, trivial⟩, ⟨trivial, trivial⟩, by simp⟩
  obtain ⟨tally, htally, hagrees, hsame, hmore⟩ := counts_agree hlabelled
  obtain rfl : counted threeFeatures = tally := (ofValues_eq_ok.mp htally).2.symm
  obtain ⟨after, hafter, hone⟩ := hmore 2 _ _ none ⟨0, by decide⟩ rfl rfl rfl
  obtain rfl : counted _ = after := (ofValues_eq_ok.mp hafter).2.symm
  exact ⟨_, _, htally, hagrees, by decide +kernel, hsame _ (List.reverse_perm _), hone,
    by decide +kernel⟩

end Tally

/-! ## Lists by priority -/

namespace Entry

/-- There is no priority, or an empty one. -/
def lacksPriority (e : Entries) : Bool := !(e.getD "priority").isTruthy

theorem priorityKey_of_lacks (h : lacksPriority e = true) :
    priorityKey e = .text standardPriority := by
  unfold lacksPriority at h
  unfold priorityKey Entry.priority Value.orElse
  rw [if_neg (by simpa using h)]
  rfl

/-- An entry with a priority is counted under it, and listed under it. -/
theorem priorityKey_of_not_lacks (hlabel : (e.getD "priority").IsLabel)
    (h : lacksPriority e = false) :
    priorityKey e = .text t ↔ Selection.hasPriority (.text t) e = true := by
  unfold lacksPriority at h
  unfold priorityKey Entry.priority Value.orElse Selection.hasPriority
  rw [if_pos (by simpa using h), Value.equals_text]
  generalize e.getD "priority" = v at h hlabel
  cases v with
  | null => exact absurd h (by simp [Value.isTruthy])
  | text s => simp [Value.key?]
  | bool b => exact hlabel.elim
  | int n => exact hlabel.elim
  | real x => exact hlabel.elim
  | moment m => exact hlabel.elim
  | list items => exact hlabel.elim
  | object entries => exact hlabel.elim

theorem not_listed_of_lacks (ht : t ≠ []) (h : lacksPriority e = true) :
    Selection.hasPriority (.text t) e = false := by
  unfold lacksPriority at h
  refine Bool.eq_false_iff.mpr fun hlisted => ?_
  rw [Selection.hasPriority, Value.equals_text] at hlisted
  rw [hlisted] at h
  simp [Value.isTruthy, ht] at h

end Entry

namespace Tally

open Entry (lacksPriority priorityKey)

theorem countP_priorityKey (h : ∀ e ∈ entries, (e.getD "priority").IsLabel) (ht : t ≠ [])
    (p : Entries → Bool) :
    entries.countP (fun e => decide (priorityKey e = .text t) && p e) =
      entries.countP (fun e => p e && Selection.hasPriority (.text t) e) +
        if t = Entry.standardPriority then entries.countP fun e => lacksPriority e && p e else 0 := by
  rw [List.countP_eq_countP_filter_add entries _ lacksPriority, List.countP_filter,
    List.countP_filter, Nat.add_comm]
  congr 1
  · refine List.countP_congr fun e he => ?_
    cases hlacks : lacksPriority e with
    | true => simp [Entry.not_listed_of_lacks ht hlacks]
    | false => simp [Entry.priorityKey_of_not_lacks (h e he) hlacks, and_comm]
  · split
    next hstandard =>
      refine List.countP_congr fun e _ => ?_
      cases hlacks : lacksPriority e with
      | true => simp [Entry.priorityKey_of_lacks hlacks, hstandard]
      | false => simp
    next hother =>
      refine List.countP_eq_zero.mpr fun e _ => ?_
      cases hlacks : lacksPriority e with
      | true => simp [Entry.priorityKey_of_lacks hlacks, Ne.symm hother]
      | false => simp

/-- The list of a priority holds the features that have it, and the tally counts these and, under
the usual priority, those that have none as well. There is a tally if the categories can be keys. -/
theorem listed_by_priority (h : ∀ e ∈ entries, (e.getD "priority").IsLabel) (ht : t ≠ []) :
    ((∃ tally, ofValues (entries.map .object) = .ok tally) ↔
      ∀ e ∈ entries, (Entry.category e).key?.isSome = true) ∧
    ∃ listed done : List Entries,
      listed = entries.filter (fun e => Selection.hasPriority (.text t) e) ∧
      done = listed.filter (fun e => Entry.passes e) ∧
      Selection.select (entries.map .object) "all" (.text t) = .ok (listed.map .object) ∧
      Selection.select (entries.map .object) "done" (.text t) = .ok (done.map .object) ∧
      ∀ tally, ofValues (entries.map .object) = .ok tally →
        (tally.byPriority.under t).total = listed.length +
          (if t = Entry.standardPriority then entries.countP lacksPriority else 0) ∧
        (tally.byPriority.under t).completed = done.length +
          if t = Entry.standardPriority then
            entries.countP fun e => lacksPriority e && Entry.passes e
          else 0 := by
  have hall : Selection.Status.ofName "all" = .ok .all := rfl
  have hdone : Selection.Status.ofName "done" = .ok .done := rfl
  have htruthy : (Value.text t).isTruthy = true := by simpa [Value.isTruthy] using ht
  refine ⟨?_, _, _, rfl, rfl, ?_, ?_, fun tally htally => ?_⟩
  · simp only [ofValues_eq_ok, exists_and_left, exists_eq, and_true]
    exact ⟨fun hkeyed e he => (hkeyed e he).category, fun hcategory e he =>
      ⟨(Entry.priorityKey_of_label (h e he)).1, hcategory e he⟩⟩
  · simp [Selection.select_objects hall, Selection.Status.admits, htruthy]
  · simp [Selection.select_objects hdone, Selection.Status.admits, htruthy, List.filter_filter]
  · obtain ⟨-, rfl⟩ := ofValues_eq_ok.mp htally
    rw [List.filter_filter, ← List.countP_eq_length_filter, ← List.countP_eq_length_filter]
    show ((Counts.ofEntries _ _).under t).total = _ ∧ ((Counts.ofEntries _ _).under t).completed = _
    rw [Counts.under_ofEntries]
    exact ⟨by simpa [Count.among] using countP_priorityKey h ht fun _ => true,
      countP_priorityKey h ht Entry.passes⟩

/-- One feature that is listed under its priority, and one that has none. -/
theorem listed_by_priority_two :
    ∃ listed : List Entries, listed.length = 1 ∧
      Selection.select [.object [("priority", .text "medium")], .object []] "all"
        (.text "medium") = .ok (listed.map .object) ∧
      ∀ tally, ofValues [.object [("priority", .text "medium")], .object []] = .ok tally →
        (tally.byPriority.under "medium").total = listed.length + 1 := by
  have hlabels : ∀ e ∈ ([[("priority", .text "medium")], []] : List Entries),
      (e.getD "priority").IsLabel := by
    simp only [List.forall_mem_cons]
    exact ⟨trivial, trivial, by simp⟩
  obtain ⟨-, listed, done, hlisted, -, hselect, -, hcounts⟩ :=
    listed_by_priority (t := Entry.standardPriority) hlabels (by decide)
  exact ⟨listed, hlisted ▸ by decide +kernel, hselect, fun tally htally => (hcounts tally htally).1⟩

/-- A feature without a priority is counted under the usual one, and it is not listed there. -/
theorem not_listed_as_counted :
    Selection.select [.object [("id", .text "a")]] "all" (.text "medium") = .ok [] ∧
    ∃ tally, ofValues [.object [("id", .text "a")]] = .ok tally ∧
      (tally.byPriority.under "medium").total = 1 :=
  ⟨rfl, _, rfl, by decide +kernel⟩

end Tally

end Acceptance
