import Acceptance.Proofs.Agenda
import Acceptance.Proofs.Bookkeeping
import Acceptance.Proofs.Changes

/-! # Working features off

To ask for the next feature and accept it, again and again, takes the pending features in the order
of the agenda, each of them once, and nothing else changes. When as many rounds are done as there
were pending features, all is done. -/

namespace Acceptance

open Json (Kept Printable SameFields)

variable {outside : Outside} {place : Place} {m m' : Machine} {entries now : List Entries}
  {ids : List Text}

/-! ## What an answer tells -/

/-- The value that the keys lead to. -/
def Value.at? : Value → List Text → Option Value
  | v, [] => some v
  | .object entries, key :: keys => (Entries.get? entries key).bind (at? · keys)
  | _, _ :: _ => none

namespace Json

/-- What a document says where the keys lead to. -/
def told? (document : Text) (keys : List Text) : Option Value :=
  (read document).toOption.bind (·.at? keys)

theorem at?_ordered {depth : Nat} {v : Value} (h : Kept depth v) (keys : List Text) :
    (ordered v).at? keys = (v.at? keys).map ordered := by
  induction keys generalizing depth v with
  | nil => cases v <;> rfl
  | cons key keys ih =>
    cases v with
    | object entries =>
      obtain ⟨depth, rfl⟩ := Nat.exists_eq_succ_of_ne_zero (Nat.pos_iff_ne_zero.mp h.1)
      have hkeys := (kept_object.mp h).1
      show (Entries.get? (inOrder entries) key).bind (Value.at? · keys) =
        ((Entries.get? entries key).bind (Value.at? · keys)).map ordered
      rw [get?_inOrder hkeys]
      cases hget : Entries.get? entries key with
      | none => rfl
      | some v => exact ih (kept_get? h hget)
    | null => rfl
    | bool b => rfl
    | int n => rfl
    | real x => rfl
    | text t => rfl
    | moment m => rfl
    | list items => rfl

/-- A document says what is in its value, but for the order. -/
theorem told?_of_write {v : Value} {document : Text} (h : Kept mostNested v)
    (hwrite : write v = .ok document) (keys : List Text) :
    told? document keys = (v.at? keys).map ordered := by
  unfold told?
  rw [read_write h hwrite]
  exact at?_ordered h keys

end Json

/-! ## Features on their way -/

namespace Entry

variable {depth : Nat} {e f u : Entries}

/-- What has become of a feature when those with the ids were accepted: it was accepted once, or
nothing happened to it. -/
def Traces (ids : List Text) (e f : Entries) : Prop :=
  if idText e ∈ ids then
    passes e = false ∧ ∃ notes now u, complete e notes now = .ok u ∧ SameFields f u
  else SameFields f e

/-- The rank and the id. -/
def key (e : Entries) : Nat × Text := (rankOfLabel e, idText e)

theorem idText_of_traces (h : Traces ids e f) : idText f = idText e := by
  unfold Traces at h
  split at h
  · obtain ⟨-, notes, now, u, hu, hsame⟩ := h
    rw [idText_of_sameFields hsame, idText_complete hu]
  · exact idText_of_sameFields h

theorem passes_of_traces (h : Traces ids e f) (hid : idText e ∈ ids) : passes f = true := by
  unfold Traces at h
  rw [if_pos hid] at h
  obtain ⟨-, notes, now, u, hu, hsame⟩ := h
  obtain ⟨n, -, rfl⟩ := complete_eq_ok hu
  have hfield := hsame "passes"
  rw [Entries.get?_set_of_ne (by decide), Entries.get?_set_of_ne (by decide),
    Entries.get?_set_of_ne (by decide), Entries.get?_set_of_ne (by decide),
    Entries.get?_set_self] at hfield
  obtain ⟨v, hv, hv'⟩ := Option.map_eq_some_iff.mp hfield
  cases v <;> simp only [Json.ordered, reduceCtorEq] at hv'
  unfold passes
  rw [getD_of_get? hv, hv']
  rfl

theorem Ordinary.traced (he : Ordinary e) (h : Traces ids e f) : Ordinary f := by
  unfold Traces at h
  split at h
  · obtain ⟨-, notes, now, u, hu, hsame⟩ := h
    exact (he.complete hu).of_sameFields hsame.symm
  · exact he.of_sameFields h.symm

theorem sameFields_of_traces (h : Traces ids e f) (hid : idText e ∉ ids) : SameFields f e := by
  unfold Traces at h
  rwa [if_neg hid] at h

end Entry

/-! ## The agenda of what is left -/

namespace Selection

open Entry (Traces)

theorem keys_pending (h : List.Forall₂ (Traces ids) entries now)
    (hentries : ∀ e ∈ entries, Kept 983 (.object e)) (hnow : ∀ e ∈ now, Kept 983 (.object e)) :
    (pending now).map Entry.key = ((pending entries).map Entry.key).filter (·.2 ∉ ids) := by
  induction h with
  | nil => rfl
  | @cons e f rest rest' hef hrest ih =>
    obtain ⟨he, hentries⟩ := List.forall_mem_cons.mp hentries
    obtain ⟨hf, hnow⟩ := List.forall_mem_cons.mp hnow
    have hih := ih hentries hnow
    unfold pending at hih ⊢
    by_cases hid : Entry.idText e ∈ ids
    · have hpassed := Entry.passes_of_traces hef hid
      rw [List.filter_cons_of_neg (by simp [hpassed]), hih, List.filter_cons]
      split
      · rw [List.map_cons, List.filter_cons_of_neg (by simp [Entry.key, hid])]
      · rfl
    · have hsame := Entry.sameFields_of_traces hef hid
      have hpasses := Entry.passes_of_sameFields hf he hsame
      have hkey : Entry.key f = Entry.key e := Prod.ext (Entry.rankOfLabel_of_sameFields hsame)
        (Entry.idText_of_sameFields hsame)
      rw [List.filter_cons, List.filter_cons, hpasses]
      split
      · rw [List.map_cons, List.map_cons, List.filter_cons_of_pos (by simp [Entry.key, hid]),
          hih, hkey]
      · exact hih

/-- What is left of the agenda. -/
theorem ids_agenda (h : List.Forall₂ (Traces ids) entries now)
    (hentries : ∀ e ∈ entries, Kept 983 (.object e)) (hnow : ∀ e ∈ now, Kept 983 (.object e)) :
    (agenda now).map Entry.idText = ((agenda entries).map Entry.idText).filter (· ∉ ids) := by
  have hkeys : ∀ list : List Entries, (agenda list).map Entry.key =
      sortBy Prod.fst ((pending list).map Entry.key) :=
    fun list => map_sortBy (f := Entry.rankOfLabel) Entry.key Prod.fst (fun _ => rfl) (pending list)
  have hids : ∀ list : List Entries, list.map Entry.idText = (list.map Entry.key).map Prod.snd := by
    intro list
    rw [List.map_map]
    rfl
  rw [hids, hids, hkeys, hkeys, keys_pending h hentries hnow, ← filter_sortBy, List.filter_map]
  rfl

theorem nodup_agenda (h : (entries.map Entry.idText).Nodup) :
    ((agenda entries).map Entry.idText).Nodup := by
  have hperm := (perm_sortBy (f := Entry.rankOfLabel) (pending entries)).map Entry.idText
  exact hperm.nodup_iff.mpr (h.sublist (List.filter_sublist.map _))

end Selection

/-! ## One round -/

theorem Machine.Ready.of_directories (h : m.Ready place) (hsetting : m'.setting = m.setting)
    (hdirectories : ∀ q, m.files.get? q = some .directory → m'.files.get? q = some .directory) :
    m'.Ready place where
  reaches outside := by
    obtain ⟨p, hpath, hfit, hlocate⟩ := h.reaches outside
    refine ⟨p, ?_, hfit, ?_⟩
    · rw [Layout.asks_featuresFile.run outside hsetting, hpath]
    · have hdirectory : m'.directory = m.directory := congrArg Setting.directory hsetting
      rw [hdirectory]
      exact FileTree.locate_of_directories hdirectories hlocate
  clock outside := by
    obtain ⟨now, hnow⟩ := h.clock outside
    exact ⟨now, by rw [Layout.asks_now.run outside hsetting, hnow]⟩

/-- Features that can be worked off: each is ordinary and has an id of its own, and what is still to
be done can be counted. -/
structure Workable (entries : List Entries) : Prop where
  ordinary : ∀ e ∈ entries, Entry.Ordinary e
  distinct : (entries.map Entry.idText).Nodup
  countsUp : ∀ e ∈ entries, Entry.passes e = false → Entry.CountsUp e
  count : Value.isLongInt entries.length = false

theorem Entry.place_eq (hdistinct : (entries.map Entry.idText).Nodup) {j k : Nat} {f e : Entries}
    (hj : entries[j]? = some f) (hk : entries[k]? = some e) (hsame : Entry.idText f = Entry.idText e) :
    j = k := by
  obtain ⟨hjlt, rfl⟩ := List.getElem?_eq_some_iff.mp hj
  obtain ⟨hklt, rfl⟩ := List.getElem?_eq_some_iff.mp hk
  have hplaces := hdistinct.get_inj_iff (i := ⟨j, by simpa using hjlt⟩)
    (j := ⟨k, by simpa using hklt⟩)
  simp only [List.get_eq_getElem, List.getElem_map, Fin.mk.injEq] at hplaces
  exact hplaces.mp hsame

namespace Project

theorem locate_of_distinct (hordinary : ∀ e ∈ entries, Entry.Ordinary e)
    (hdistinct : (entries.map Entry.idText).Nodup) {k : Nat} {e : Entries}
    (hk : entries[k]? = some e) :
    locate (.text (Entry.idText e)) (entries.map .object) = .ok (k, e) := by
  refine locate_of_first hk ((hordinary e (List.mem_of_getElem? hk)).hasId_iff.mpr rfl) ?_
  intro j f hj hf
  rw [Bool.eq_false_iff]
  intro hid
  have hsame := (hordinary f (List.mem_of_getElem? hf)).hasId_iff.mp hid
  exact absurd (Entry.place_eq hdistinct hf hk hsame) (by omega)

end Project

namespace Entry

theorem Traces.inOrder {e f : Entries} (h : Traces ids e f) (hf : Kept 983 (.object f)) :
    Traces ids e (Json.inOrder f) := by
  have hsame := Json.sameFields_inOrder hf
  unfold Traces at h ⊢
  split
  next hid =>
    rw [if_pos hid] at h
    obtain ⟨hpasses, notes, now, u, hu, hfu⟩ := h
    exact ⟨hpasses, notes, now, u, hu, hsame.trans hfu⟩
  next hid =>
    rw [if_neg hid] at h
    exact hsame.trans h

/-- A feature that is accepted has been accepted once, and nothing else happened to the others. -/
theorem traces_set {k : Nat} {e f u : Entries} {notes : Value} {t : Instant}
    (hdistinct : (entries.map idText).Nodup) (h : List.Forall₂ (Traces ids) entries now)
    (hentries : ∀ e ∈ entries, Kept 983 (.object e)) (hnow : ∀ e ∈ now, Kept 983 (.object e))
    (hnew : Kept 983 (.object u)) (hk : entries[k]? = some e) (hf : now[k]? = some f)
    (hid : idText e ∉ ids) (hpasses : passes e = false) (hu : complete f notes t = .ok u) :
    List.Forall₂ (Traces (ids ++ [idText e])) entries ((now.set k u).map Json.inOrder) := by
  obtain ⟨hlength, htraces⟩ := List.forall₂_iff_get.mp h
  refine List.forall₂_iff_get.mpr ⟨by rw [List.length_map, List.length_set, hlength], ?_⟩
  intro j hj hj'
  rw [List.get_eq_getElem, List.get_eq_getElem, List.getElem_map]
  have hjnow : j < now.length := hlength ▸ hj
  have hj₁ : entries[j]? = some entries[j] := List.getElem?_eq_getElem hj
  have hkeptj := hnow _ (List.getElem_mem hjnow)
  have htrace : Traces ids entries[j] now[j] := htraces j hj hjnow
  by_cases hjk : j = k
  · subst hjk
    obtain rfl : entries[j] = e := Option.some.inj (hj₁.symm.trans hk)
    obtain rfl : now[j] = f := Option.some.inj ((List.getElem?_eq_getElem hjnow).symm.trans hf)
    rw [List.getElem_set_self]
    have hsame := sameFields_of_traces htrace hid
    obtain ⟨w, hw, huw⟩ := complete_of_sameFields hkeptj (hentries _ (List.getElem_mem hj)) hsame hu
    unfold Traces
    rw [if_pos (by simp)]
    exact ⟨hpasses, notes, t, w, hw, (Json.sameFields_inOrder hnew).trans huw⟩
  · rw [List.getElem_set_of_ne (Ne.symm hjk)]
    have hother : idText entries[j] ≠ idText e := fun hsame => hjk (place_eq hdistinct hj₁ hk hsame)
    have hmem : idText entries[j] ∈ ids ++ [idText e] ↔ idText entries[j] ∈ ids := by
      simp [hother]
    have hinOrder := htrace.inOrder hkeptj
    unfold Traces at hinOrder ⊢
    rwa [if_congr hmem rfl rfl]

end Entry

namespace Workable

theorem of_traces (h : Workable entries) (htraces : List.Forall₂ (Entry.Traces ids) entries now)
    (hentries : ∀ e ∈ entries, Kept 983 (.object e)) (hnow : ∀ e ∈ now, Kept 983 (.object e)) :
    Workable now := by
  have hback : ∀ f ∈ now, ∃ e ∈ entries, Entry.Traces ids e f := by
    intro f hf
    obtain ⟨k, hk, rfl⟩ := List.mem_iff_getElem.mp hf
    obtain ⟨hlength, hget⟩ := List.forall₂_iff_get.mp htraces
    exact ⟨_, List.getElem_mem (hlength ▸ hk), hget k (hlength ▸ hk) hk⟩
  have hids : now.map Entry.idText = entries.map Entry.idText := by
    clear * - htraces
    induction htraces with
    | nil => rfl
    | cons hef _ ih => rw [List.map_cons, List.map_cons, ih, Entry.idText_of_traces hef]
  refine ⟨fun f hf => ?_, hids ▸ h.distinct, fun f hf hpasses => ?_, htraces.length_eq ▸ h.count⟩
  · obtain ⟨e, he, hef⟩ := hback f hf
    exact (h.ordinary e he).traced hef
  · obtain ⟨e, he, hef⟩ := hback f hf
    have hid : Entry.idText e ∉ ids := by
      intro hid
      rw [Entry.passes_of_traces hef hid] at hpasses
      exact absurd hpasses (by simp)
    have hsame := Entry.sameFields_of_traces hef hid
    have hpasses' := Entry.passes_of_sameFields (hnow f hf) (hentries e he) hsame
    obtain ⟨n, hn, hlong⟩ := h.countsUp e he (hpasses'.symm.trans hpasses)
    exact ⟨n, (Entry.attempts_of_sameFields (hnow f hf) (hentries e he) hsame).trans hn, hlong⟩

end Workable

/-! ## The commands -/

namespace CommandLine

/-- The feature that is told to be next, or nothing. -/
def toldFeature : Option Entries → Value
  | some e => .object e
  | none => .null

theorem run_next_of_ready (hready : m.Ready place) (hfeatures : m.Features place entries)
    (h : Workable entries) (outside : Outside) :
    ∃ document, runNext.run outside m = (.ok 0, printed m (document ++ "\n")) ∧
      Json.told? document ["data", "all_done"] =
        some (.bool (Selection.agenda entries).head?.isNone) ∧
      ∀ keys, Json.told? document ("data" :: "feature" :: keys) =
        ((toldFeature (Selection.agenda entries).head?).at? keys).map Json.ordered := by
  obtain ⟨p, data, hloaded⟩ := Project.exists_loaded hready hfeatures outside
  have hfit := hloaded.fit h.ordinary h.count
  generalize hnext : (Selection.agenda entries).head? = next
  have hmem : ∀ e ∈ next, e ∈ entries := by
    intro e he
    rw [← hnext] at he
    exact (Selection.mem_agenda.mp (List.mem_of_head? he)).1
  have hkept : Kept 983 (toldFeature next) := by
    cases next with
    | none => trivial
    | some e => exact hfit.kept e (hmem e rfl)
  have hprintable : Printable (toldFeature next) := by
    cases next with
    | none => exact Json.printable_null
    | some e => exact hfit.printable e (hmem e rfl)
  have hanswer : Kept Json.mostNested (Envelope.ok "next" (Value.record
      [("feature", toldFeature next), ("all_done", .bool next.isNone)])).toValue := by
    refine Envelope.kept_okWith (Text.encodes_of_all rfl) (Json.kept_record rfl ?_) (by simp)
    simp only [List.forall_mem_cons]
    exact ⟨hkept, trivial, by simp⟩
  have hprint : Printable (Envelope.ok "next" (Value.record
      [("feature", toldFeature next), ("all_done", .bool next.isNone)])).toValue := by
    refine Envelope.printable_ok (Text.encodes_of_all rfl) (Json.printable_record.mpr ?_)
    simp only [List.forall_mem_cons]
    exact ⟨⟨Text.encodes_of_all rfl, hprintable⟩,
      ⟨Text.encodes_of_all rfl, Json.printable_bool _⟩, by simp⟩
  obtain ⟨document, hwrite, hemit⟩ := run_emit_of_printable outside m hprint
  refine ⟨document, ?_, ?_, fun keys => ?_⟩
  · unfold runNext
    rw [run_prepared_ok _ _ hloaded.run]
    dsimp only
    rw [Selection.next_eq fun e he => (h.ordinary e he).priority, hnext, Task.run_ofExcept_ok_bind]
    cases next <;> exact hemit
  · rw [Json.told?_of_write hanswer hwrite]
    rfl
  · rw [Json.told?_of_write hanswer hwrite]
    rfl

theorem run_done_of_ready (hready : m.Ready place) (hfeatures : m.Features place entries)
    (h : Workable entries) {k : Nat} {e : Entries} (hk : entries[k]? = some e)
    (hpasses : Entry.passes e = false) {notes : Option Text} (hnotes : ∀ t ∈ notes, Text.Encodes t)
    (outside : Outside) :
    ∃ t u m', Entry.complete e (Value.ofText? notes) t = .ok u ∧ Kept 983 (.object u) ∧
      (runDone (Entry.idText e) notes).run outside m = (.ok 0, m') ∧ m'.Ready place ∧
      m'.Features place ((entries.set k u).map Json.inOrder) := by
  have hlocate := Project.locate_of_distinct h.ordinary h.distinct hk
  have hup := h.countsUp e (List.mem_of_getElem? hk) hpasses
  obtain ⟨t, u, tally, content, executable, hu, hprintable, htally, hrun, hsaved⟩ :=
    Project.run_markDone_of_ready hready hfeatures h.ordinary h.count hlocate hk hup hnotes outside
  obtain ⟨document, -, hemit⟩ := run_emit_of_printable outside (m.withFile place content executable)
    (printable_accepted hprintable htally)
  have hkept := hfeatures.kept e (List.mem_of_getElem? hk)
  refine ⟨t, u, printed (m.withFile place content executable) (document ++ "\n"), hu,
    Entry.kept_complete hkept (Json.kept_ofText? hnotes) hu, ?_, ?_, hsaved.of_files (refl_of _ _)⟩
  · unfold runDone
    rw [run_answer_ok _ _ hrun, Task.run_pure_bind, hemit]
    rfl
  · obtain ⟨content', executable', -, hfile, -⟩ := hfeatures
    have hnode : m.files.get? place ≠ some .directory := by
      rw [hfile]
      simp
    exact hready.of_directories rfl fun q hq => FileTree.directory_put hnode hq

end CommandLine

/-! ## Round by round -/

open CommandLine (runCommand printed)

/-- The features with the ids were worked off: in each round the next feature was asked for and then
accepted under the id that was told, and in between the file was left alone. -/
inductive WorkedOff (place : Place) (m₀ : Machine) : List Text → Machine → Prop
  | start : WorkedOff place m₀ [] m₀
  | rest {ids : List Text} {m m' : Machine} (h : WorkedOff place m₀ ids m)
      (hfiles : m.files.Spares place m'.files) (hready : m'.Ready place) :
      WorkedOff place m₀ ids m'
  | round {ids : List Text} {m m₁ m' : Machine} {outside outside' : Outside} {document id : Text}
      {notes : Option Text} (h : WorkedOff place m₀ ids m)
      (hnext : (runCommand .next).run outside m = (.ok 0, printed m (document ++ "\n")))
      (hid : Json.told? document ["data", "feature", "id"] = some (.text id))
      (hfiles : m.files.Spares place m₁.files) (hready : m₁.Ready place)
      (hnotes : ∀ t ∈ notes, Text.Encodes t)
      (hdone : (runCommand (.done id notes)).run outside' m₁ = (.ok 0, m')) :
      WorkedOff place m₀ (ids ++ [id]) m'

/-- The first features of the agenda are accepted, and the others are as they were. -/
structure UnderWay (place : Place) (entries : List Entries) (ids : List Text) (m : Machine) :
    Prop where
  ready : m.Ready place
  order : ids <+: (Selection.agenda entries).map Entry.idText
  features : ∃ now, m.Features place now ∧ List.Forall₂ (Entry.Traces ids) entries now

namespace UnderWay

/-- What comes behind the beginning of a list without repetitions. -/
theorem filter_eq_drop {list : List Text} (hdistinct : list.Nodup) (h : ids <+: list) :
    list.filter (· ∉ ids) = list.drop ids.length := by
  obtain ⟨rest, rfl⟩ := h
  have hapart := (List.nodup_append.mp hdistinct).2.2
  rw [List.drop_left, List.filter_append, List.filter_eq_nil_iff.mpr (by simp), List.nil_append,
    List.filter_eq_self]
  intro id hid
  simpa using fun hold => hapart id hold id hid rfl

variable (h : UnderWay place entries ids m) (hworkable : Workable entries)
  (hentries : ∀ e ∈ entries, Kept 983 (.object e))
include h hworkable hentries

/-- The next feature is one of those that were there at first, and it is as it was. -/
theorem exists_next : ∃ now, m.Features place now ∧ Workable now ∧
    (∀ f ∈ now, Kept 983 (.object f)) ∧ List.Forall₂ (Entry.Traces ids) entries now ∧
    (Selection.agenda now).head?.isNone = decide (ids.length = (Selection.pending entries).length) ∧
    ∀ f ∈ (Selection.agenda now).head?, ∃ (k : Nat) (e : Entries), now[k]? = some f ∧
      entries[k]? = some e ∧ (Selection.agenda entries)[ids.length]? = some e ∧
      Entry.passes f = false ∧ Entry.passes e = false ∧ Entry.idText e ∉ ids ∧
      Json.SameFields f e := by
  obtain ⟨now, hnow, htraces⟩ := h.features
  have hkept := hnow.kept
  have hwork := hworkable.of_traces htraces hentries hkept
  have hdistinct := Selection.nodup_agenda hworkable.distinct
  -- What is on the agenda now is what comes behind the ids.
  have hrest : (Selection.agenda now).map Entry.idText =
      ((Selection.agenda entries).map Entry.idText).drop ids.length := by
    rw [Selection.ids_agenda htraces hentries hkept, filter_eq_drop hdistinct h.order]
  have hlength : ids.length ≤ (Selection.pending entries).length := by
    rw [← Selection.length_agenda, ← List.length_map (f := Entry.idText)]
    exact h.order.length_le
  refine ⟨now, hnow, hwork, hkept, htraces, ?_, ?_⟩
  · rw [Bool.eq_iff_iff, Option.isNone_iff_eq_none, List.head?_eq_none_iff, decide_eq_true_eq,
      ← List.map_eq_nil_iff (f := Entry.idText), hrest, List.drop_eq_nil_iff, List.length_map,
      Selection.length_agenda]
    omega
  · intro f hf
    have hfirst : ((Selection.agenda entries).map Entry.idText)[ids.length]? =
        some (Entry.idText f) := by
      rw [← List.head?_drop, ← hrest, List.head?_map, hf, Option.map_some]
    rw [List.getElem?_map, Option.map_eq_some_iff] at hfirst
    obtain ⟨e, he, hid⟩ := hfirst
    obtain ⟨hmem, hpasses⟩ := Selection.mem_agenda.mp (List.mem_of_getElem? he)
    obtain ⟨hf, hpending⟩ := Selection.mem_agenda.mp (List.mem_of_head? hf)
    obtain ⟨j, hj⟩ := List.mem_iff_getElem?.mp hmem
    obtain ⟨k, hk, rfl⟩ := List.mem_iff_getElem.mp hf
    obtain ⟨hsize, hall⟩ := List.forall₂_iff_get.mp htraces
    have hk' : k < entries.length := hsize ▸ hk
    have htrace : Entry.Traces ids entries[k] now[k] := hall k hk' hk
    -- The ids are distinct, so there is one feature that it can come from.
    obtain rfl : k = j := Entry.place_eq hworkable.distinct (List.getElem?_eq_getElem hk') hj
      ((Entry.idText_of_traces htrace).symm.trans hid.symm)
    obtain rfl : entries[k] = e := Option.some.inj ((List.getElem?_eq_getElem hk').symm.trans hj)
    have hnew : Entry.idText entries[k] ∉ ids := by
      intro hold
      rw [Entry.passes_of_traces htrace hold] at hpending
      exact absurd hpending (by simp)
    exact ⟨k, entries[k], List.getElem?_eq_getElem hk, hj, he, hpending, hpasses, hnew,
      Entry.sameFields_of_traces htrace hnew⟩

theorem next (outside : Outside) :
    ∃ document, (runCommand .next).run outside m = (.ok 0, printed m (document ++ "\n")) ∧
      Json.told? document ["data", "all_done"] =
        some (.bool (ids.length = (Selection.pending entries).length)) ∧
      Json.told? document ["data", "feature", "id"] =
        ((Selection.agenda entries)[ids.length]?.map fun e => .text (Entry.idText e)) ∧
      ∀ e ∈ (Selection.agenda entries)[ids.length]?, ∃ f,
        Json.told? document ["data", "feature"] = some (.object f) ∧ Json.SameFields f e := by
  obtain ⟨now, hnow, hwork, hkept, htraces, hdone, hfirst⟩ := h.exists_next hworkable hentries
  obtain ⟨document, hrun, htold, hfeature⟩ := CommandLine.run_next_of_ready h.ready hnow hwork outside
  refine ⟨document, hrun, htold.trans (by rw [hdone]), ?_⟩
  rw [hfeature, hfeature]
  cases hhead : (Selection.agenda now).head? with
  | none =>
    rw [hhead] at hdone
    have hlength : ids.length = (Selection.pending entries).length :=
      of_decide_eq_true hdone.symm
    have hend : (Selection.agenda entries)[ids.length]? = none := by
      rw [List.getElem?_eq_none_iff, Selection.length_agenda, hlength]
    rw [hend]
    exact ⟨rfl, by simp⟩
  | some f =>
    obtain ⟨k, e, hk, -, he, -, -, -, hsame⟩ := hfirst f hhead
    have hid := (hwork.ordinary f (List.mem_of_getElem? hk)).get?_id
    rw [he]
    refine ⟨?_, fun e' he' => ?_⟩
    · show ((f.get? "id").bind (Value.at? · [])).map Json.ordered = _
      rw [hid, Entry.idText_of_sameFields hsame]
      rfl
    · obtain rfl := Option.some.inj he'
      refine ⟨Json.inOrder f, rfl, ?_⟩
      exact (Json.sameFields_inOrder (hkept f (List.mem_of_getElem? hk))).trans hsame

theorem accepted {e : Entries} (he : (Selection.agenda entries)[ids.length]? = some e)
    {notes : Option Text} (hnotes : ∀ t ∈ notes, Text.Encodes t) (outside : Outside) :
    ∃ m', (runCommand (.done (Entry.idText e) notes)).run outside m = (.ok 0, m') ∧
      UnderWay place entries (ids ++ [Entry.idText e]) m' := by
  obtain ⟨now, hnow, hwork, hkept, htraces, hdone, hfirst⟩ := h.exists_next hworkable hentries
  have hlt := (List.getElem?_eq_some_iff.mp he).1
  rw [Selection.length_agenda] at hlt
  cases hhead : (Selection.agenda now).head? with
  | none =>
    rw [hhead] at hdone
    exact absurd (of_decide_eq_true hdone.symm) (by omega)
  | some f =>
    obtain ⟨k, e', hk, hk', he', hpending, hpasses, hnew, hsame⟩ := hfirst f hhead
    obtain rfl : e = e' := Option.some.inj (he.symm.trans he')
    obtain ⟨t, u, m', hu, hkeptu, hrun, hready, hfeatures⟩ :=
      CommandLine.run_done_of_ready h.ready hnow hwork hk hpending hnotes outside
    rw [Entry.idText_of_sameFields hsame] at hrun
    refine ⟨m', hrun, hready, ?_, _, hfeatures, ?_⟩
    · obtain ⟨rest, hrest⟩ := h.order
      have hfirst : rest.head? = some (Entry.idText e) := by
        have hplace : ((Selection.agenda entries).map Entry.idText)[ids.length]? =
            some (Entry.idText e) := by rw [List.getElem?_map, he, Option.map_some]
        rw [← hrest, List.getElem?_append_right (Nat.le_refl _), Nat.sub_self] at hplace
        rwa [List.head?_eq_getElem?]
      obtain ⟨rest', rfl⟩ := List.head?_eq_some_iff.mp hfirst
      exact ⟨rest', by rw [← hrest, List.append_assoc, List.singleton_append]⟩
    · exact Entry.traces_set hworkable.distinct htraces hentries hkept hkeptu hk' hk hnew hpasses hu

end UnderWay

theorem CommandLine.printed_inj {m : Machine} {s t : Text}
    (h : printed m (s ++ "\n") = printed m (t ++ "\n")) : s = t := by
  have htexts : m.printed ++ (s ++ "\n") = m.printed ++ (t ++ "\n") := congrArg Machine.printed h
  exact List.append_cancel_right (List.append_cancel_left htexts)

namespace WorkedOff

variable {m₀ : Machine} (hready : m₀.Ready place) (hfeatures : m₀.Features place entries)
  (hworkable : Workable entries)
include hready hfeatures hworkable

theorem underWay (h : WorkedOff place m₀ ids m) : UnderWay place entries ids m := by
  have hentries := hfeatures.kept
  induction h with
  | start =>
    refine ⟨hready, List.nil_prefix, entries, hfeatures, List.forall₂_same.mpr fun e _ => ?_⟩
    unfold Entry.Traces
    rw [if_neg List.not_mem_nil]
    exact SameFields.rfl
  | rest _ hfiles hready' ih =>
    obtain ⟨now, hnow, htraces⟩ := ih.features
    exact ⟨hready', ih.order, now, hnow.of_files hfiles, htraces⟩
  | @round ids m m₁ m' outside outside' document id notes _ hnext hid hfiles hready' hnotes hdone ih =>
    obtain ⟨document', hrun, -, htold, -⟩ := ih.next hworkable hentries outside
    obtain rfl : document = document' :=
      CommandLine.printed_inj (Prod.mk.inj (hnext.symm.trans hrun)).2
    rw [htold] at hid
    obtain ⟨e, he, hsame⟩ := Option.map_eq_some_iff.mp hid
    obtain rfl := Value.text.inj hsame
    obtain ⟨now, hnow, htraces⟩ := ih.features
    have hbetween : UnderWay place entries ids m₁ :=
      ⟨hready', ih.order, now, hnow.of_files hfiles, htraces⟩
    obtain ⟨m'', hrun', hafter⟩ := hbetween.accepted hworkable hentries he hnotes outside'
    obtain rfl : m' = m'' := (Prod.mk.inj (hdone.symm.trans hrun')).2
    exact hafter

/-- Features are worked off in the order of the agenda, each of them once, and nothing happens to the
others. All is done after as many rounds as there were pending features, and not before: up to then a
feature is told that is as it was at first, and it can be accepted. -/
theorem follows_agenda (h : WorkedOff place m₀ ids m) :
    ids <+: (Selection.agenda entries).map Entry.idText ∧
    (∃ now, m.Features place now ∧ List.Forall₂ (Entry.Traces ids) entries now) ∧
    ∀ outside, ∃ document,
      (runCommand .next).run outside m = (.ok 0, printed m (document ++ "\n")) ∧
      Json.told? document ["data", "all_done"] =
        some (.bool (ids.length = (Selection.pending entries).length)) ∧
      (ids.length < (Selection.pending entries).length →
        ∃ e f, (Selection.agenda entries)[ids.length]? = some e ∧
          Json.told? document ["data", "feature"] = some (.object f) ∧ SameFields f e ∧
          Json.told? document ["data", "feature", "id"] = some (.text (Entry.idText e)) ∧
          ∀ outside' notes, (∀ t ∈ notes, Text.Encodes t) → ∃ m',
            (runCommand (.done (Entry.idText e) notes)).run outside'
              (printed m (document ++ "\n")) = (.ok 0, m') ∧
            WorkedOff place m₀ (ids ++ [Entry.idText e]) m') := by
  have hunder := h.underWay hready hfeatures hworkable
  have hentries := hfeatures.kept
  refine ⟨hunder.order, hunder.features, fun outside => ?_⟩
  obtain ⟨document, hnext, hall, hid, hfeature⟩ := hunder.next hworkable hentries outside
  refine ⟨document, hnext, hall, fun hlt => ?_⟩
  rw [← Selection.length_agenda] at hlt
  have he := List.getElem?_eq_getElem hlt
  obtain ⟨f, hf, hsame⟩ := hfeature _ he
  rw [he] at hid
  refine ⟨_, f, he, hf, hsame, hid, fun outside' notes hnotes => ?_⟩
  have hready' : (printed m (document ++ "\n")).Ready place :=
    hunder.ready.of_directories rfl fun _ hq => hq
  have hprinted : UnderWay place entries ids (printed m (document ++ "\n")) :=
    ⟨hready', hunder.order, hunder.features⟩
  obtain ⟨m', hdone, -⟩ := hprinted.accepted hworkable hentries he hnotes outside'
  have hfiles : m.files.Spares place (printed m (document ++ "\n")).files := refl_of _ _
  exact ⟨m', hdone, h.round hnext hid hfiles hready' hnotes hdone⟩

end WorkedOff

/-! ## A shop with errands -/

namespace Shop

def errandsText : Text :=
  "\x7b\"features\": [\x7b\"id\": \"a\"\x7d, \x7b\"id\": \"b\", \"priority\": \"high\"\x7d, " ++
    "\x7b\"id\": \"c\", \"passes\": true\x7d]\x7d"

/-- The features of the shop: two are pending, and the second of them is more urgent. -/
def errands : List Entries :=
  [[("id", .text "a")], [("id", .text "b"), ("priority", .text "high")],
    [("id", .text "c"), ("passes", .bool true)]]

theorem means_errands : Json.Means (errandsText.flatMap Utf8.bytesOf)
    (Value.record [("features", .list (errands.map .object))]) :=
  ⟨errandsText, by cbv, by cbv⟩

theorem ready_withFile (t : Text) : (withFile t).Ready projectFile :=
  ⟨reachesProject_machine rfl, fun _ => ⟨_, rfl⟩⟩

theorem features_errands : (withFile errandsText).Features projectFile errands := by
  refine ⟨_, false, _, rfl, means_errands, rfl, ?_⟩
  have htext : ∀ {t : Text}, t.all (!·.isSurrogate) = true → Text.Encodes t := Text.encodes_of_all
  have hpassed : Json.Encodable (.object [("id", .text "c"), ("passes", .bool true)]) :=
    ⟨⟨htext rfl, htext rfl⟩, ⟨htext rfl, trivial⟩, trivial⟩
  have hurgent : Json.Encodable (.object [("id", .text "b"), ("priority", .text "high")]) :=
    ⟨⟨htext rfl, htext rfl⟩, ⟨htext rfl, htext rfl⟩, trivial⟩
  have hplain : Json.Encodable (.object [("id", .text "a")]) :=
    ⟨⟨htext rfl, htext rfl⟩, trivial⟩
  exact ⟨⟨htext rfl, hplain, hurgent, hpassed, trivial⟩, trivial⟩

theorem workable_errands : Workable errands := by
  refine ⟨?_, by decide +kernel, ?_, by decide +kernel⟩ <;>
    simp only [errands, List.forall_mem_cons]
  · exact ⟨⟨⟨_, rfl⟩, trivial, trivial⟩, ⟨⟨_, rfl⟩, trivial, trivial⟩,
      ⟨⟨_, rfl⟩, trivial, trivial⟩, by simp⟩
  · have hup : ∀ e : Entries, Entry.attempts e = .ok 0 → Entry.CountsUp e :=
      fun e he => ⟨0, he, by decide +kernel⟩
    exact ⟨fun _ => hup _ rfl, fun _ => hup _ rfl, fun _ => hup _ rfl, by simp⟩

/-- The more urgent errand is worked off first, and then there is one left. -/
theorem follows_agenda_errands : ∃ m document,
    WorkedOff projectFile (withFile errandsText) ["b"] m ∧
    (runCommand .next).run idle m = (.ok 0, printed m (document ++ "\n")) ∧
    Json.told? document ["data", "all_done"] = some (.bool false) := by
  have hready := ready_withFile errandsText
  obtain ⟨-, -, hnext⟩ := WorkedOff.follows_agenda hready features_errands workable_errands .start
  obtain ⟨_, -, -, hround⟩ := hnext idle
  obtain ⟨e, -, he, -, -, -, hdone⟩ := hround (by decide +kernel)
  have hfirst : Selection.next (errands.map .object) =
      .ok (some [("id", .text "b"), ("priority", .text "high")]) := rfl
  have hhead : (Selection.agenda errands).head? = some e := List.head?_eq_getElem?.trans he
  rw [Selection.next_eq fun e he => (workable_errands.ordinary e he).priority, hhead] at hfirst
  obtain rfl := Option.some.inj (Except.ok.inj hfirst)
  obtain ⟨m, -, hworked⟩ := hdone idle none (by simp)
  obtain ⟨-, -, hlast⟩ :=
    WorkedOff.follows_agenda hready features_errands workable_errands hworked
  obtain ⟨document, hrun, hall, -⟩ := hlast idle
  exact ⟨m, document, hworked, hrun, hall⟩

end Shop

end Acceptance
