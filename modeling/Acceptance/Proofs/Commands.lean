import Acceptance.Proofs.Loading

/-! # Commands and the project file

What each command does to the project file, and what its exit code tells of that. Only `add`, `done`
and a `verify` that passes change what is on record, and then they answer with success. -/

namespace Acceptance

variable {outside : Outside} {place : Place} {m m' : Machine}

/-! ## Answers that can be printed -/

theorem Envelope.kept_orEmpty {depth : Nat} {v : Value} (h : Json.Kept (depth + 1) v) :
    Json.Kept (depth + 1) (orEmpty v) := by
  unfold orEmpty Value.orElse
  split
  · exact h
  · exact Json.sendable_empty.kept

theorem Envelope.kept_okWith {depth : Nat} {command : Text} {data : Value}
    {artifacts : List Artifact} (hcommand : Text.Encodes command)
    (hdata : Json.Kept (depth + 1) data) (hartifacts : ∀ a ∈ artifacts, Json.Kept depth a.toValue) :
    Json.Kept (depth + 2) (Envelope.okWith command data artifacts).toValue := by
  refine Json.kept_record rfl fun f hf => ?_
  simp only [List.mem_cons, List.not_mem_nil, or_false] at hf
  rcases hf with rfl | rfl | rfl | rfl | rfl | rfl | rfl
  · trivial
  · exact Text.encodes_of_all rfl
  · exact hcommand
  · exact Envelope.kept_orEmpty hdata
  · rw [Json.kept_list, List.forall_mem_map]
    exact hartifacts
  · trivial
  · exact Envelope.kept_orEmpty Json.sendable_empty.kept

theorem Envelope.printable_orEmpty {v : Value} (h : Json.Printable v) : Json.Printable (orEmpty v) := by
  unfold orEmpty Value.orElse
  split
  · exact h
  · exact Json.printable_empty

theorem Artifact.printable_toValue {a : Artifact} (hpath : Text.Encodes a.path)
    (hmime : Text.Encodes a.mime) (hpurpose : Text.Encodes a.purpose)
    (hsize : Json.Printable (Value.ofInt? a.size)) : Json.Printable a.toValue := by
  refine Json.printable_record.mpr ?_
  simp only [List.forall_mem_cons, Json.printable_text]
  exact ⟨⟨Text.encodes_of_all rfl, hpath⟩, ⟨Text.encodes_of_all rfl, hmime⟩,
    ⟨Text.encodes_of_all rfl, hpurpose⟩, ⟨Text.encodes_of_all rfl, hsize⟩, by simp⟩

/-- A good answer can be printed if all that it says can. -/
theorem Envelope.printable_limited {command : Text} {data limits : Value}
    {artifacts : List Artifact} (hcommand : Text.Encodes command) (hdata : Json.Printable data)
    (hartifacts : ∀ a ∈ artifacts, Json.Printable a.toValue) (hlimits : Json.Printable limits) :
    Json.Printable (Envelope.toValue
      { command := .text command, answer := .ok data artifacts (.bool false) limits }) := by
  have hlist : Json.Printable (.list (artifacts.map Artifact.toValue)) := by
    rw [Json.printable_list, List.forall_mem_map]
    exact hartifacts
  refine Json.printable_record.mpr ?_
  simp only [List.forall_mem_cons]
  exact ⟨⟨Text.encodes_of_all rfl, Json.printable_bool true⟩,
    ⟨Text.encodes_of_all rfl, Json.printable_text.mpr (Text.encodes_of_all rfl)⟩,
    ⟨Text.encodes_of_all rfl, Json.printable_text.mpr hcommand⟩,
    ⟨Text.encodes_of_all rfl, printable_orEmpty hdata⟩, ⟨Text.encodes_of_all rfl, hlist⟩,
    ⟨Text.encodes_of_all rfl, Json.printable_bool false⟩,
    ⟨Text.encodes_of_all rfl, printable_orEmpty hlimits⟩, by simp⟩

theorem Envelope.printable_okWith {command : Text} {data : Value} {artifacts : List Artifact}
    (hcommand : Text.Encodes command) (hdata : Json.Printable data)
    (hartifacts : ∀ a ∈ artifacts, Json.Printable a.toValue) :
    Json.Printable (Envelope.okWith command data artifacts).toValue :=
  printable_limited hcommand hdata hartifacts Json.printable_empty

/-- A good answer can be printed if its data and its artifacts can. -/
theorem Envelope.sendable_okWith {depth : Nat} {command : Text} {data : Value}
    {artifacts : List Artifact} (hcommand : Text.Encodes command)
    (hdata : Json.Sendable (depth + 1) data)
    (hartifacts : ∀ a ∈ artifacts, Json.Sendable depth a.toValue) :
    Json.Sendable (depth + 2) (Envelope.okWith command data artifacts).toValue :=
  ⟨kept_okWith hcommand hdata.kept fun a ha => (hartifacts a ha).kept,
    (printable_okWith hcommand hdata.printable fun a ha => (hartifacts a ha).printable).writable⟩

theorem Envelope.printable_ok {command : Text} {data : Value} (hcommand : Text.Encodes command)
    (hdata : Json.Printable data) : Json.Printable (Envelope.ok command data).toValue :=
  @printable_okWith command data [] hcommand hdata (by simp)

theorem Envelope.printable_error {command message : Text} {type : ErrorType} {details : Value}
    (hcommand : Text.Encodes command) (hmessage : Text.Encodes message)
    (hdetails : Json.Printable details) :
    Json.Printable (Envelope.error command type message details).toValue := by
  have htype : Text.Encodes type.name := by
    cases type <;> exact Text.encodes_of_all rfl
  have herror : Json.Printable (Value.record [("type", .text type.name),
      ("message", .text message), ("details", orEmpty details)]) := by
    refine Json.printable_record.mpr ?_
    simp only [List.forall_mem_cons, Json.printable_text]
    exact ⟨⟨Text.encodes_of_all rfl, htype⟩, ⟨Text.encodes_of_all rfl, hmessage⟩,
      ⟨Text.encodes_of_all rfl, printable_orEmpty hdetails⟩, by simp⟩
  refine Json.printable_record.mpr ?_
  simp only [List.forall_mem_cons]
  exact ⟨⟨Text.encodes_of_all rfl, Json.printable_bool false⟩,
    ⟨Text.encodes_of_all rfl, Json.printable_text.mpr (Text.encodes_of_all rfl)⟩,
    ⟨Text.encodes_of_all rfl, Json.printable_text.mpr hcommand⟩,
    ⟨Text.encodes_of_all rfl, herror⟩, by simp⟩

namespace CommandLine

/-! ## Printing -/

/-- The machine with a text printed on it. -/
def printed (m : Machine) (t : Text) : Machine := { m with printed := m.printed ++ t }

theorem spares_printed (m : Machine) (t : Text) : m.Spares place (printed m t) :=
  ⟨rfl, refl_of (FileTree.Spares place) _⟩

theorem run_emit (outside : Outside) (m : Machine) (e : Envelope) :
    (∃ fault, (emit e).run outside m = (.error fault, m)) ∨
      ∃ t, (emit e).run outside m = (.ok (if e.isOk then 0 else 1), printed m t) := by
  unfold emit
  split
  · next document _ =>
    unfold Task.print
    cases hencode : Utf8.encode (document ++ "\n") with
    | ok bytes => exact Or.inr ⟨_, rfl⟩
    | error problem => exact Or.inl ⟨_, rfl⟩
  · exact Or.inl ⟨_, rfl⟩

/-- An answer that can be printed is printed. -/
theorem run_emit_of_printable (outside : Outside) (m : Machine) {e : Envelope}
    (h : Json.Printable e.toValue) :
    ∃ document, Json.write e.toValue = .ok document ∧
      (emit e).run outside m = (.ok (if e.isOk then 0 else 1), printed m (document ++ "\n")) := by
  obtain ⟨document, hwrite, hencodes⟩ := Json.printable_iff.mp h
  have hbytes := Utf8.encode_of_encodes
    (Text.encodes_append.mpr ⟨hencodes, Text.encodes_of_all (t := "\n") rfl⟩)
  refine ⟨document, hwrite, ?_⟩
  unfold emit
  rw [hwrite]
  dsimp only
  unfold Task.print
  rw [hbytes]
  rfl

theorem run_emit_of_sendable (outside : Outside) (m : Machine) {e : Envelope}
    (h : Json.Sendable Json.mostNested e.toValue) :
    ∃ t, (emit e).run outside m = (.ok (if e.isOk then 0 else 1), printed m t) := by
  obtain ⟨document, -, hrun⟩ := run_emit_of_printable outside m h.printable
  exact ⟨_, hrun⟩

section

variable {R : Machine → Machine → Prop} [IsPreorder Machine R]

theorem leaves_emit (hR : ∀ m t, R m (printed m t)) (e : Envelope) : (emit e).Leaves outside R := by
  intro m
  rcases run_emit outside m e with ⟨fault, hrun⟩ | ⟨t, hrun⟩
  · rw [hrun]
    exact refl_of R m
  · rw [hrun]
    exact hR m t

end

theorem spares_emit (e : Envelope) : (emit e).Leaves outside (Machine.Spares place) :=
  leaves_emit spares_printed e

/-- An error is no success. -/
theorem emit_error_ne (outside : Outside) (m : Machine) {e : Envelope} (h : e.isOk = false) :
    ((emit e).run outside m).1 ≠ .ok 0 := by
  rcases run_emit outside m e with ⟨fault, hrun⟩ | ⟨t, hrun⟩
  · rw [hrun]
    simp
  · rw [hrun, h]
    simp

/-! ## Answers and faults -/

/-- What is answered to a fault. -/
def refuse (onFault : Fault → Option Envelope) (fault : Fault) : Task Nat :=
  match onFault fault with
  | some e => emit e
  | none => Task.fail fault

/-- The envelopes of faults are errors. -/
def OnlyErrors (onFault : Fault → Option Envelope) : Prop :=
  ∀ fault e, onFault fault = some e → e.isOk = false

section

variable {α : Type} {task : Task α} {onFault : Fault → Option Envelope} {fault : Fault}
  {R : Machine → Machine → Prop} [IsPreorder Machine R]

theorem leaves_refuse (hR : ∀ m t, R m (printed m t)) (onFault : Fault → Option Envelope)
    (fault : Fault) : (refuse onFault fault).Leaves outside R := by
  unfold refuse
  split
  · exact leaves_emit hR _
  · exact Task.leaves_fail fault

theorem spares_refuse (onFault : Fault → Option Envelope) (fault : Fault) :
    (refuse onFault fault).Leaves outside (Machine.Spares place) :=
  leaves_refuse spares_printed onFault fault

theorem refuse_ne (h : OnlyErrors onFault) (fault : Fault) (m : Machine) :
    ((refuse onFault fault).run outside m).1 ≠ .ok 0 := by
  unfold refuse
  split
  next e he => exact emit_error_ne outside m (h fault e he)
  next => simp

theorem run_answer_error (onResult : α → Task Envelope)
    (h : task.run outside m = (.error fault, m')) :
    (answer task onResult onFault).run outside m = (refuse onFault fault).run outside m' := by
  unfold answer
  rw [Task.run_attempt_bind, h]
  rfl

theorem run_answer_ok {a : α} (onResult : α → Task Envelope) (onFault : Fault → Option Envelope)
    (h : task.run outside m = (.ok a, m')) :
    (answer task onResult onFault).run outside m = (onResult a >>= emit).run outside m' := by
  unfold answer
  rw [Task.run_attempt_bind, h]

theorem run_prepared_error (next : α → Task Nat) (h : task.run outside m = (.error fault, m')) :
    (prepared task onFault next).run outside m = (refuse onFault fault).run outside m' := by
  unfold prepared
  rw [Task.run_attempt_bind, h]
  rfl

theorem run_prepared_ok {a : α} (onFault : Fault → Option Envelope) (next : α → Task Nat)
    (h : task.run outside m = (.ok a, m')) :
    (prepared task onFault next).run outside m = (next a).run outside m' := by
  unfold prepared
  rw [Task.run_attempt_bind, h]

theorem leaves_answer (hR : ∀ m t, R m (printed m t)) {onResult : α → Task Envelope}
    (onFault : Fault → Option Envelope) (htask : task.Leaves outside R)
    (hresult : ∀ a, (onResult a).Leaves outside R) :
    (answer task onResult onFault).Leaves outside R := by
  refine Task.leaves_bind (Task.leaves_attempt htask) fun result => ?_
  rcases result with fault | a
  · exact leaves_refuse hR onFault fault
  · exact Task.leaves_bind (hresult a) fun e => leaves_emit hR e

theorem leaves_prepared (hR : ∀ m t, R m (printed m t)) {next : α → Task Nat}
    (onFault : Fault → Option Envelope) (htask : task.Leaves outside R)
    (hnext : ∀ a, (next a).Leaves outside R) : (prepared task onFault next).Leaves outside R := by
  refine Task.leaves_bind (Task.leaves_attempt htask) fun result => ?_
  rcases result with fault | a
  · exact leaves_refuse hR onFault fault
  · exact hnext a

end

theorem onlyErrors_projectError (command : Text) (details : List (Text × Value)) :
    OnlyErrors (projectError? command · details) := by
  intro fault e he
  cases fault <;> simp only [projectError?, Option.some.injEq, reduceCtorEq] at he <;> rw [← he] <;>
    rfl

/-! ## What comes of a command -/

/-- What comes of a command that may put down some texts: it refuses and leaves the record alone, or
it succeeds and `P` says what is on record then, or a text cannot be encoded and the file is empty. -/
inductive Settled (m : Machine) (place : Place) (register : List Item) (texts : List Text)
    (P : List Item → Prop) : Except Fault Nat × Machine → Prop where
  | refused {result : Except Fault Nat} {m' : Machine} (hresult : result ≠ .ok 0)
      (hsetting : m'.setting = m.setting) (hrecords : m'.Records place register) :
      Settled m place register texts P (result, m')
  | succeeded {register' : List Item} {m' : Machine} (hsetting : m'.setting = m.setting)
      (hrecords : m'.Records place register') (h : P register') :
      Settled m place register texts P (.ok 0, m')
  | emptied (result : Except Fault Nat) {m' : Machine} (hsetting : m'.setting = m.setting)
      (hemptied : m'.Emptied place) (htext : ∃ t ∈ texts, ¬ Text.Encodes t) :
      Settled m place register texts P (result, m')

variable {register : List Item} {texts : List Text}

/-- A command that leaves the record as it is. -/
theorem settled_of_records {result : Except Fault Nat × Machine}
    (hsetting : result.2.setting = m.setting) (h : result.2.Records place register) :
    Settled m place register texts (· = register) result := by
  obtain ⟨answer, m'⟩ := result
  by_cases hanswer : answer = .ok 0
  · subst hanswer
    exact .succeeded hsetting h rfl
  · exact .refused hanswer hsetting h

theorem settled_refuse (h : m.Records place register) (P : List Item → Prop)
    {onFault : Fault → Option Envelope} (hfault : OnlyErrors onFault) (fault : Fault) :
    Settled m place register texts P ((refuse onFault fault).run outside m) := by
  have hspares : m.Spares place ((refuse onFault fault).run outside m).2 :=
    spares_refuse onFault fault m
  exact .refused (refuse_ne hfault fault m) hspares.setting (h.of_spares hspares)

theorem settled_answer {α : Type} {task : Task α} {onResult : α → Task Envelope}
    {onFault : Fault → Option Envelope} {P : α → List Item → Prop}
    (hm : m.Records place register) (h : Recorded m place texts P (task.run outside m))
    (hresult : ∀ a register' m', P a register' → ∃ e, (onResult a).run outside m' = (.ok e, m') ∧
      e.isOk = true ∧ Json.Sendable Json.mostNested e.toValue)
    (hfault : OnlyErrors onFault) :
    Settled m place register texts (fun register' => ∃ a, P a register')
      ((answer task onResult onFault).run outside m) := by
  generalize hrun : task.run outside m = outcome at h
  cases h with
  | refused fault =>
    rw [run_answer_error onResult hrun]
    exact settled_refuse hm _ hfault fault
  | @changed a register' m' hsetting hrecords ha =>
    obtain ⟨e, he, hok, hsendable⟩ := hresult a register' m' ha
    obtain ⟨t, hemit⟩ := run_emit_of_sendable outside m' hsendable
    rw [run_answer_ok onResult onFault hrun, Task.run_bind_ok he, hemit, hok]
    exact .succeeded hsetting (hrecords.of_spares (spares_printed m' t)) ⟨a, ha⟩
  | @emptied fault m' hsetting hemptied htext =>
    have hspares : m'.Spares place ((refuse onFault fault).run outside m').2 :=
      spares_refuse onFault fault m'
    rw [run_answer_error onResult hrun]
    exact .emptied _ (hspares.setting.trans hsetting) (hemptied.of_spares hspares) htext

theorem Settled.mono {P Q : List Item → Prop} {result : Except Fault Nat × Machine}
    (h : Settled m place register texts P result) (hPQ : ∀ register', P register' → Q register') :
    Settled m place register texts Q result := by
  cases h with
  | refused hresult hsetting hrecords => exact .refused hresult hsetting hrecords
  | succeeded hsetting hrecords h => exact .succeeded hsetting hrecords (hPQ _ h)
  | emptied result hsetting hemptied htext => exact .emptied result hsetting hemptied htext

theorem Settled.of_setting {P : List Item → Prop} {result : Except Fault Nat × Machine}
    (h : Settled m' place register texts P result) (hsetting : m'.setting = m.setting) :
    Settled m place register texts P result := by
  cases h with
  | refused hresult hsetting' hrecords =>
    exact .refused hresult (hsetting'.trans hsetting) hrecords
  | succeeded hsetting' hrecords h => exact .succeeded (hsetting'.trans hsetting) hrecords h
  | emptied result hsetting' hemptied htext =>
    exact .emptied result (hsetting'.trans hsetting) hemptied htext

section

variable {α : Type} {t : Task α} {P : List Item → Prop}

/-- A command that first does something that spares the project file. -/
theorem settled_bind {f : α → Task Nat} (h : m.Records place register)
    (ht : t.Leaves outside (Machine.Spares place))
    (hf : ∀ a m', t.run outside m = (.ok a, m') → m'.setting = m.setting →
      m'.Records place register → Settled m' place register texts P ((f a).run outside m')) :
    Settled m place register texts P ((t >>= f).run outside m) := by
  rw [Task.run_bind]
  have hspares := ht m
  rcases hrun : t.run outside m with ⟨fault | a, m'⟩
  · rw [hrun] at hspares
    exact .refused (by simp) hspares.setting (h.of_spares hspares)
  · rw [hrun] at hspares
    exact (hf a m' hrun hspares.setting (h.of_spares hspares)).of_setting hspares.setting

/-- A command that changes the record and then prints an answer. -/
theorem settled_of_recorded {f : α → Task Nat} {P : α → List Item → Prop}
    (hm : m.Records place register) (h : Recorded m place texts P (t.run outside m))
    (hf : ∀ a register' m', P a register' →
      ∃ answer, (f a).run outside m' = (.ok 0, printed m' answer)) :
    Settled m place register texts (fun register' => ∃ a, P a register')
      ((t >>= f).run outside m) := by
  rw [Task.run_bind]
  generalize t.run outside m = outcome at h
  cases h with
  | refused fault => exact .refused (by simp) rfl hm
  | @changed a register' m' hsetting hrecords ha =>
    obtain ⟨answer, hanswer⟩ := hf a register' m' ha
    dsimp only
    rw [hanswer]
    exact .succeeded hsetting (hrecords.of_spares (spares_printed m' answer)) ⟨a, ha⟩
  | emptied fault hsetting hemptied htext => exact .emptied _ hsetting hemptied htext

theorem settled_prepared {onFault : Fault → Option Envelope} {next : α → Task Nat}
    (h : m.Records place register) (ht : t.Leaves outside (Machine.Spares place))
    (hfault : OnlyErrors onFault)
    (hnext : ∀ a m', t.run outside m = (.ok a, m') → m'.setting = m.setting →
      m'.Records place register → Settled m' place register texts P ((next a).run outside m')) :
    Settled m place register texts P ((prepared t onFault next).run outside m) := by
  have hspares := ht m
  rcases hrun : t.run outside m with ⟨fault | a, m'⟩
  · rw [hrun] at hspares
    rw [run_prepared_error next hrun]
    exact (settled_refuse (h.of_spares hspares) P hfault fault).of_setting hspares.setting
  · rw [hrun] at hspares
    rw [run_prepared_ok onFault next hrun]
    exact (hnext a m' hrun hspares.setting (h.of_spares hspares)).of_setting hspares.setting

end

/-! ## Adding and accepting features -/

theorem settled_add (h : m.Records place register) (hat : m.KeepsProjectAt place)
    (description priority category : Text) (steps : List Text) :
    Settled m place register (Entry.Given.texts ⟨description, category, priority, steps⟩)
      (· = register ++ [⟨⟨description, category, priority, steps⟩, 0⟩])
      ((runAdd description priority category steps).run outside m) := by
  refine (settled_answer h (Project.addFeature_record outside h hat ⟨description, category, priority, steps⟩)
    ?_ (onlyErrors_projectError _ _)).mono ?_
  · rintro v register' m' ⟨-, e, rfl, hsendable⟩
    refine ⟨_, rfl, rfl, ?_⟩
    have hdata : Json.Sendable 3 (Value.record [("feature", .object e)]) := by
      refine Json.sendable_record rfl fun f hf => ?_
      rw [List.mem_singleton.mp hf]
      exact hsendable
    exact (Envelope.sendable_okWith (Text.encodes_of_all rfl) hdata (by simp)).mono (by decide)
  · rintro register' ⟨v, hregister, -⟩
    exact hregister

theorem printable_added {v : Value} (h : Json.Printable v) :
    Json.Printable (Envelope.ok "add" (Value.record [("feature", v)])).toValue := by
  refine Envelope.printable_ok (Text.encodes_of_all rfl) (Json.printable_record.mpr ?_)
  simp only [List.forall_mem_cons]
  exact ⟨⟨Text.encodes_of_all rfl, h⟩, by simp⟩

theorem printable_tallyProgress {tally : Tally} (h : Json.Printable tally.toValue) :
    Json.Printable (tallyProgress tally) := by
  have hfields := Json.printable_record.mp h
  refine Json.printable_record.mpr ?_
  simp only [List.forall_mem_cons] at hfields ⊢
  obtain ⟨htotal, hcompleted, hpercentage, -⟩ := hfields
  exact ⟨⟨Text.encodes_of_all rfl, htotal.2⟩, ⟨Text.encodes_of_all rfl, hcompleted.2⟩,
    ⟨Text.encodes_of_all rfl, hpercentage.2⟩, by simp⟩

theorem printable_accepted {v : Value} {tally : Tally} (hv : Json.Printable v)
    (htally : Json.Printable tally.toValue) :
    Json.Printable (Envelope.ok "done" (Value.record
      [("feature", v), ("progress", tallyProgress tally)])).toValue := by
  refine Envelope.printable_ok (Text.encodes_of_all rfl) (Json.printable_record.mpr ?_)
  simp only [List.forall_mem_cons]
  exact ⟨⟨Text.encodes_of_all rfl, hv⟩,
    ⟨Text.encodes_of_all rfl, printable_tallyProgress htally⟩, by simp⟩

/-- The feature with the id was accepted once more. -/
def Accepted (register : List Item) (id : Text) (register' : List Item) : Prop :=
  ∃ (k : Nat) (item : Item), register[k]? = some item ∧ id = Entry.idOf ((k : Int) + 1) ∧
    register' = register.set k { item with marks := item.marks + 1 }

theorem sendable_tallyProgress {tally : Tally} (h : Json.Sendable 3 tally.toValue) :
    Json.Sendable 3 (tallyProgress tally) := by
  refine Json.sendable_record rfl fun f hf => ?_
  simp only [List.mem_cons, List.not_mem_nil, or_false] at hf
  rcases hf with rfl | rfl | rfl
  · exact h.get? "total_features" rfl
  · exact h.get? "completed_features" rfl
  · exact h.get? "completion_percentage" rfl

theorem settled_done (h : m.Records place register) (hat : m.KeepsProjectAt place) (id : Text)
    (notes : Option Text) :
    Settled m place register notes.toList (Accepted register id)
      ((runDone id notes).run outside m) := by
  refine (settled_answer h (Project.markDone_record outside h hat id notes) ?_
    (onlyErrors_projectError _ _)).mono ?_
  · rintro ⟨v, tally⟩ register' m' ⟨k, item, -, -, -, -, hv, htally⟩
    refine ⟨_, rfl, rfl, ?_⟩
    have hdata : Json.Sendable 4
        (Value.record [("feature", v), ("progress", tallyProgress tally)]) := by
      refine Json.sendable_record rfl fun f hf => ?_
      simp only [List.mem_cons, List.not_mem_nil, or_false] at hf
      rcases hf with rfl | rfl
      · exact hv.mono (by decide)
      · exact sendable_tallyProgress htally
    exact (Envelope.sendable_okWith (Text.encodes_of_all rfl) hdata (by simp)).mono (by decide)
  · rintro register' ⟨answer, k, item, hitem, hid, hregister, -⟩
    exact ⟨k, item, hitem, hid, hregister⟩

end CommandLine

end Acceptance
