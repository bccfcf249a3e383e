import Acceptance.Proofs.Commands
import Acceptance.Proofs.Wording

/-! # Answering

A command answers by printing one envelope. A fault is no exception to that, if the command expects
it and what the envelope says of it can be printed. -/

namespace Acceptance

open Json (Printable)

variable {outside : Outside} {m m' : Machine}

/-! ## Faults -/

namespace Fault

/-- A value was not accepted, and why can be told. -/
def Refuses : Fault → Prop
  | .invalid cause => Text.Encodes cause.message
  | _ => False

/-- There is no project or no such feature, or a value was not accepted, and this can be told. -/
def Expected : Fault → Prop
  | .projectMissing path => Text.Encodes path
  | .featureMissing id => Text.Encodes id
  | .invalid cause => Text.Encodes cause.message
  | _ => False

variable {fault : Fault}

theorem Refuses.expected (h : fault.Refuses) : fault.Expected := by
  cases fault <;> first | exact h | exact h.elim

theorem Refuses.exists_cause (h : fault.Refuses) :
    ∃ cause, fault = .invalid cause ∧ Text.Encodes cause.message := by
  cases fault with
  | invalid cause => exact ⟨cause, rfl, h⟩
  | _ => exact h.elim

theorem Expected.encodes_message (h : fault.Expected) : Text.Encodes fault.message := by
  cases fault with
  | projectMissing path => simpa [message, Expected] using h
  | featureMissing id => simpa [message, Expected] using h
  | invalid cause => exact h
  | _ => exact h.elim

end Fault

/-! ## Answers -/

theorem ErrorType.mem_all (type : ErrorType) : type ∈ all := by
  cases type <;> decide

namespace CommandLine

/-- One envelope is printed and nothing else. It is in the exit code whether the answer is a good
one, and an error is of a known type. -/
def Answered (m : Machine) (outcome : Except Fault Nat × Machine) : Prop :=
  ∃ (e : Envelope) (document : Text), Json.write e.toValue = .ok document ∧
    outcome.2.printed = m.printed ++ (document ++ "\n") ∧
    outcome.1 = .ok (if e.isOk then 0 else 1) ∧
    ∀ type message details, e.answer = .error type message details → type ∈ ErrorType.all

theorem Answered.of_printed {outcome : Except Fault Nat × Machine} (h : Answered m' outcome)
    (hprinted : m'.printed = m.printed) : Answered m outcome := by
  obtain ⟨e, document, hwrite, hout, hrest⟩ := h
  exact ⟨e, document, hwrite, hprinted ▸ hout, hrest⟩

theorem answered_emit (outside : Outside) (m : Machine) {e : Envelope} (h : Printable e.toValue) :
    Answered m ((emit e).run outside m) := by
  obtain ⟨document, hwrite, hrun⟩ := run_emit_of_printable outside m h
  rw [hrun]
  exact ⟨e, document, hwrite, rfl, rfl, fun type _ _ _ => type.mem_all⟩

/-- The command knows the fault, and what it says of it can be printed. -/
def Tells (onFault : Fault → Option Envelope) (fault : Fault) : Prop :=
  ∃ e, onFault fault = some e ∧ Printable e.toValue

section

variable {α : Type} {task : Task α} {onFault : Fault → Option Envelope} {fault : Fault}

theorem answered_refuse (m : Machine) (h : Tells onFault fault) :
    Answered m ((refuse onFault fault).run outside m) := by
  obtain ⟨e, he, hprintable⟩ := h
  unfold refuse
  rw [he]
  exact answered_emit outside m hprintable

end

/-! ## Tasks that answer -/

/-- Wherever `I` holds, the task answers, counted from the machine `m` on. -/
def Replies (outside : Outside) (I : Machine → Prop) (m : Machine) (t : Task Nat) : Prop :=
  ∀ m', I m' → Answered m (t.run outside m')

section

variable {α : Type} {I : Machine → Prop} {P : α → Prop} {E : Fault → Prop} {task : Task α}
  {onFault : Fault → Option Envelope}

theorem replies_bind {f : α → Task Nat} (ht : task.Meets outside I P fun _ => False)
    (hf : ∀ a, P a → Replies outside I m (f a)) : Replies outside I m (task >>= f) := by
  intro m' hm'
  rcases hrun : task.run outside m' with ⟨fault | a, m₁⟩
  · exact (ht.error hm' hrun).1.elim
  · obtain ⟨ha, hm₁⟩ := ht.ok hm' hrun
    rw [Task.run_bind_ok hrun]
    exact hf a ha m₁ hm₁

variable (hI : ∀ m', I m' → m'.printed = m.printed)
include hI

theorem replies_emit {e : Envelope} (h : Printable e.toValue) : Replies outside I m (emit e) :=
  fun m' hm' => (answered_emit outside m' h).of_printed (hI m' hm')

theorem replies_refuse {fault : Fault} (h : Tells onFault fault) :
    Replies outside I m (refuse onFault fault) :=
  fun m' hm' => (answered_refuse m' h).of_printed (hI m' hm')

theorem replies_prepared {next : α → Task Nat} (ht : task.Meets outside I P E)
    (hfault : ∀ fault, E fault → Tells onFault fault)
    (hnext : ∀ a, P a → Replies outside I m (next a)) :
    Replies outside I m (prepared task onFault next) := by
  intro m' hm'
  rcases hrun : task.run outside m' with ⟨fault | a, m₁⟩
  · obtain ⟨hfault', hm₁⟩ := ht.error hm' hrun
    rw [run_prepared_error next hrun]
    exact replies_refuse hI (hfault fault hfault') m₁ hm₁
  · obtain ⟨ha, hm₁⟩ := ht.ok hm' hrun
    rw [run_prepared_ok onFault next hrun]
    exact hnext a ha m₁ hm₁

theorem replies_answer {onResult : α → Task Envelope} (ht : task.Meets outside I P E)
    (hfault : ∀ fault, E fault → Tells onFault fault)
    (hresult : ∀ a, P a → (onResult a).Meets outside I (fun e => Printable e.toValue)
      fun _ => False) :
    Replies outside I m (answer task onResult onFault) := by
  intro m' hm'
  rcases hrun : task.run outside m' with ⟨fault | a, m₁⟩
  · obtain ⟨hfault', hm₁⟩ := ht.error hm' hrun
    rw [run_answer_error onResult hrun]
    exact replies_refuse hI (hfault fault hfault') m₁ hm₁
  · obtain ⟨ha, hm₁⟩ := ht.ok hm' hrun
    rw [run_answer_ok onResult onFault hrun]
    exact replies_bind (hresult a ha) (fun e he => replies_emit hI he) m₁ hm₁

end

/-! ## What is said of faults -/

variable {command : Text} {details : List (Text × Value)} {fault : Fault}

theorem tells_projectError (hcommand : Text.Encodes command)
    (hdetails : ∀ d ∈ details, Text.Encodes d.1 ∧ Printable d.2) (h : fault.Expected) :
    Tells (projectError? command · details) fault := by
  have hmessage := h.encodes_message
  cases fault with
  | projectMissing path =>
    refine ⟨_, rfl, Envelope.printable_error hcommand hmessage (Json.printable_record.mpr ?_)⟩
    exact List.forall_mem_singleton.mpr ⟨by simp, Json.printable_text.mpr h⟩
  | featureMissing id =>
    refine ⟨_, rfl, Envelope.printable_error hcommand hmessage (Json.printable_record.mpr ?_)⟩
    exact List.forall_mem_cons.mpr ⟨⟨by simp, Json.printable_text.mpr h⟩, hdetails⟩
  | invalid cause =>
    exact ⟨_, rfl, Envelope.printable_error hcommand hmessage (Json.printable_record.mpr hdetails)⟩
  | _ => exact h.elim

theorem tells_logError (hcommand : Text.Encodes command) {given : Option Text}
    (hgiven : ∀ t ∈ given, Text.Encodes t) (h : fault.Refuses) :
    Tells (logError? command given) fault := by
  obtain ⟨cause, rfl, hmessage⟩ := h.exists_cause
  refine ⟨_, rfl, Envelope.printable_error hcommand hmessage (Json.printable_record.mpr ?_)⟩
  exact List.forall_mem_singleton.mpr ⟨by simp, Json.printable_ofText?.mpr hgiven⟩

end CommandLine

end Acceptance
