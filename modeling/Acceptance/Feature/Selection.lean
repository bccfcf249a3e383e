import Acceptance.Feature.Entry

/-! # Selections of features

The feature that is next, and lists by status and priority.
-/

namespace Acceptance

namespace Selection

/-! ## The next feature -/

/-- The entries with their ranks. -/
def ranked : List Entries → Except Fault (List (Nat × Entries))
  | [] => .ok []
  | e :: rest => do
    let rank ← Entry.rank e
    let others ← ranked rest
    .ok ((rank, e) :: others)

/-- The first of the entries with the least rank. -/
def first? : List (Nat × Entries) → Option (Nat × Entries)
  | [] => none
  | e :: rest =>
    match first? rest with
    | some f => if f.1 < e.1 then some f else some e
    | none => some e

/-- The entries that are still to be done. -/
def pending (entries : List Entries) : List Entries := entries.filter (!Entry.passes ·)

/-- The most urgent entry that is still to be done; of equally urgent ones the first. -/
def next (features : List Value) : Except Fault (Option Entries) := do
  let entries ← Entry.allFields features
  let ranked ← ranked (pending entries)
  .ok ((first? ranked).map (·.2))

/-! ## Lists -/

/-- Which features are listed. -/
inductive Status where
  | all
  | pending
  | done
  deriving DecidableEq

/-- The status that a name stands for. -/
def Status.ofName (name : Text) : Except Fault Status :=
  if name = Text.of "all" then .ok .all
  else if name = Text.of "pending" then .ok .pending
  else if name = Text.of "done" then .ok .done
  else .error (.invalid (.filter name))

/-- Is the priority as it stands this value? -/
def hasPriority (wanted : Value) (e : Entries) : Bool := (e.getD "priority").equals wanted

/-- Does the status admit the entry? -/
def Status.admits (status : Status) (e : Entries) : Bool :=
  match status with
  | .all => true
  | .pending => !Entry.passes e
  | .done => Entry.passes e

/-- Keeps the entries that satisfy `p`, which is asked of objects only. -/
def keep (p : Entries → Bool) : List Value → Except Fault (List Value)
  | [] => .ok []
  | v :: rest => do
    let e ← Entry.fields v
    let others ← keep p rest
    .ok (if p e then v :: others else others)

/-- The entries of a status, all if it is `all`. -/
def byStatus (status : Status) (features : List Value) : Except Fault (List Value) :=
  if status = .all then .ok features else keep status.admits features

/-- The entries of a status and, unless none or an empty one is given, of a priority. -/
def select (features : List Value) (status : Text) (priority : Value) :
    Except Fault (List Value) := do
  let status ← Status.ofName status
  let selected ← byStatus status features
  if priority.isTruthy then keep (hasPriority priority) selected else .ok selected

end Selection

end Acceptance
