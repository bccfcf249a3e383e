import Acceptance.Feature.Entry

/-! # Tallies

How many features there are and how many have been accepted, in all, by priority and by category.
-/

namespace Acceptance

/-- How many there are, and how many of them are accepted. -/
structure Count where
  total : Nat
  completed : Nat
  deriving DecidableEq

/-- Counts by key, in the order in which the keys come up. -/
abbrev Counts := List (Key × Count)

structure Tally where
  total : Nat
  completed : Nat
  byPriority : Counts
  byCategory : Counts
  deriving DecidableEq

namespace Counts

/-- Counts one more under a key. -/
def add : Counts → Key → Bool → Counts
  | [], key, passes => [(key, { total := 1, completed := passes.toNat })]
  | c :: rest, key, passes =>
    if c.1.same key then
      (c.1, { total := c.2.total + 1, completed := c.2.completed + passes.toNat }) :: rest
    else c :: add rest key passes

def toValue (counts : Counts) : Value :=
  .object (counts.map fun c =>
    (c.1, Value.record [("total", .int c.2.total), ("completed", .int c.2.completed)]))

end Counts

namespace Tally

/-- The key under which a value is counted. -/
def keyOf (v : Value) : Except Fault Key :=
  match v.key? with
  | some key => .ok key
  | none => .error .wrongKind

/-- Adds the entries to the counts. -/
def addAll (byPriority byCategory : Counts) : List Entries → Except Fault (Counts × Counts)
  | [] => .ok (byPriority, byCategory)
  | e :: rest => do
    let priority ← keyOf (Entry.priority e)
    let category ← keyOf (Entry.category e)
    let passes := Entry.passes e
    addAll (byPriority.add priority passes) (byCategory.add category passes) rest

/-- The tally of some entries. -/
def ofEntries (entries : List Entries) : Except Fault Tally := do
  let (byPriority, byCategory) ← addAll [] [] entries
  .ok
    { total := entries.length
      completed := entries.countP Entry.passes
      byPriority
      byCategory }

/-- The tally of the features of a project file. -/
def ofValues (features : List Value) : Except Fault Tally := do
  ofEntries (← Entry.allFields features)

/-- The share of accepted features in percent, to two places; zero of nothing. -/
def percentage (t : Tally) : Value :=
  if t.total = 0 then .int 0
  else .real ((Binary64.ofRatio false t.completed t.total).timesNat 100).toHundredths

def toValue (t : Tally) : Value :=
  Value.record
    [("total_features", .int t.total), ("completed_features", .int t.completed),
      ("completion_percentage", t.percentage), ("by_priority", t.byPriority.toValue),
      ("by_category", t.byCategory.toValue)]

end Tally

end Acceptance
