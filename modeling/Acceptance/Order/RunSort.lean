/-! # Sorting by runs

A stable sort that takes the runs which it finds in a list, makes them long enough, and merges
neighbours. By an order every stable sort comes to the same. Elements that have no place of their
own, such as what is no number, end up where the comparisons lead, so here it is fixed which
elements are compared, and when.
-/

namespace Acceptance

namespace RunSort

variable {α : Type}

/-! ## Places

The elements of a run are asked by their numbers whether they are below a place.
-/

/-- The number of elements below a place, found by halving the `room` elements from `low` on. -/
def halve (below : Nat → Bool) (low room : Nat) : Nat :=
  go room low room
where
  /-- Halves at most `fuel` times. -/
  go : Nat → Nat → Nat → Nat
    | 0, low, _ => low
    | fuel + 1, low, room =>
      if room = 0 then low
      else if below (low + room / 2) then go fuel (low + room / 2 + 1) (room - room / 2 - 1)
      else go fuel low (room / 2)

/-- Goes on in strides that about double, as long as `on` holds and the limit is not reached: the
last stride for which it held, and the one after it. -/
def stride (on : Nat → Bool) (limit : Nat) : Nat × Nat :=
  go limit 0 1
where
  /-- Makes at most `fuel` strides. -/
  go : Nat → Nat → Nat → Nat × Nat
    | 0, last, next => (last, min next limit)
    | fuel + 1, last, next =>
      if next < limit && on next then go fuel next (2 * next + 1) else (last, min next limit)

/-- The number of elements below a place, sought in strides from the element `start` on. -/
def gallop (below : Nat → Bool) (count start : Nat) : Nat :=
  if below start then
    let (last, next) := stride (fun d => below (start + d)) (count - start)
    halve below (start + last + 1) (next - last - 1)
  else
    let (last, next) := stride (fun d => !below (start - d)) (start + 1)
    halve below (start + 1 - next) (next - last - 1)

/-- The number of elements of `xs` below a place. -/
def gallopIn (below : α → Bool) (xs : List α) (start : Nat) : Nat :=
  gallop (fun i => xs[i]?.any below) xs.length start

/-! ## Two runs -/

/-- The end of the runs at which merging starts. -/
inductive Side where
  | front
  | back
  deriving DecidableEq

/-- Two runs that are being merged, with the side at which it is done in front. -/
structure Merging (α : Type) where
  /-- What has been merged, the last element in front. -/
  done : List α
  low : List α
  high : List α

namespace Merging

/-- What comes after the merged elements when one run is used up. The last element of the run that
was set aside belongs behind all of the other one. -/
def rest? (side : Side) (low high : List α) : Option (List α) :=
  match side, low, high with
  | _, low, [] => some low
  | _, [], high => some high
  | .front, [x], high => some (high ++ [x])
  | .back, low, [y] => some (low ++ [y])
  | _, _, _ => none

/-- Stops with the whole when one run is used up. -/
def settle (side : Side) (m : Merging α) : Except (List α) (Merging α) :=
  match rest? side m.low m.high with
  | some rest => .error (m.done.reverse ++ rest)
  | none => .ok m

/-- Takes elements of the lower run. -/
def takeLow (side : Side) (count : Nat) (m : Merging α) : Except (List α) (Merging α) :=
  settle side
    { m with done := (m.low.take count).reverse ++ m.done, low := m.low.drop count }

/-- Takes elements of the higher run. -/
def takeHigh (side : Side) (count : Nat) (m : Merging α) : Except (List α) (Merging α) :=
  settle side
    { m with done := (m.high.take count).reverse ++ m.done, high := m.high.drop count }

variable (before : α → α → Bool) (side : Side)

/-- Is the next element taken from the higher run? -/
def takesHigh (m : Merging α) : Bool :=
  match m.low, m.high with
  | x :: _, y :: _ => before y x = (side = .front)
  | _, _ => false

/-- How many elements in front of `xs` are taken before one that splits the run by `below`. -/
def lead (below : α → Bool) (xs : List α) : Nat :=
  match side with
  | .front => gallopIn below xs 0
  | .back => xs.length - gallopIn below xs.reverse (xs.length - 1)

/-- How many elements of the lower run are taken before the next one of the higher. -/
def lowLead (m : Merging α) : Nat :=
  match m.high with
  | [] => 0
  | y :: _ => lead side (fun x => !before y x) m.low

/-- How many elements of the higher run are taken before the next one of the lower. -/
def highLead (m : Merging α) : Nat :=
  match m.low with
  | [] => 0
  | x :: _ => lead side (fun y => before y x) m.high

/-- Takes all that leads of the lower run and one of the higher, then the other way round; tells the
longer of the two leads. -/
def leap (m : Merging α) : Except (List α) (Nat × Merging α) := do
  let lows := lowLead before side m
  let m ← m.takeLow side lows
  let m ← m.takeHigh side 1
  let highs := highLead before side m
  let m ← m.takeHigh side highs
  let m ← m.takeLow side 1
  .ok (max lows highs, m)

end Merging

/-- How two runs are merged: one by one, with the number of times that the lower or higher run has
won in a row, or in leaps. -/
inductive Pace where
  | single (lows highs : Nat)
  | leaps

/-- A lead of this length makes leaps worthwhile. -/
def longLead : Nat := 7

/-- Merges on: the whole, and the number of wins in a row after which leaps are tried; `fuel` bounds
the elements that are left. -/
def mergeOn (before : α → α → Bool) (side : Side) :
    Nat → Pace → Nat → Merging α → List α × Nat
  | 0, _, patience, m => (m.done.reverse ++ m.low ++ m.high, patience)
  | fuel + 1, .single lows highs, patience, m =>
    let high := m.takesHigh before side
    match if high then m.takeHigh side 1 else m.takeLow side 1 with
    | .error whole => (whole, patience)
    | .ok m =>
      let lows := if high then 0 else lows + 1
      let highs := if high then highs + 1 else 0
      let pace := if patience ≤ max lows highs then .leaps else .single lows highs
      mergeOn before side fuel pace patience m
  | fuel + 1, .leaps, patience, m =>
    match m.leap before side with
    | .error whole => (whole, patience)
    | .ok (lead, m) =>
      if longLead ≤ lead then mergeOn before side fuel .leaps (max (patience - 1) 1) m
      else mergeOn before side fuel (.single 0 0) (patience + 1) m

/-- Merges two runs of which it is known that the first element belongs to the higher and the last
one to the lower. The shorter run is set aside: merging starts at the front if it is the lower. -/
def mergeBetween (before : α → α → Bool) (patience : Nat) (low high : List α) : List α × Nat :=
  let fuel := low.length + high.length
  if low.length ≤ high.length then
    match Merging.takeHigh .front 1 { done := [], low, high } with
    | .error whole => (whole, patience)
    | .ok m => mergeOn before .front fuel (.single 0 0) patience m
  else
    match Merging.takeLow .back 1 { done := [], low := low.reverse, high := high.reverse } with
    | .error whole => (whole.reverse, patience)
    | .ok m =>
      let (whole, patience) := mergeOn before .back fuel (.single 0 0) patience m
      (whole.reverse, patience)

/-- Merges two runs; what is in place at both ends stays there. -/
def merge (before : α → α → Bool) (patience : Nat) (low high : List α) : List α × Nat :=
  match high with
  | [] => (low, patience)
  | y :: _ =>
    let first := gallopIn (fun x => !before y x) low 0
    match (low.drop first).getLast? with
    | none => (low ++ high, patience)
    | some x =>
      let count := gallopIn (fun y => before y x) high (high.length - 1)
      if count = 0 then (low ++ high, patience)
      else
        let (whole, patience) := mergeBetween before patience (low.drop first) (high.take count)
        (low.take first ++ whole ++ high.drop count, patience)

/-! ## All runs -/

/-- The elements in front each of which comes before the one in front of it, or does not. -/
def runFrom (before : α → α → Bool) (down : Bool) (last : α) : List α → List α × List α
  | [] => ([], [])
  | x :: rest =>
    if before x last = down then
      let (run, others) := runFrom before down x rest
      (x :: run, others)
    else ([], x :: rest)

/-- The run in front, turned round if it goes down, and what comes after it. -/
def frontRun (before : α → α → Bool) : List α → List α × List α
  | [] => ([], [])
  | [x] => ([x], [])
  | x :: y :: rest =>
    let down := before y x
    let (run, others) := runFrom before down x (y :: rest)
    (if down then (x :: run).reverse else x :: run, others)

/-- Puts an element into a run. -/
def insert (before : α → α → Bool) (run : List α) (x : α) : List α :=
  let place := halve (fun i => !run[i]?.any (before x)) 0 run.length
  run.take place ++ x :: run.drop place

/-- How long a run has to be at least, in a list of `count` elements. -/
def leastRun (count : Nat) : Nat :=
  go count count false
where
  /-- Halves at most `fuel` times, and rounds up if anything was left over. -/
  go : Nat → Nat → Bool → Nat
    | 0, count, odd => if odd then count + 1 else count
    | fuel + 1, count, odd =>
      if count < 64 then if odd then count + 1 else count
      else go fuel (count / 2) (odd || count % 2 = 1)

/-- A run that waits to be merged. -/
structure Pending (α : Type) where
  /-- Where it starts in the list. -/
  start : Nat
  items : List α
  /-- The depth of its border with the run after it. -/
  depth : Nat

/-- The depth of the border between two runs: the first binary digit in which the middles of the
two, as parts of the list, differ. They are given twofold. -/
def depth (middle next count : Nat) : Nat :=
  go (count + 1) middle next
where
  /-- Looks at no more than `fuel` digits. -/
  go : Nat → Nat → Nat → Nat
    | 0, _, _ => 0
    | fuel + 1, a, b =>
      if count ≤ a then 1 + go fuel (2 * (a - count)) (2 * (b - count))
      else if count ≤ b then 1
      else 1 + go fuel (2 * a) (2 * b)

/-- Merges the last run with those before it whose borders are deeper. -/
def mergeDeeper (before : α → α → Bool) (border : Nat) (last : Pending α) (patience : Nat) :
    List (Pending α) → Pending α × List (Pending α) × Nat
  | [] => (last, [], patience)
  | p :: rest =>
    if border < p.depth then
      let (items, patience) := merge before patience p.items last.items
      mergeDeeper before border { p with items } patience rest
    else (last, p :: rest, patience)

/-- Puts a run behind those that wait, the last of which is in front. -/
def push (before : α → α → Bool) (count : Nat) (waiting : List (Pending α)) (patience : Nat)
    (items : List α) : List (Pending α) × Nat :=
  match waiting with
  | [] => ([{ start := 0, items, depth := 0 }], patience)
  | last :: rest =>
    let start := last.start + last.items.length
    let border := depth (last.start + start) (2 * start + items.length) count
    let (last, rest, patience) := mergeDeeper before border last patience rest
    ({ start, items, depth := 0 } :: { last with depth := border } :: rest, patience)

/-- Splits a list into runs, merging those that wait on the way; `fuel` bounds the runs. -/
def collect (before : α → α → Bool) (count : Nat) :
    Nat → List (Pending α) → Nat → List α → List (Pending α) × Nat
  | 0, waiting, patience, _ => (waiting, patience)
  | _, waiting, patience, [] => (waiting, patience)
  | fuel + 1, waiting, patience, x :: xs =>
    let (run, others) := frontRun before (x :: xs)
    let missing := leastRun count - run.length
    let run := (others.take missing).foldl (insert before) run
    let (waiting, patience) := push before count waiting patience run
    collect before count fuel waiting patience (others.drop missing)

/-- Merges the runs that wait, the last of which is in front: the last two, or the two before the
last if the earlier of these is shorter than the last. -/
def mergeAll (before : α → α → Bool) : Nat → Nat → List (Pending α) → List α
  | fuel + 1, patience, last :: p :: q :: rest =>
    if q.items.length < last.items.length then
      let (items, patience) := merge before patience q.items p.items
      mergeAll before fuel patience (last :: { q with items } :: rest)
    else
      let (items, patience) := merge before patience p.items last.items
      mergeAll before fuel patience ({ p with items } :: q :: rest)
  | _, patience, [last, p] => (merge before patience p.items last.items).1
  | _, _, waiting => waiting.reverse.flatMap (·.items)

/-- The elements in an order by `before`. -/
def sort (before : α → α → Bool) (xs : List α) : List α :=
  let (waiting, patience) := collect before xs.length xs.length [] longLead xs
  mergeAll before waiting.length patience waiting

end RunSort

end Acceptance
