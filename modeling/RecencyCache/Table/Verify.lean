import RecencyCache.Table.Basic
import RecencyCache.Table.Damage

/-! # Checking a table

  `verify` tells whether the four structures of a table fit together, and
  names the first thing that does not.

  It walks the ring once, from the oldest slot, and marks the slots it
  visits. At each slot it looks only at the slot, at its key's index entry
  and at the link back from the next slot (`inspect`). Afterwards it
  compares the number of marked slots with the number of keys, and goes
  through the free stack from the bottom, marking again (`inspectFree`).

  - **Every table gets a verdict**: `verify` reads slots through `slot`,
    which faults past the end of the array, so that it never does is a
    statement about the checks made before each access.
  - **The walk ends**: it takes a budget of one visit per slot. With the
    budget spent all slots are marked, so the next one is marked already.
-/

namespace RecencyCache.Table

variable {K V : Type} [BEq K]

/-! ### The ring -/

/-- The checks on one slot of the ring; the next slot if they pass. -/
def inspect (t : Table K V) (i : Nat) : Except Fault (Except Damage Nat) := do
  let s ← t.slot i
  match s.entry with
  | none => return .error (.vacantLinked i)
  | some e =>
    if t.index.find? e.key ≠ some i then return .error (.notIndexed i)
    if t.capacity ≤ s.next then return .error (.linkOutOfRange i s.next)
    -- The next slot is read only after its number was seen to be in range.
    if (← t.slot s.next).prev ≠ i then return .error (.noLinkBack i s.next)
    return .ok s.next

/-- What a walk along the ring has seen. -/
structure Walk where
  /-- The visited slots, the last one first. -/
  marked : List Nat
  /-- What stopped the walk, unless it came back to its start. -/
  damage : Option Damage

/-- Walks on from slot `i`, with `marked` slots behind, until the ring is back at `start`. -/
def walk (t : Table K V) (start : Nat) :
    (budget : Nat) → (marked : List Nat) → (i : Nat) → Except Fault Walk
  -- Every slot is marked, and so is slot `i`.
  | 0, marked, i => .ok ⟨marked, some (.linkedTwice i)⟩
  | budget + 1, marked, i => do
    if i ∈ marked then return ⟨marked, some (.linkedTwice i)⟩
    match ← t.inspect i with
    | .error d => return ⟨i :: marked, some d⟩
    | .ok next =>
      if next = start then return ⟨i :: marked, none⟩
      t.walk start budget (i :: marked) next

/-! ### The free stack -/

/-- The checks on a free stack, given from the bottom, next to `marked` slots that are in use. -/
def inspectFree (t : Table K V) : (marked : List Nat) → List Nat → Except Fault Verdict
  | _, [] => .ok .sound
  | marked, i :: rest => do
    if t.capacity ≤ i then return .damaged (.freeOutOfRange i)
    if i ∈ marked then return .damaged (.freeInUse i)
    if (← t.slot i).entry.isSome then return .damaged (.freeOccupied i)
    t.inspectFree (i :: marked) rest

/-! ### The whole table -/

/-- Checks every structural invariant of a table. -/
def verify (t : Table K V) : Except Fault Verdict := do
  if t.capacity < t.size then return .damaged (.overfull t.size t.capacity)
  match t.oldest with
  | none =>
    if t.size ≠ 0 then return .damaged (.unanchored t.size)
    t.inspectFree [] t.free.reverse
  | some start =>
    if t.capacity ≤ start then return .damaged (.oldestOutOfRange start)
    let w ← t.walk start t.capacity [] start
    match w.damage with
    | some d => return .damaged d
    | none =>
      if w.marked.length ≠ t.size then return .damaged (.sizeMismatch w.marked.length t.size)
      t.inspectFree w.marked t.free.reverse

end RecencyCache.Table
