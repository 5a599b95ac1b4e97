import RecencyCache.Error

/-! # Damage

  What can be wrong with a slot table: one constructor for each way in which
  the slot array, the index, the free stack and the ring can fail to fit
  together.
-/

namespace RecencyCache

/-- A broken invariant of a slot table. -/
inductive Damage where
  /-- More keys are indexed than there are slots. -/
  | overfull (size capacity : Nat)
  /-- Keys are indexed, but no slot is the oldest. -/
  | unanchored (size : Nat)
  /-- The oldest slot is past the end of the slot array. -/
  | oldestOutOfRange (slot : Nat)
  /-- The ring comes back to a slot other than its start. -/
  | linkedTwice (slot : Nat)
  /-- A slot of the ring holds no entry. -/
  | vacantLinked (slot : Nat)
  /-- The index does not lead from the key of a slot of the ring to that slot. -/
  | notIndexed (slot : Nat)
  /-- A slot of the ring links past the end of the slot array. -/
  | linkOutOfRange (slot next : Nat)
  /-- Slot `next` follows `slot` in the ring but has another slot before it. -/
  | noLinkBack (slot next : Nat)
  /-- The ring and the index differ in size. -/
  | sizeMismatch (linked indexed : Nat)
  /-- A slot on the free stack is past the end of the slot array. -/
  | freeOutOfRange (slot : Nat)
  /-- A slot on the free stack is in the ring, or on the stack a second time. -/
  | freeInUse (slot : Nat)
  /-- A slot on the free stack holds an entry. -/
  | freeOccupied (slot : Nat)
deriving DecidableEq

/-- The wording of a report. -/
def Damage.toError : Damage → Error
  | .overfull size capacity =>
    .corruption ("lookup table holds " ++ toString size ++ " entries, capacity is "
      ++ toString capacity)
  | .unanchored size =>
    .corruption ("recency list is empty but " ++ toString size ++ " keys are indexed")
  | .oldestOutOfRange slot =>
    .corruption ("recency pointer " ++ toString slot ++ " out of range")
  | .linkedTwice slot =>
    .corruption ("slot " ++ toString slot ++ " linked twice")
  | .vacantLinked slot =>
    .corruption ("linked slot " ++ toString slot ++ " is vacant")
  | .notIndexed slot =>
    .corruption ("slot " ++ toString slot ++ " is not indexed under its key")
  | .linkOutOfRange slot next =>
    .corruption ("slot " ++ toString slot ++ " links to out-of-range slot " ++ toString next)
  | .noLinkBack slot next =>
    .corruption ("slot " ++ toString next ++ " does not link back to slot " ++ toString slot)
  | .sizeMismatch linked indexed =>
    .corruption ("recency list holds " ++ toString linked ++ " slots, lookup table holds "
      ++ toString indexed)
  | .freeOutOfRange slot =>
    .corruption ("free slot " ++ toString slot ++ " out of range")
  | .freeInUse slot =>
    .corruption ("slot " ++ toString slot ++ " is both linked and free, or free twice")
  | .freeOccupied slot =>
    .corruption ("free slot " ++ toString slot ++ " still holds an entry")

/-- The outcome of checking a table. -/
inductive Verdict where
  /-- Every invariant holds. -/
  | sound
  /-- An invariant is broken; this is the first one found. -/
  | damaged (d : Damage)
deriving DecidableEq

end RecencyCache
