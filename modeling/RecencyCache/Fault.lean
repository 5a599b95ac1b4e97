import RecencyCache.Options

/-! # Faults

  A fault ends an operation half way: what the operation changed before it
  stays changed. A sound table never faults; the faults are what a damaged
  one, or a caller that breaks a promise, is answered with.

  - A `Breach` is a check that an operation makes on the structure it is
    about to rely on. Its wording is that of a corruption error.
  - The other faults are a slot number past the end of the slot array, a
    table without slots, an index that asks for too much room, and options
    that do not pass their check.
-/

namespace RecencyCache

/-- A check on the recency ring or a slot that failed in the middle of an operation. -/
inductive Breach where
  /-- The slot of a key taken out of the index holds no entry. -/
  | vacantIndexed
  /-- A slot that is read as part of the ring holds no entry. -/
  | vacantLinked
  /-- The oldest slot holds no entry to evict. -/
  | vacantOldest
  /-- An entry should be evicted, but no slot is the oldest. -/
  | evictionFromEmpty
  /-- A slot should leave the ring, but no slot is the oldest. -/
  | unlinkFromEmpty
  /-- A slot is its own neighbour without being the oldest one. -/
  | strayLoop
deriving DecidableEq

/-- The wording of a failed check. -/
def Breach.toError : Breach → Error
  | .vacantIndexed => .corruption "indexed slot is vacant"
  | .vacantLinked => .corruption "linked slot is vacant"
  | .vacantOldest => .corruption "recency pointer references a vacant slot"
  | .evictionFromEmpty => .corruption "eviction requested on an empty recency list"
  | .unlinkFromEmpty => .corruption "unlink called on an empty recency list"
  | .strayLoop => .corruption "single-node list is not anchored at the recency pointer"

/-- Why an operation stopped before its end. -/
inductive Fault where
  /-- A table was to be built without slots. -/
  | zeroCapacity
  /-- An index was to be built with room for more than `Index.maxSize` keys. -/
  | indexTooLarge
  /-- Slot `index` was to be read or written in an array of `size` slots. -/
  | outOfRange (size index : Nat)
  /-- A check on the structure failed. -/
  | breach (b : Breach)
  /-- A cache was to be built from options that do not pass their check. -/
  | invalidOptions (cause : Options.Invalid)
deriving DecidableEq

/-- The sentence shown to a reader. -/
def Fault.message : Fault → String
  | .zeroCapacity => "slot table capacity must be >= 1"
  | .indexTooLarge => "Hash table capacity overflow"
  | .outOfRange size index =>
    "index out of bounds: the len is " ++ toString size ++ " but the index is " ++ toString index
  | .breach b => b.toError.message
  | .invalidOptions cause => cause.toError.message

end RecencyCache
