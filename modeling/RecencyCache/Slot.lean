/-! # Slots

  A table keeps its entries in a fixed array of slots. A slot may hold one
  entry, and it always carries the numbers of two neighbours. The links of
  the occupied slots form the recency ring; those of a vacant slot are
  whatever they were when it was last used.
-/

namespace RecencyCache

/-- A key with the value stored under it. -/
structure Entry (K V : Type) where
  /-- The key, in the spelling it was first stored with. -/
  key : K
  /-- The value last stored under the key. -/
  value : V
deriving DecidableEq

/-- One place of the slot array. A fresh slot is vacant, with both links at slot 0. -/
structure Slot (K V : Type) where
  /-- What the slot holds. -/
  entry : Option (Entry K V) := none
  /-- The slot used next after this one. -/
  next : Nat := 0
  /-- The slot used last before this one. -/
  prev : Nat := 0
deriving DecidableEq

end RecencyCache
