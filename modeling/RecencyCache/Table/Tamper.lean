import RecencyCache.Table.Operations

/-! # Tampering with a table

  Writes that no operation makes, for producing damaged tables on purpose.
  The accesses of `Table.Basic` change one link, one entry or the start of
  the ring; the two here change the index and a stored value. They check
  nothing beyond the range of the slot number.
-/

namespace RecencyCache.Table

variable {K V : Type} [BEq K]

/-- Binds a key to any slot number, or drops it from the index. -/
def tamperIndex (k : K) : Option Nat → TableM K V Unit
  | some i => bindKey k i
  | none => unbindKey k

/-- Overwrites the value of an occupied slot. -/
def tamperValue (i : Nat) (v : V) : TableM K V Unit := do
  let _ ← replaceValue i v

end RecencyCache.Table
