import RecencyCache.Table.Operations
import RecencyCache.Table.Verify

/-! # Requests to a table

  The public operations of a slot table as data, so that a history of a
  table is a list. `handle` carries out one request.
-/

namespace RecencyCache.Table

/-- A call of a public operation. -/
inductive Request (K V : Type) where
  /-- Store a value under a key. -/
  | insert (k : K) (v : V)
  /-- Look a key up and make its entry the youngest. -/
  | lookup (k : K)
  /-- Drop a key. -/
  | remove (k : K)
  /-- Ask whether a key is there. -/
  | contains (k : K)
  /-- Ask for the number of keys. -/
  | size
  /-- Drop every entry. -/
  | clear
  /-- List the keys, least recently used first. -/
  | keys
  /-- Check the table. -/
  | verify

/-- The answer to a request. -/
inductive Response (K V : Type) where
  /-- What storing an entry did. -/
  | stored (outcome : Insertion K V)
  /-- The value found or removed, if there was one. -/
  | value (v : Option V)
  /-- Yes or no. -/
  | flag (b : Bool)
  /-- A number of keys. -/
  | number (n : Nat)
  /-- Nothing to say. -/
  | done
  /-- Keys, least recently used first. -/
  | keys (ks : List K)
  /-- The outcome of a check. -/
  | verdict (v : Verdict)
deriving DecidableEq

variable {K V : Type} [BEq K] [OwnsMemory V]

/-- Carries out a request. -/
def handle : Request K V → TableM K V (Response K V)
  | .insert k v => return .stored (← insert k v)
  | .lookup k => return .value (← lookup k)
  | .remove k => return .value (← remove k)
  | .contains k => return .flag ((← get).contains k)
  | .size => return .number (← get).size
  | .clear => do
    clear
    return .done
  | .keys => return .keys (← reading keysByRecency)
  | .verify => return .verdict (← reading verify)

end RecencyCache.Table
