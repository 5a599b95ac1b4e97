import RecencyCache.Stats.Basic
import RecencyCache.Text.Quoted

/-! # Texts that are no statistics

  What a reader of exported statistics may find fault with. A text that is
  not JSON at all is `malformed`. A JSON text that means something other
  than statistics has a `Mismatch`.
-/

namespace RecencyCache.Stats

/-- What a value was found to be. -/
inductive Found where
  /-- The null value. -/
  | null
  /-- A truth value. -/
  | boolean (b : Bool)
  /-- A whole number of 64 bits, with its sign. -/
  | integer (n : Int)
  /-- Any other number. -/
  | floating
  /-- A string. -/
  | string (s : String)
  /-- An array. -/
  | sequence
  /-- An object. -/
  | mapping
deriving DecidableEq

/-- The wording for a kind of value. -/
def Found.describe : Found → String
  | .null => "null"
  | .boolean b => "boolean `" ++ (if b then "true" else "false") ++ "`"
  | .integer n => "integer `" ++ toString n ++ "`"
  | .floating => "floating point"
  | .string s => "string " ++ Text.quoted s
  | .sequence => "sequence"
  | .mapping => "map"

/-- How a JSON text fails to be statistics. -/
inductive Mismatch where
  /-- The object has no member for a counter. -/
  | missing (c : Counter)
  /-- The object has a second member for a counter. -/
  | duplicate (c : Counter)
  /-- The array ends after fewer than seven elements. -/
  | short (length : Nat)
  /-- A counter is given by something other than an unsigned word. -/
  | notCount (found : Found)
  /-- The whole text is neither an object nor an array. -/
  | notStats (found : Found)
deriving DecidableEq

/-- The wording of a mismatch. Of a floating-point number no more than its kind is told. -/
def Mismatch.message : Mismatch → String
  | .missing c => "missing field `" ++ c.name ++ "`"
  | .duplicate c => "duplicate field `" ++ c.name ++ "`"
  | .short length =>
    "invalid length " ++ toString length ++ ", expected struct CacheStats with 7 elements"
  | .notCount .floating | .notStats .floating => "invalid type: " ++ Found.floating.describe
  | .notCount (.integer n) => "invalid value: " ++ (Found.integer n).describe ++ ", expected u64"
  | .notCount found => "invalid type: " ++ found.describe ++ ", expected u64"
  | .notStats found => "invalid type: " ++ found.describe ++ ", expected struct CacheStats"

/-- Why a text cannot be read. -/
inductive Unreadable where
  /-- The text is not JSON, or has something after its end. -/
  | malformed
  /-- The text is JSON up to a place where it is seen not to be statistics. -/
  | mismatch (m : Mismatch)
deriving DecidableEq

end RecencyCache.Stats
