import RecencyCache.Stats.Basic

/-! # Statistics as text

  Statistics are exported as a JSON object on one line without blanks. It
  has a member for each counter, in the order of `Counter.all`.
-/

namespace RecencyCache.Stats

/-- The text of one counter: its name in quotes, a colon and its decimal digits. -/
def member (s : Stats) (c : Counter) : List Char :=
  '"' :: c.name.toList ++ ['"', ':'] ++ Nat.toDigits 10 (s.count c).toNat

/-- The text of all counters. -/
def toText (s : Stats) : String :=
  String.ofList ('{' :: List.intercalate [','] (Counter.all.map s.member) ++ ['}'])

end RecencyCache.Stats
