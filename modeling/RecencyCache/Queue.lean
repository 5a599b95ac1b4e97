import RecencyCache.Slot

/-! # Recency queue

  What a cache of bounded size does, without slots and links: a list of
  entries, the least recently used one first, of which no two have equal
  keys.

  - A lookup that finds its key moves the entry to the end.
  - Storing under a key that is there replaces the value, keeps the key's
    first spelling and moves the entry to the end. Storing under any other
    key appends an entry, and drops the first one if the queue is full.
  - Removing takes the entry out.
-/

namespace RecencyCache

/-- Entries in the order of their last use. -/
structure Queue (K V : Type) where
  /-- The number of entries that fit. -/
  capacity : Nat
  /-- The entries, the least recently used one first. -/
  entries : List (Entry K V)

namespace Queue

variable {K V : Type}

/-- A queue without entries. -/
def empty (capacity : Nat) : Queue K V := ⟨capacity, []⟩

/-- The keys, the least recently used one first. -/
def keys (q : Queue K V) : List K := q.entries.map (·.key)

variable [BEq K]

/-- The entry under a key. -/
def find? (q : Queue K V) (k : K) : Option (Entry K V) := q.entries.find? (·.key == k)

/-- The entries under other keys. -/
def without (q : Queue K V) (k : K) : List (Entry K V) := q.entries.filter fun e => !(e.key == k)

/-- The value under a key, and the queue with its entry at the end. -/
def lookup (q : Queue K V) (k : K) : Option V × Queue K V :=
  match q.find? k with
  | none => (none, q)
  | some e => (some e.value, { q with entries := q.without k ++ [e] })

/-- Whether a key is new, and the queue with a value stored under it. -/
def store (q : Queue K V) (k : K) (v : V) : Bool × Queue K V :=
  match q.find? k with
  | some e => (false, { q with entries := q.without k ++ [{ e with value := v }] })
  | none =>
    let kept := if q.entries.length < q.capacity then q.entries else q.entries.tail
    (true, { q with entries := kept ++ [⟨k, v⟩] })

/-- The value under a key, and the queue without it. -/
def remove (q : Queue K V) (k : K) : Option V × Queue K V :=
  match q.find? k with
  | none => (none, q)
  | some e => (some e.value, { q with entries := q.without k })

/-- The queue without its entries. -/
def clear (q : Queue K V) : Queue K V := { q with entries := [] }

end Queue

end RecencyCache
