import RecencyCache.Stats.Basic
import RecencyCache.Table.Operations
import RecencyCache.Table.Verify
import RecencyCache.Text.Quoted

/-! # Recency cache

  A cache of bounded size with a name, which counts what it does and keeps a
  journal. A full cache that is given a new key drops the least recently
  used entry.

  The order of effects within a call is part of its meaning, because a fault
  in the table keeps what was done before it:

  - a lookup is counted before the table is asked, and counted as a hit or a
    miss after it has answered;
  - everything else is counted after the table has done its work;
  - the journal gets its line last.
-/

namespace RecencyCache

/-- What a cache notes in its journal. -/
inductive Event where
  /-- The cache was built with this capacity. -/
  | created (capacity : Nat)
  /-- An entry had to leave. -/
  | evicted
  /-- All entries were dropped. -/
  | cleared
deriving DecidableEq

/-- The line that a journal shows for an event, under the cache's name. -/
def Event.line (name : String) : Event → String
  | .created capacity =>
    "DEBUG " ++ name ++ ": created LRU cache with capacity " ++ toString capacity
  | .evicted => "TRACE " ++ name ++ ": evicted least recently used entry"
  | .cleared => "DEBUG " ++ name ++ ": cleared"

/-- A bounded cache of values. -/
structure Cache (K V : Type) [BEq K] where
  /-- The name in the journal and in descriptions. -/
  name : String
  /-- The number of entries it may hold. -/
  capacity : Nat
  /-- The entries. -/
  table : Table K V
  /-- The counters. -/
  stats : Stats
  /-- The events, the latest last. -/
  journal : List Event

/-- A computation on a cache that may fault; a fault keeps the changes made before it. -/
abbrev CacheM (K V : Type) [BEq K] := EStateM Fault (Cache K V)

namespace Cache

variable {K V : Type} [BEq K]

/-! ### Building -/

/-- Builds an empty cache from options that pass their check. Memory for the slots and for the
    index is taken to be there: with it the table is the one that `Table.ofSizes` builds. The index
    grows when it has to, so the size asked for it never shows. -/
def ofOptions (o : Options) : Except Fault (Except Options.Invalid (Cache K V)) :=
  match o.check with
  | .error cause => return .error cause
  | .ok () => do
    let table ← Table.ofCapacity o.capacity
    return .ok
      { name := o.name
        capacity := o.capacity
        table
        stats := {}
        journal := [.created o.capacity] }

/-- Builds an empty cache of a given capacity, and faults if that is zero. -/
def ofCapacity (capacity : Nat) (name : String) : Except Fault (Cache K V) := do
  match ← ofOptions ((Options.ofCapacity capacity).withName name) with
  | .ok c => return c
  | .error cause => throw (.invalidOptions cause)

/-! ### Steps -/

/-- Runs a computation on the cache's table. Its fault is the cache's. -/
def onTable {α : Type} (x : TableM K V α) : CacheM K V α := fun c =>
  match x c.table with
  | .ok a table => .ok a { c with table }
  | .error fault table => .error fault { c with table }

/-- Changes the counters. -/
def tally (f : Stats → Stats) : CacheM K V Unit := modify fun c => { c with stats := f c.stats }

/-- Adds an event to the journal. -/
def note (e : Event) : CacheM K V Unit := modify fun c => { c with journal := c.journal ++ [e] }

/-- Hands the journal over and starts an empty one. -/
def takeJournal : CacheM K V (List Event) := modifyGet fun c => (c.journal, { c with journal := [] })

/-! ### Reading values -/

/-- The value under a key, whose entry becomes the most recently used. -/
protected def get (k : K) : CacheM K V (Option V) := do
  tally fun s => { s with lookups := s.lookups + 1 }
  match ← onTable (Table.lookup k) with
  | some v =>
    tally fun s => { s with hits := s.hits + 1 }
    return some v
  | none =>
    tally fun s => { s with misses := s.misses + 1 }
    return none

/-- Whether the key was found, with the value under it, or with `before` if it was not found. -/
def tryGet (k : K) (before : V) : CacheM K V (Bool × V) := do
  match ← Cache.get k with
  | some v => return (true, v)
  | none => return (false, before)

/-- The value under a key, or the default value of the type. -/
def getOrDefault [Inhabited V] (k : K) : CacheM K V V := do
  match ← Cache.get k with
  | some v => return v
  | none => return default

/-- Whether a key is there. This is not a lookup: it neither counts nor changes the order. -/
def contains (k : K) : CacheM K V Bool := return (← get).table.contains k

/-! ### Writing values -/

/-- Stores a value under a key. True if the key is new. -/
protected def set (k : K) (v : V) : CacheM K V Bool := do
  match ← onTable (Table.insert k v) with
  | .inserted =>
    tally fun s => { s with insertions := s.insertions + 1 }
    return true
  | .updated _ =>
    tally fun s => { s with updates := s.updates + 1 }
    return false
  | .evicted _ _ =>
    tally fun s => { s with insertions := s.insertions + 1, evictions := s.evictions + 1 }
    note .evicted
    return true

/-- Drops a key and hands its value back. -/
def remove (k : K) : CacheM K V (Option V) := do
  match ← onTable (Table.remove k) with
  | some v =>
    tally fun s => { s with deletions := s.deletions + 1 }
    return some v
  | none => return none

/-- Drops a key. True if it was there. -/
def delete (k : K) : CacheM K V Bool := return (← remove k).isSome

/-- Stores a value, or drops the key if there is none. -/
def setOrDelete (k : K) : Option V → CacheM K V Bool
  | some v => Cache.set k v
  | none => delete k

/-- Drops every entry. The counters keep their values. -/
def clear [OwnsMemory V] : CacheM K V Unit := do
  onTable Table.clear
  note .cleared

/-! ### Asking about the cache -/

/-- The number of entries. -/
def count : CacheM K V Nat := return (← get).table.size

/-- Whether there is no entry. -/
def isEmpty : CacheM K V Bool := return (← count) == 0

/-- The keys, least recently used first. -/
def keysByRecency : CacheM K V (List K) := onTable (Table.reading Table.keysByRecency)

/-- Checks the table. -/
def verify : CacheM K V Verdict := onTable (Table.reading Table.verify)

/-- Sets every counter to zero. -/
def resetStats : CacheM K V Unit := tally Stats.reset

/-! ### Descriptions -/

/-- The cache in one line, without its contents. -/
def description (c : Cache K V) : String :=
  "BoundedLruCache \x7b name: " ++ Text.quoted c.name ++ ", capacity: " ++ toString c.capacity
    ++ ", .. \x7d"

/-- The same with one line for each field. -/
def longDescription (c : Cache K V) : String :=
  "BoundedLruCache \x7b\n    name: " ++ Text.quoted c.name ++ ",\n    capacity: "
    ++ toString c.capacity ++ ",\n    ..\n\x7d"

end Cache

end RecencyCache
