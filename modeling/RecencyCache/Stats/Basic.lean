/-! # Statistics

  Seven counters that a cache keeps about the requests it has served. They
  are 64-bit words that start at zero.

  A lookup that is answered is a hit or a miss; a value that is stored is an
  insertion of a new entry or an update of one that is there; an insertion
  may have cost an eviction; a deletion is counted if it found its key.
-/

namespace RecencyCache

/-- The counters of a cache. -/
structure Stats where
  /-- Lookups begun. -/
  lookups : UInt64 := 0
  /-- Lookups that found their key. -/
  hits : UInt64 := 0
  /-- Lookups that did not find their key. -/
  misses : UInt64 := 0
  /-- New entries. -/
  insertions : UInt64 := 0
  /-- Values replaced in place. -/
  updates : UInt64 := 0
  /-- Entries that had to leave a full cache. -/
  evictions : UInt64 := 0
  /-- Deletions that found their key. -/
  deletions : UInt64 := 0
deriving DecidableEq

/-- The names of the counters, in the order in which they are written out. -/
inductive Counter where
  /-- Lookups begun. -/
  | lookups
  /-- Lookups that found their key. -/
  | hits
  /-- Lookups that did not find their key. -/
  | misses
  /-- New entries. -/
  | insertions
  /-- Values replaced in place. -/
  | updates
  /-- Entries that had to leave a full cache. -/
  | evictions
  /-- Deletions that found their key. -/
  | deletions
deriving DecidableEq

namespace Counter

/-- All counters in their order. -/
def all : List Counter :=
  [.lookups, .hits, .misses, .insertions, .updates, .evictions, .deletions]

/-- No counter is left out. -/
theorem mem_all (c : Counter) : c ∈ all := by
  cases c <;> decide

/-- The name under which a counter is written. -/
def name : Counter → String
  | .lookups => "lookups"
  | .hits => "hits"
  | .misses => "misses"
  | .insertions => "insertions"
  | .updates => "updates"
  | .evictions => "evictions"
  | .deletions => "deletions"

/-- The counter with a given name. -/
def ofName? (s : String) : Option Counter := all.find? fun c => c.name == s

end Counter

namespace Stats

/-- The counters as a function of their names. -/
def count (s : Stats) : Counter → UInt64
  | .lookups => s.lookups
  | .hits => s.hits
  | .misses => s.misses
  | .insertions => s.insertions
  | .updates => s.updates
  | .evictions => s.evictions
  | .deletions => s.deletions

/-- The statistics with given counters. -/
def ofCount (f : Counter → UInt64) : Stats where
  lookups := f .lookups
  hits := f .hits
  misses := f .misses
  insertions := f .insertions
  updates := f .updates
  evictions := f .evictions
  deletions := f .deletions

@[simp] theorem ofCount_count (s : Stats) : ofCount s.count = s := rfl

@[simp] theorem count_ofCount (f : Counter → UInt64) : (ofCount f).count = f := by
  funext c
  cases c <;> rfl

/-- The statistics with every counter at zero. -/
def reset (_ : Stats) : Stats := {}

/-- The share of lookups that were hits, as the quotient of the two counters rounded to doubles.
    It is zero before the first lookup. -/
def hitRate (s : Stats) : Float :=
  if s.lookups = 0 then 0.0 else s.hits.toFloat / s.lookups.toFloat

end Stats

end RecencyCache
