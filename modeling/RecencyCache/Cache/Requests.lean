import RecencyCache.Cache.Basic

/-! # Requests to a cache

  The public operations of a cache as data, so that a history of a cache is
  a list. `handle` carries out one request.
-/

namespace RecencyCache.Cache

/-- A call of a public operation. -/
inductive Request (K V : Type) where
  /-- Look a key up. -/
  | get (k : K)
  /-- Look a key up, with a value to fall back on. -/
  | tryGet (k : K) (before : V)
  /-- Look a key up, with the default value to fall back on. -/
  | getOrDefault (k : K)
  /-- Store a value. -/
  | set (k : K) (v : V)
  /-- Store a value, or drop the key if there is none. -/
  | setOrDelete (k : K) (v : Option V)
  /-- Drop a key. -/
  | delete (k : K)
  /-- Drop a key and hand its value back. -/
  | remove (k : K)
  /-- Ask whether a key is there. -/
  | contains (k : K)
  /-- Ask for the number of entries. -/
  | count
  /-- Ask whether there is no entry. -/
  | isEmpty
  /-- Ask how many entries fit. -/
  | capacity
  /-- Ask for the name. -/
  | name
  /-- Drop every entry. -/
  | clear
  /-- Ask for the counters. -/
  | stats
  /-- Set the counters to zero. -/
  | resetStats
  /-- Ask for the share of lookups that were hits. -/
  | hitRate
  /-- List the keys, least recently used first. -/
  | keys
  /-- Check the table. -/
  | verify
  /-- Describe the cache in one line. -/
  | describe
  /-- Describe the cache with one line for each field. -/
  | describeLong

/-- The answer to a request. -/
inductive Response (K V : Type) where
  /-- The value found or removed, if there was one. -/
  | value (v : Option V)
  /-- Whether the key was found, and the value at hand afterwards. -/
  | attempt (found : Bool) (out : V)
  /-- A value. -/
  | plain (v : V)
  /-- Yes or no. -/
  | flag (b : Bool)
  /-- A number of entries. -/
  | number (n : Nat)
  /-- A name or a description. -/
  | text (s : String)
  /-- Nothing to say. -/
  | done
  /-- The counters. -/
  | stats (s : Stats)
  /-- A share of lookups. -/
  | rate (r : Float)
  /-- Keys, least recently used first. -/
  | keys (ks : List K)
  /-- The outcome of a check. -/
  | verdict (v : Verdict)

variable {K V : Type} [BEq K] [OwnsMemory V] [Inhabited V]

/-- Carries out a request. -/
def handle : Request K V → CacheM K V (Response K V)
  | .get k => return .value (← Cache.get k)
  | .tryGet k before => do
    let (found, out) ← tryGet k before
    return .attempt found out
  | .getOrDefault k => return .plain (← getOrDefault k)
  | .set k v => return .flag (← Cache.set k v)
  | .setOrDelete k v => return .flag (← setOrDelete k v)
  | .delete k => return .flag (← delete k)
  | .remove k => return .value (← remove k)
  | .contains k => return .flag (← contains k)
  | .count => return .number (← count)
  | .isEmpty => return .flag (← isEmpty)
  | .capacity => return .number (← get).capacity
  | .name => return .text (← get).name
  | .clear => do
    clear
    return .done
  | .stats => return .stats (← get).stats
  | .resetStats => do
    resetStats
    return .done
  | .hitRate => return .rate (← get).stats.hitRate
  | .keys => return .keys (← keysByRecency)
  | .verify => return .verdict (← verify)
  | .describe => return .text (← get).description
  | .describeLong => return .text (← get).longDescription

end RecencyCache.Cache
