import RecencyCache.Cache.Requests
import RecencyCache.Proofs.Table.Access

/-! # What a call does to a cache

  Building a cache has two outcomes, by what the check of the options says
  (`ofOptions_of_ok`, `ofOptions_of_error`).

  Each call runs at most one operation of the table, and what it counts and
  notes follows from the outcome. One equation a call says so, for all
  tables: those of a working cache, and damaged ones, on which the operation
  may fault.

  A request is one such call, with an answer worked out from what the call
  returns (`handle_induction`). Which call it is, the action of the request
  says. A history is the list of requests that a cache has served (`run`).
-/

namespace RecencyCache.Cache

variable {K V : Type} [BEq K]

/-! ### Building -/

/-- The cache that options give if they pass their check. -/
def built (o : Options) : Cache K V where
  name := o.name
  capacity := o.capacity
  table := .fresh o.capacity
  stats := {}
  journal := [.created o.capacity]

theorem ofOptions_of_ok {o : Options} (h : o.check = .ok ()) :
    (ofOptions o : Except Fault (Except Options.Invalid (Cache K V))) = .ok (.ok (built o)) := by
  have hcap := ((Options.check_eq_ok_iff o).mp h).1
  unfold ofOptions Table.ofCapacity
  rw [h, if_neg (Nat.not_lt.mpr hcap)]
  rfl

theorem ofOptions_of_error {o : Options} {cause : Options.Invalid} (h : o.check = .error cause) :
    (ofOptions o : Except Fault (Except Options.Invalid (Cache K V))) = .ok (.error cause) := by
  unfold ofOptions
  rw [h]
  rfl

/-! ### Calls -/

/-- A lookup, by what the table answers. -/
theorem get_eq (k : K) (c : Cache K V) :
    Cache.get k c =
      match Table.lookup k c.table with
      | .ok (some v) table => .ok (some v)
          { c with
            table
            stats := { c.stats with lookups := c.stats.lookups + 1, hits := c.stats.hits + 1 } }
      | .ok none table => .ok none
          { c with
            table
            stats := { c.stats with lookups := c.stats.lookups + 1, misses := c.stats.misses + 1 } }
      | .error fault table => .error fault
          { c with table, stats := { c.stats with lookups := c.stats.lookups + 1 } } := by
  -- The lookup is counted before the table is asked, so also if the table faults.
  show (onTable (Table.lookup k) >>= _) { c with stats := _ } = _
  simp only [bind, EStateM.bind, onTable]
  cases Table.lookup k c.table with
  | ok a table => cases a <;> rfl
  | error fault table => rfl

/-- Storing, by what the table answers. -/
theorem set_eq (k : K) (v : V) (c : Cache K V) :
    Cache.set k v c =
      match Table.insert k v c.table with
      | .ok .inserted table => .ok true
          { c with table, stats := { c.stats with insertions := c.stats.insertions + 1 } }
      | .ok (.updated _) table => .ok false
          { c with table, stats := { c.stats with updates := c.stats.updates + 1 } }
      | .ok (.evicted _ _) table => .ok true
          { c with
            table
            stats :=
              { c.stats with
                insertions := c.stats.insertions + 1, evictions := c.stats.evictions + 1 }
            journal := c.journal ++ [.evicted] }
      | .error fault table => .error fault { c with table } := by
  unfold Cache.set
  simp only [bind, EStateM.bind, onTable]
  cases Table.insert k v c.table with
  | ok outcome table => cases outcome <;> rfl
  | error fault table => rfl

/-- Removing, by what the table answers. -/
theorem remove_eq (k : K) (c : Cache K V) :
    remove k c =
      match Table.remove k c.table with
      | .ok (some v) table => .ok (some v)
          { c with table, stats := { c.stats with deletions := c.stats.deletions + 1 } }
      | .ok none table => .ok none { c with table }
      | .error fault table => .error fault { c with table } := by
  unfold remove
  simp only [bind, EStateM.bind, onTable]
  cases Table.remove k c.table with
  | ok a table => cases a <;> rfl
  | error fault table => rfl

/-- Clearing always works. -/
theorem clear_eq [OwnsMemory V] (c : Cache K V) :
    clear c = .ok ()
      { c with table := c.table.cleared (OwnsMemory.owns V), journal := c.journal ++ [.cleared] } :=
  rfl

/-- A question to the table changes nothing. -/
theorem onTable_reading_eq {α : Type} (f : Table K V → Except Fault α) (c : Cache K V) :
    onTable (Table.reading f) c =
      match f c.table with
      | .ok a => .ok a c
      | .error fault => .error fault c := by
  unfold onTable Table.reading
  cases f c.table <;> rfl

/-! ### Requests -/

/-- What a request does to entries and counters. -/
inductive Action (K V : Type) where
  /-- Look a key up, which makes its entry the youngest. -/
  | find (k : K)
  /-- Store a value. -/
  | store (k : K) (v : V)
  /-- Drop a key. -/
  | drop (k : K)
  /-- Drop every key. -/
  | dropAll
  /-- Set the counters to zero. -/
  | recount
  /-- Change nothing. -/
  | read

/-- The action of a request. -/
def Request.action {K V : Type} : Request K V → Action K V
  | .get k | .tryGet k _ | .getOrDefault k => .find k
  | .set k v | .setOrDelete k (some v) => .store k v
  | .setOrDelete k none | .delete k | .remove k => .drop k
  | .clear => .dropAll
  | .resetStats => .recount
  | _ => .read

section

variable [OwnsMemory V] [Inhabited V]

/-- A request is one call for its action, and an answer worked out from what the call returns. What
    holds of the calls, and is kept when answers are worked out, holds of all requests. -/
theorem handle_induction {P : ∀ {α : Type}, Action K V → CacheM K V α → Prop}
    (answer : ∀ {α β : Type} {a : Action K V} {x : CacheM K V α} {f : α → CacheM K V β},
      P a x → (∀ b, ∃ d, f b = pure d) → P a (x >>= f))
    (find : ∀ k, P (.find k) (Cache.get k)) (store : ∀ k v, P (.store k v) (Cache.set k v))
    (drop : ∀ k, P (.drop k) (remove k)) (dropAll : P .dropAll clear)
    (recount : P .recount resetStats)
    (ask : ∀ {α : Type} (f : Table K V → Except Fault α), P .read (onTable (Table.reading f)))
    (look : ∀ f : Cache K V → Response K V, P .read (fun c => .ok (f c) c))
    (r : Request K V) : P r.action (handle r) := by
  have hdelete : ∀ k, P (.drop k) (delete k : CacheM K V Bool) :=
    fun k => answer (drop k) fun _ => ⟨_, rfl⟩
  cases r with
  | get k => exact answer (find k) fun _ => ⟨_, rfl⟩
  | tryGet k before =>
    have htry : P (.find k) (tryGet k before) :=
      answer (find k) fun o => by cases o <;> exact ⟨_, rfl⟩
    exact answer htry fun _ => ⟨_, rfl⟩
  | getOrDefault k =>
    have hplain : P (.find k) (getOrDefault k) :=
      answer (find k) fun o => by cases o <;> exact ⟨_, rfl⟩
    exact answer hplain fun _ => ⟨_, rfl⟩
  | set k v => exact answer (store k v) fun _ => ⟨_, rfl⟩
  | setOrDelete k o =>
    cases o with
    | none => exact answer (hdelete k) fun _ => ⟨_, rfl⟩
    | some v => exact answer (store k v) fun _ => ⟨_, rfl⟩
  | delete k => exact answer (hdelete k) fun _ => ⟨_, rfl⟩
  | remove k => exact answer (drop k) fun _ => ⟨_, rfl⟩
  | clear => exact answer dropAll fun _ => ⟨_, rfl⟩
  | resetStats => exact answer recount fun _ => ⟨_, rfl⟩
  | keys => exact answer (ask _) fun _ => ⟨_, rfl⟩
  | verify => exact answer (ask _) fun _ => ⟨_, rfl⟩
  | contains k => exact look fun c => .flag (c.table.contains k)
  | count => exact look fun c => .number c.table.size
  | isEmpty => exact look fun c => .flag (c.table.size == 0)
  | capacity => exact look fun c => .number c.capacity
  | name => exact look fun c => .text c.name
  | stats => exact look fun c => .stats c.stats
  | hitRate => exact look fun c => .rate c.stats.hitRate
  | describe => exact look fun c => .text c.description
  | describeLong => exact look fun c => .text c.longDescription

end

/-! ### Histories -/

section

variable [OwnsMemory V] [Inhabited V]

/-- Serves one request after the other. -/
def run : List (Request K V) → CacheM K V (List (Response K V))
  | [] => return []
  | r :: rs => do
    let answer ← handle r
    return answer :: (← run rs)

/-- A history goes on from where its first request ended. -/
theorem run_cons {c c' c'' : Cache K V} {r : Request K V} {rs : List (Request K V)}
    {a : Response K V} {as : List (Response K V)} (h : handle r c = .ok a c')
    (hs : run rs c' = .ok as c'') : run (r :: rs) c = .ok (a :: as) c'' := by
  unfold run
  rw [Table.bind_of_ok h, Table.bind_of_ok hs]
  rfl

/-- A history that was served to its end was served request by request. -/
theorem steps_of_run_cons {c c'' : Cache K V} {r : Request K V} {rs : List (Request K V)}
    {answers : List (Response K V)} (h : run (r :: rs) c = .ok answers c'') :
    ∃ a c' as, handle r c = .ok a c' ∧ run rs c' = .ok as c'' := by
  unfold run at h
  obtain ⟨a, c', ha, h⟩ := Table.steps_of_bind h
  obtain ⟨as, c₂, has, h⟩ := Table.steps_of_bind h
  cases h
  exact ⟨a, c', as, ha, has⟩

end

end RecencyCache.Cache
