import RecencyCache.Proofs.Cache.Steps
import RecencyCache.Proofs.Table.Refinement

/-! # A cache as a queue

  A cache answers as a plain queue does whose capacity is the cache's, for
  as long as nothing but requests changes it. The relation is that of tables
  (`Table.Represents`); counters and journal do not enter it.

  - Building an empty cache and an empty queue puts them in the relation.
  - A request to both gives the same answer and keeps them in it
    (`Represents.handle`).
  - So does a history (`Represents.run`).
-/

namespace RecencyCache.Cache

variable {K V : Type} [BEq K] {c : Cache K V} {q : Queue K V}

/-- A cache whose table represents a queue. -/
structure Represents (c : Cache K V) (q : Queue K V) : Prop where
  /-- The ring has the entries of the queue. -/
  table : ∃ ring, c.table.Represents q ring
  /-- As many entries fit as the cache says. -/
  capacity : c.capacity = q.capacity

/-- Options that pass their check give an empty cache. -/
theorem represents_built {o : Options} (h : o.check = .ok ()) :
    (built o : Cache K V).Represents (.empty o.capacity) :=
  ⟨⟨[], Table.represents_fresh ((Options.check_eq_ok_iff o).mp h).1⟩, rfl⟩

namespace Represents

/-- A question to the table is answered as the table answers it. -/
theorem reading {α : Type} (h : c.Represents q) {f : Table K V → Except Fault α} {a : α}
    (hf : ∀ ring, c.table.Represents q ring → f c.table = .ok a) :
    onTable (Table.reading f) c = .ok a c := by
  obtain ⟨ring, hring⟩ := h.table
  rw [onTable_reading_eq, hf ring hring]

theorem count (h : c.Represents q) : Cache.count c = .ok q.entries.length c := by
  obtain ⟨ring, hring⟩ := h.table
  rw [← hring.size_eq]
  rfl

theorem isEmpty (h : c.Represents q) : Cache.isEmpty c = .ok q.entries.isEmpty c := by
  have hempty : q.entries.isEmpty = (q.entries.length == 0) := by
    cases q.entries <;> rfl
  rw [hempty]
  exact Table.bind_of_ok h.count _

theorem keysByRecency (h : c.Represents q) : Cache.keysByRecency c = .ok q.keys c :=
  h.reading fun _ hring => hring.keysByRecency_eq

theorem verify (h : c.Represents q) : Cache.verify c = .ok .sound c :=
  h.reading fun _ hring => Table.verify_of_isSound hring.isTidy.isSound

theorem clear [OwnsMemory V] (h : c.Represents q) :
    ∃ c', Cache.clear c = .ok () c' ∧ c'.Represents q.clear := by
  obtain ⟨ring, hring⟩ := h.table
  exact ⟨_, clear_eq c, ⟨[], hring.cleared _⟩, h.capacity⟩

/-- A call that does what the queue does answers the request that it is made for. -/
theorem answer {α : Type} {x : CacheM K V α} {b : α} {q' : Queue K V} (f : α → Response K V)
    (h : ∃ c', x c = .ok b c' ∧ c'.Represents q') :
    ∃ a c', (x >>= fun b => pure (f b)) c = .ok a c' ∧ Queue.Agrees (some (f b)) a ∧
      c'.Represents q' := by
  obtain ⟨c', hrun, h'⟩ := h
  exact ⟨f b, c', Table.bind_of_ok hrun _, Queue.agrees_some _, h'⟩

variable [EquivBEq K]

theorem contains (h : c.Represents q) (k : K) :
    Cache.contains k c = .ok (q.find? k).isSome c := by
  obtain ⟨ring, hring⟩ := h.table
  rw [← hring.contains_eq k]
  rfl

theorem get (h : c.Represents q) (k : K) :
    ∃ c', Cache.get k c = .ok (q.lookup k).1 c' ∧ c'.Represents (q.lookup k).2 := by
  obtain ⟨ring, hring⟩ := h.table
  obtain ⟨t', ring', hrun, hring'⟩ := hring.lookup k
  have hcap : c.capacity = (q.lookup k).2.capacity := by
    rw [h.capacity, Queue.capacity_lookup]
  rw [get_eq, hrun]
  cases (q.lookup k).1 with
  | none => exact ⟨_, rfl, ⟨ring', hring'⟩, hcap⟩
  | some v => exact ⟨_, rfl, ⟨ring', hring'⟩, hcap⟩

theorem tryGet (h : c.Represents q) (k : K) (before : V) :
    ∃ c', Cache.tryGet k before c =
        .ok ((q.lookup k).1.isSome, (q.lookup k).1.getD before) c' ∧
      c'.Represents (q.lookup k).2 := by
  obtain ⟨c', hrun, h'⟩ := h.get k
  refine ⟨c', ?_, h'⟩
  unfold Cache.tryGet
  rw [Table.bind_of_ok hrun]
  cases (q.lookup k).1 <;> rfl

theorem getOrDefault [Inhabited V] (h : c.Represents q) (k : K) :
    ∃ c', Cache.getOrDefault k c = .ok ((q.lookup k).1.getD default) c' ∧
      c'.Represents (q.lookup k).2 := by
  obtain ⟨c', hrun, h'⟩ := h.get k
  refine ⟨c', ?_, h'⟩
  unfold Cache.getOrDefault
  rw [Table.bind_of_ok hrun]
  cases (q.lookup k).1 <;> rfl

theorem set (h : c.Represents q) (k : K) (v : V) :
    ∃ c', Cache.set k v c = .ok (q.store k v).1 c' ∧ c'.Represents (q.store k v).2 := by
  obtain ⟨ring, hring⟩ := h.table
  obtain ⟨t', ring', hrun, hring'⟩ := hring.insert k v
  have hcap : c.capacity = (q.store k v).2.capacity := by
    rw [h.capacity, Queue.capacity_store]
  rw [set_eq, hrun, ← Queue.isNew_outcome]
  cases q.outcome k with
  | inserted => exact ⟨_, rfl, ⟨ring', hring'⟩, hcap⟩
  | updated old => exact ⟨_, rfl, ⟨ring', hring'⟩, hcap⟩
  | evicted key value => exact ⟨_, rfl, ⟨ring', hring'⟩, hcap⟩

theorem remove (h : c.Represents q) (k : K) :
    ∃ c', Cache.remove k c = .ok (q.remove k).1 c' ∧ c'.Represents (q.remove k).2 := by
  obtain ⟨ring, hring⟩ := h.table
  obtain ⟨t', ring', hrun, hring'⟩ := hring.remove k
  have hcap : c.capacity = (q.remove k).2.capacity := by
    rw [h.capacity, Queue.capacity_remove]
  rw [remove_eq, hrun]
  cases (q.remove k).1 with
  | none => exact ⟨_, rfl, ⟨ring', hring'⟩, hcap⟩
  | some v => exact ⟨_, rfl, ⟨ring', hring'⟩, hcap⟩

theorem delete (h : c.Represents q) (k : K) :
    ∃ c', Cache.delete k c = .ok (q.remove k).1.isSome c' ∧ c'.Represents (q.remove k).2 := by
  obtain ⟨c', hrun, h'⟩ := h.remove k
  exact ⟨c', Table.bind_of_ok hrun _, h'⟩

variable [OwnsMemory V] [Inhabited V]

/-- A cache and a queue answer a request alike, and stay alike. -/
theorem handle (h : c.Represents q) (r : Request K V) :
    ∃ a c', Cache.handle r c = .ok a c' ∧ Queue.Agrees (q.handle r).1 a ∧
      c'.Represents (q.handle r).2 := by
  cases r with
  | get k => exact answer .value (h.get k)
  | tryGet k before => exact answer (fun p => .attempt p.1 p.2) (h.tryGet k before)
  | getOrDefault k => exact answer .plain (h.getOrDefault k)
  | set k v => exact answer .flag (h.set k v)
  | setOrDelete k o =>
    cases o with
    | none => exact answer .flag (h.delete k)
    | some v => exact answer .flag (h.set k v)
  | delete k => exact answer .flag (h.delete k)
  | remove k => exact answer .value (h.remove k)
  | contains k => exact answer .flag ⟨c, h.contains k, h⟩
  | count => exact answer .number ⟨c, h.count, h⟩
  | isEmpty => exact answer .flag ⟨c, h.isEmpty, h⟩
  | capacity =>
    refine ⟨.number c.capacity, c, rfl, ?_, h⟩
    rw [h.capacity]
    exact Queue.agrees_some _
  | clear => exact answer (fun _ => .done) h.clear
  | resetStats => exact ⟨_, _, rfl, Queue.agrees_some _, h.table, h.capacity⟩
  | keys => exact answer .keys ⟨c, h.keysByRecency, h⟩
  | verify => exact answer .verdict ⟨c, h.verify, h⟩
  | name | stats | hitRate | describe | describeLong =>
    exact ⟨_, c, rfl, Queue.agrees_none _, h⟩

/-- A cache and a queue answer a history alike, and stay alike. -/
theorem run (h : c.Represents q) (rs : List (Request K V)) :
    ∃ answers c', Cache.run rs c = .ok answers c' ∧
      List.Forall₂ Queue.Agrees (q.run rs).1 answers ∧ c'.Represents (q.run rs).2 := by
  -- On the requests, with the relation as the invariant.
  induction rs generalizing c q with
  | nil => exact ⟨[], c, rfl, .nil, h⟩
  | cons r rs ih =>
    obtain ⟨a, c₁, hrun, hagree, h₁⟩ := h.handle r
    obtain ⟨answers, c₂, hruns, hagrees, h₂⟩ := ih h₁
    exact ⟨a :: answers, c₂, run_cons hrun hruns, .cons hagree hagrees, h₂⟩

end Represents

/-- A cache built from options that pass their check answers every history of requests as an empty
    queue of its capacity does. Afterwards the cache lists the keys of the queue, in the spelling
    they were first stored with, from the least recently used one on. The slots of its ring hold
    the entries of the queue, of which there are never more than the capacity. -/
theorem run_refines_queue [EquivBEq K] [OwnsMemory V] [Inhabited V] {o : Options}
    (h : o.check = .ok ()) (rs : List (Request K V)) :
    ∃ c answers c' expected q, ofOptions o = .ok (.ok c) ∧ run rs c = .ok answers c' ∧
      (Queue.empty o.capacity).run rs = (expected, q) ∧
      List.Forall₂ Queue.Agrees expected answers ∧
      keysByRecency c' = .ok q.keys c' ∧
      (∃ ring, c'.table.IsSound ring ∧ List.Forall₂ c'.table.Holds ring q.entries) ∧
      q.entries.length ≤ o.capacity := by
  obtain ⟨answers, c', hrun, hagrees, h'⟩ := (represents_built h).run rs
  obtain ⟨ring, hring⟩ := h'.table
  have hsound := hring.isTidy.isSound
  have hcap : ((Queue.empty o.capacity).run rs).2.capacity = o.capacity :=
    Queue.capacity_run rs (.empty o.capacity)
  refine ⟨_, answers, c', _, _, ofOptions_of_ok h, hrun, rfl, hagrees,
    h'.keysByRecency, ⟨ring, hsound, ?_⟩, ?_⟩
  · rw [← hring.contents]
    exact hring.isTidy.isPacked.stocked.forall₂_holds
  · exact Nat.le_trans hring.length_le (Nat.le_of_eq hcap)

/-- With room for two entries the third one drops the entry that was not looked up. -/
theorem run_refines_queue_two :
    (Options.ofCapacity 2).check = .ok () ∧
      ∃ c answers c', ofOptions (.ofCapacity 2) = .ok (.ok (c : Cache Nat Nat)) ∧
        run [.set 1 10, .set 2 20, .get 1, .set 3 30] c = .ok answers c' ∧
        keysByRecency c' = .ok [1, 3] c' := by
  have hcheck : (Options.ofCapacity 2).check = .ok () := rfl
  let rs : List (Request Nat Nat) := [.set 1 10, .set 2 20, .get 1, .set 3 30]
  obtain ⟨c, answers, c', expected, q, hc, hrun, hq, -, hkeys, -⟩ := run_refines_queue hcheck rs
  have hqueue : q.keys = [1, 3] := by
    calc q.keys = ((Queue.empty 2).run rs).2.keys := (congrArg (·.2.keys) hq).symm
      _ = [1, 3] := by decide
  rw [hqueue] at hkeys
  exact ⟨hcheck, c, answers, c', hc, hrun, hkeys⟩

end RecencyCache.Cache
