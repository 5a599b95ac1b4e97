import RecencyCache.Proofs.Cache.Residency

/-! # Counters against contents

  The counters say how many entries came and went, so they say how many
  there are, up to what they do not count: the entries that were there when
  the counters were set to zero, and the entries that clearing discards.

  - A `Ledger` keeps these two numbers along a history.
  - `Balanced` relates it to the counters and to the number of entries. Every
    action keeps the balance (`Balanced.act`), so every history does
    (`Represents.balance`).
  - An eviction is counted for a new key in a full queue, and costs it one
    entry for one (`Queue.Proper.counts_evictions`).
-/

namespace RecencyCache

namespace Cache

/-- What the counters leave out. -/
structure Ledger where
  /-- How many entries there were when counting began. -/
  opening : Nat
  /-- How many entries were discarded since then by clearing. -/
  discarded : Nat

/-- The ledger after an action, of a cache that has `size` entries before it. -/
def Ledger.enter {K V : Type} (l : Ledger) (size : Nat) : Action K V → Ledger
  | .recount => ⟨size, 0⟩
  | .dropAll => { l with discarded := l.discarded + size }
  | _ => l

end Cache

namespace Queue

open Cache (Action Ledger)

variable {K V : Type} [BEq K] {q : Queue K V} {n : Counter → Nat} {l : Ledger}

/-- The counters and the ledger account for the entries. -/
structure Balanced (q : Queue K V) (n : Counter → Nat) (l : Ledger) : Prop where
  /-- What came is there, or it went. -/
  entries : q.entries.length + n .evictions + n .deletions + l.discarded =
    l.opening + n .insertions
  /-- No entry leaves for another one that is not counted. -/
  evictions_le : n .evictions ≤ n .insertions
  /-- A lookup finds its key or not. -/
  lookups : n .hits + n .misses = n .lookups

omit [BEq K] in
/-- An empty queue balances counters at zero. -/
theorem balanced_empty (capacity : Nat) :
    (empty capacity : Queue K V).Balanced (fun _ => 0) ⟨0, 0⟩ :=
  ⟨rfl, Nat.le_refl 0, rfl⟩

/-- What is counted as evicted is counted as inserted. -/
theorem counts_evictions_le (q : Queue K V) (a : Action K V) :
    q.counts a .evictions ≤ q.counts a .insertions := by
  cases a with
  | store k v =>
    cases hk : q.find? k with
    | none => simp [counts, hk, Bool.toNat_le]
    | some e => simp [counts, hk]
  | _ => exact Nat.le_refl 0

/-- A lookup is counted as one that found its key or as one that did not. -/
theorem counts_lookups (q : Queue K V) (a : Action K V) :
    q.counts a .hits + q.counts a .misses = q.counts a .lookups := by
  cases a with
  | find k => cases hk : q.find? k <;> simp [counts, hk]
  | _ => rfl

/-- Every action but one counts from where the counters are. -/
theorem counted_of_ne (q : Queue K V) (n : Counter → Nat) {a : Action K V} (ha : a ≠ .recount) :
    q.counted n a = fun x => n x + q.counts a x := by
  cases a with
  | recount => exact absurd rfl ha
  | _ => rfl

/-- An action keeps the balance if it counts the entries that come and those that go. -/
theorem Balanced.count (h : q.Balanced n l) {q' : Queue K V} {a : Action K V}
    (hlen : q'.entries.length + q.counts a .evictions + q.counts a .deletions =
      q.entries.length + q.counts a .insertions) :
    q'.Balanced (fun x => n x + q.counts a x) l := by
  obtain ⟨hentries, hevictions, hlookups⟩ := h
  have hle := counts_evictions_le q a
  have hsum := counts_lookups q a
  exact ⟨by omega, by omega, by omega⟩

variable [EquivBEq K]

/-- A lookup changes the order of the entries at most. -/
theorem Proper.length_find (h : q.Proper) (k : K) :
    (q.act (.find k)).entries.length = q.entries.length := by
  cases hk : q.find? k with
  | none => rw [act_find_of_none hk]
  | some e =>
    rw [h.act_find_of_some hk]
    unfold Queue.raise
    rw [h.drop_without hk, List.length_append, List.length_singleton]
    exact h.length_without hk

/-- Storing adds what it counts as inserted and takes what it counts as evicted. -/
theorem Proper.length_store (h : q.Proper) (k : K) (v : V) :
    (q.act (.store k v)).entries.length + q.counts (.store k v) .evictions =
      q.entries.length + q.counts (.store k v) .insertions := by
  have hfits := h.fits
  have hroom := h.room
  rw [h.act_store]
  unfold Queue.raise
  rw [List.length_append, List.length_drop, List.length_singleton]
  cases hk : q.find? k with
  | none =>
    -- A full queue loses its first entry to the new one.
    have hins : q.counts (.store k v) .insertions = 1 := by simp [counts, hk]
    rw [without_of_none hk, hins]
    by_cases hfull : q.capacity ≤ q.entries.length
    · have hev : q.counts (.store k v) .evictions = 1 := by simp [counts, hk, hfull]
      omega
    · have hev : q.counts (.store k v) .evictions = 0 := by simp [counts, hk, hfull]
      omega
  | some e =>
    have hlen := h.length_without hk
    have hins : q.counts (.store k v) .insertions = 0 := by simp [counts, hk]
    have hev : q.counts (.store k v) .evictions = 0 := by simp [counts, hk]
    omega

/-- Dropping a key takes what it counts as deleted. -/
theorem Proper.length_drop (h : q.Proper) (k : K) :
    (q.act (.drop k)).entries.length + q.counts (.drop k) .deletions = q.entries.length := by
  rw [act_drop]
  cases hk : q.find? k with
  | none => simp [counts, hk, without_of_none hk]
  | some e =>
    have hlen := h.length_without hk
    simpa [counts, hk] using hlen

/-- Every action keeps the balance. -/
theorem Balanced.act (h : q.Balanced n l) (hq : q.Proper) (a : Action K V) :
    (q.act a).Balanced (q.counted n a) (l.enter q.entries.length a) := by
  cases a with
  | find k => exact h.count (hq.length_find k)
  | store k v => exact h.count (hq.length_store k v)
  | drop k =>
    apply h.count
    have hlen := hq.length_drop k
    simpa [counts] using hlen
  | dropAll =>
    -- The ledger takes over the entries that go.
    obtain ⟨hentries, hevictions, hlookups⟩ := h
    refine ⟨?_, hevictions, hlookups⟩
    show 0 + n .evictions + n .deletions + (l.discarded + q.entries.length) =
      l.opening + n .insertions
    omega
  | recount => exact ⟨rfl, Nat.le_refl 0, rfl⟩
  | read => exact h

/-- An eviction is counted for storing in a full queue, which stays full. -/
theorem Proper.counts_evictions (h : q.Proper) {a : Action K V}
    (ha : q.counts a .evictions ≠ 0) :
    (∃ k v, a = .store k v) ∧ q.entries.length = q.capacity ∧
      (q.act a).entries.length = q.capacity := by
  cases a with
  | store k v =>
    have hfits := h.fits
    have hlen := h.length_store k v
    cases hk : q.find? k with
    | some e => simp [counts, hk] at ha
    | none =>
      have hins : q.counts (.store k v) .insertions = 1 := by simp [counts, hk]
      by_cases hfull : q.capacity ≤ q.entries.length
      · have hev : q.counts (.store k v) .evictions = 1 := by simp [counts, hk, hfull]
        exact ⟨⟨k, v, rfl⟩, by omega, by omega⟩
      · simp [counts, hk, hfull] at ha
  | _ => exact absurd rfl ha

end Queue

namespace Cache

variable {K V : Type} [BEq K] {c : Cache K V} {q : Queue K V} {n : Counter → Nat} {l : Ledger}

/-! ### Histories -/

theorem Represents.size_eq (h : c.Represents q) : c.table.size = q.entries.length := by
  obtain ⟨ring, hring⟩ := h.table
  exact hring.size_eq

variable [OwnsMemory V] [Inhabited V]

/-- The ledger after a history, which is told of the number of entries before every request. -/
def Ledger.keep (l : Ledger) (c : Cache K V) : List (Request K V) → Ledger
  | [] => l
  | r :: rs => (l.enter c.table.size r.action).keep (c.after [r]) rs

/-- The ledger after a history with which counting began. -/
def ledger (c : Cache K V) (rs : List (Request K V)) : Ledger := Ledger.keep ⟨c.table.size, 0⟩ c rs

variable [EquivBEq K]

/-- Every history keeps the balance. -/
theorem Represents.balance (h : c.Represents q) (hq : q.Proper) (hb : q.Balanced n l)
    (rs : List (Request K V)) :
    (q.after (rs.map (·.action))).Balanced (q.tally n (rs.map (·.action))) (l.keep c rs) := by
  induction rs generalizing c q n l with
  | nil => exact hb
  | cons r rs ih =>
    have hact := hb.act hq r.action
    rw [← h.size_eq] at hact
    exact ih (h.after [r]) (hq.act r.action) hact

/-- If the next request counts an eviction, it stores in a full cache, and leaves it full. -/
theorem Represents.evicts (h : c.Represents q) (hq : q.Proper) (hn : c.Counts n)
    (r : Request K V) :
    ∃ a c', Cache.handle r c = .ok a c' ∧
      (r.action = .recount ∨ c'.stats.evictions = c.stats.evictions ∨
        (∃ k v, r.action = .store k v) ∧ c.table.size = q.capacity ∧
          Cache.count c' = .ok q.capacity c') := by
  obtain ⟨a, c', hrun, h'⟩ := h.act r
  refine ⟨a, c', hrun, ?_⟩
  by_cases hrecount : r.action = .recount
  · exact .inl hrecount
  have hn' := counting_handle r h hn hrun .evictions
  rw [Queue.counted_of_ne q n hrecount] at hn'
  dsimp only at hn'
  by_cases hnone : q.counts r.action .evictions = 0
  · rw [hnone, Nat.add_zero, ← hn] at hn'
    exact .inr (.inl hn')
  · obtain ⟨hstore, hfull, hstays⟩ := hq.counts_evictions hnone
    have hcount := h'.count
    rw [hstays] at hcount
    exact .inr (.inr ⟨hstore, h.size_eq.trans hfull, hcount⟩)

/-- At every point of a history that is not as long as a word has values, the counters balance the
    number of entries: since they were last set to zero it has changed by the insertions, less the
    evictions, the deletions and what clearing discarded. No more entries were evicted than
    inserted, and every lookup was a hit or a miss.

    Whichever request comes next, it counts no eviction unless it stores in a full cache, and then
    the cache stays full. -/
theorem counters_balance {o : Options} (h : o.check = .ok ()) (rs : List (Request K V))
    (hlen : rs.length < 2 ^ 64) :
    ∃ c answers c' size, ofOptions o = .ok (.ok c) ∧ run rs c = .ok answers c' ∧
      count c' = .ok size c' ∧
      (size : Int) - (c.ledger rs).opening =
        c'.stats.insertions.toNat - c'.stats.evictions.toNat - c'.stats.deletions.toNat -
          (c.ledger rs).discarded ∧
      c'.stats.evictions ≤ c'.stats.insertions ∧
      c'.stats.hits.toNat + c'.stats.misses.toNat = c'.stats.lookups.toNat ∧
      c'.stats.hits ≤ c'.stats.lookups ∧
      ∀ r, ∃ a c'', handle r c' = .ok a c'' ∧
        (r.action = .recount ∨ c''.stats.evictions = c'.stats.evictions ∨
          (∃ k v, r.action = .store k v) ∧ size = o.capacity ∧
            count c'' = .ok o.capacity c'') := by
  have hnew := represents_built (K := K) (V := V) h
  have hproper : (Queue.empty o.capacity : Queue K V).Proper :=
    Queue.proper_empty ((Options.check_eq_ok_iff o).mp h).1
  obtain ⟨answers, c', hrun, h'⟩ := hnew.serve rs
  have hbalance := hnew.balance hproper (Queue.balanced_empty o.capacity) rs
  have hcounts := counts_of_run hnew (counts_built o) hrun
  -- No counter has passed the largest word.
  have hword : ∀ x, (c'.stats.count x).toNat =
      (Queue.empty o.capacity).tally (fun _ => 0) (rs.map (·.action)) x := by
    intro x
    have hle := Queue.tally_le (Queue.empty o.capacity) (fun _ => 0) (rs.map (·.action)) x
    rw [List.length_map] at hle
    exact hcounts.toNat_eq (by omega)
  obtain ⟨hentries, hevictions, hlookups⟩ := hbalance
  simp only [← hword, ← h'.size_eq] at hentries hevictions hlookups
  refine ⟨_, answers, c', c'.table.size, ofOptions_of_ok h, hrun, rfl, ?_, hevictions, hlookups,
    ?_, ?_⟩
  · -- The balance of numbers, written with differences.
    show ((c'.table.size : Nat) : Int) - (Ledger.keep ⟨0, 0⟩ _ rs).opening =
      (c'.stats.count .insertions).toNat - (c'.stats.count .evictions).toNat -
        (c'.stats.count .deletions).toNat - (Ledger.keep ⟨0, 0⟩ _ rs).discarded
    omega
  · have hle : c'.stats.hits.toNat ≤ c'.stats.lookups.toNat := Nat.le.intro hlookups
    exact hle
  · intro r
    have hcap : ((Queue.empty o.capacity : Queue K V).after (rs.map (·.action))).capacity =
        o.capacity := Queue.capacity_after _ _
    have hnext := h'.evicts (hproper.after _) hcounts r
    rw [hcap] at hnext
    exact hnext

/-- With room for one entry the second key costs the first one its place, and the third finds the
    cache empty again. -/
theorem counters_balance_one :
    (Options.ofCapacity 1).check = .ok () ∧
      ∃ rs c answers c' size,
        rs = [.set 1 10, .resetStats, .set 2 20, .clear, .set 3 30, .get 3] ∧
        rs.length < 2 ^ 64 ∧ ofOptions (.ofCapacity 1) = .ok (.ok (c : Cache Nat Nat)) ∧
        run rs c = .ok answers c' ∧ c.ledger rs = ⟨1, 1⟩ ∧
        (size : Int) - 1 =
          c'.stats.insertions.toNat - c'.stats.evictions.toNat - c'.stats.deletions.toNat - 1 := by
  have hcheck : (Options.ofCapacity 1).check = .ok () := rfl
  have hbuilt := ofOptions_of_ok (K := Nat) (V := Nat) hcheck
  obtain ⟨c, answers, c', size, hc, hrun, -, hbalance, -⟩ :=
    counters_balance (K := Nat) (V := Nat) hcheck
      [.set 1 10, .resetStats, .set 2 20, .clear, .set 3 30, .get 3] (by decide)
  rw [hbuilt] at hc
  cases hc
  exact ⟨hcheck, _, _, answers, c', size, rfl, by decide, hbuilt, hrun, rfl, hbalance⟩

end Cache

end RecencyCache
