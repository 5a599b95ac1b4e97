import RecencyCache.Proofs.Cache.Actions
import RecencyCache.Proofs.Queue.Inclusion

/-! # A larger cache is never worse

  Two caches that differ in their capacity serve the same history. That their
  queues are one within the other (`Queue.Within`) shows in what can be asked
  of them, and in their counters.

  Counters are words and start over after `2 ^ 64`. The comparison is of the
  numbers that they are the words of, and of the words themselves for as long
  as there were fewer requests than that.
-/

namespace RecencyCache.Cache

variable {K V : Type} [BEq K]

/-- What a cache has, another one has, too, in the same order. -/
structure Within (c c' : Cache K V) : Prop where
  /-- The keys are a subsequence of those of the other. -/
  keys : ∃ ks ks', keysByRecency c = .ok ks c ∧ keysByRecency c' = .ok ks' c' ∧ Subkeys ks ks'
  /-- What is found in the one is found in the other. -/
  values : ∀ k v, c.Finds k v → c'.Finds k v

variable {c c' : Cache K V} {q q' : Queue K V}

theorem within_of_queues [EquivBEq K] (h : c.Represents q) (h' : c'.Represents q')
    (hq' : q'.Proper) (hwithin : q.Within q') : c.Within c' where
  keys := by
    exact ⟨_, _, h.keysByRecency, h'.keysByRecency, hwithin.keys⟩
  values := by
    intro k v hfinds
    obtain ⟨e, hk, rfl⟩ := h.finds_iff.mp hfinds
    obtain ⟨e', hk', -, hvalue⟩ := hwithin.find?_of_some hq' hk
    exact h'.finds_iff.mpr ⟨e', hk', hvalue.symm⟩

/-- Numbers below the size of a word compare as their words do. -/
theorem Counts.le {n n' : Counter → Nat} {x : Counter} (h : c.Counts n) (h' : c'.Counts n')
    (hx : n x < 2 ^ 64) (hx' : n' x < 2 ^ 64) (hle : n x ≤ n' x) :
    c.stats.count x ≤ c'.stats.count x := by
  rw [UInt64.le_iff_toNat_le, h.toNat_eq hx, h'.toNat_eq hx']
  exact hle

/-- Two caches, of which the second has at least the capacity of the first, serve the same history
    from the start. Afterwards the keys of the first are a subsequence of those of the second, and
    what a lookup finds in the first it finds in the second, with the same answer. The hits of the
    first are at most those of the second, and its insertions and evictions at least those of the
    second. -/
theorem larger_is_no_worse [EquivBEq K] [OwnsMemory V] [Inhabited V] {o o' : Options}
    (h : o.check = .ok ()) (h' : o'.check = .ok ()) (hle : o.capacity ≤ o'.capacity)
    (rs : List (Request K V)) :
    ∃ c₀ c₀' answers answers' c c' n n',
      ofOptions o = .ok (.ok c₀) ∧ ofOptions o' = .ok (.ok c₀') ∧
      run rs c₀ = .ok answers c ∧ run rs c₀' = .ok answers' c' ∧
      c.Within c' ∧
      (∀ r k v, r.action = .find k → c.Finds k v →
        ∃ a c₁ c₁', handle r c = .ok a c₁ ∧ handle r c' = .ok a c₁') ∧
      n = (Queue.empty o.capacity).tally (fun _ => 0) (rs.map (·.action)) ∧
      n' = (Queue.empty o'.capacity).tally (fun _ => 0) (rs.map (·.action)) ∧
      c.Counts n ∧ c'.Counts n' ∧ Queue.NoWorse n n' ∧
      (rs.length < 2 ^ 64 → c.stats.hits ≤ c'.stats.hits ∧
        c'.stats.insertions ≤ c.stats.insertions ∧ c'.stats.evictions ≤ c.stats.evictions) := by
  let as : List (Action K V) := rs.map (·.action)
  have hroom := ((Options.check_eq_ok_iff o).mp h).1
  have hempty := Queue.proper_empty (K := K) (V := V) hroom
  have hempty' := Queue.proper_empty (K := K) (V := V) (Nat.le_trans hroom hle)
  have hstart := Queue.within_empty (K := K) (V := V) hle
  obtain ⟨answers, c, hrun, hc⟩ := (represents_built h).serve rs
  obtain ⟨answers', c', hrun', hc'⟩ := (represents_built h').serve rs
  have hcounts := counts_of_run (represents_built h) (counts_built o) hrun
  have hcounts' := counts_of_run (represents_built h') (counts_built o') hrun'
  have hbetter := hstart.tally hempty hempty' as (.refl fun _ => 0)
  have hwithin := within_of_queues hc hc' (hempty'.after as) (hstart.after hempty hempty' as)
  refine ⟨_, _, answers, answers', c, c', _, _, ofOptions_of_ok h, ofOptions_of_ok h', hrun, hrun',
    hwithin, ?_, rfl, rfl, hcounts, hcounts', hbetter, ?_⟩
  · intro r k v hr hfinds
    obtain ⟨a, ha⟩ := exists_answer hr v
    obtain ⟨c₁, hc₁⟩ := ha c hfinds
    obtain ⟨c₁', hc₁'⟩ := ha c' (hwithin.values k v hfinds)
    exact ⟨a, c₁, c₁', hc₁, hc₁'⟩
  · intro hlength
    -- With so few requests no counter has started over.
    have hsmall : ∀ (m : Nat) (x : Counter),
        (Queue.empty m).tally (fun _ => 0) as x < 2 ^ 64 := by
      intro m x
      have hbound := Queue.tally_le (Queue.empty m) (fun _ => 0) as x
      have hsame : as.length = rs.length := List.length_map _
      omega
    exact ⟨hcounts.le hcounts' (hsmall _ .hits) (hsmall _ .hits) hbetter.hits,
      hcounts'.le hcounts (hsmall _ .insertions) (hsmall _ .insertions) hbetter.insertions,
      hcounts'.le hcounts (hsmall _ .evictions) (hsmall _ .evictions) hbetter.evictions⟩

/-- With room for two entries both lookups are hits, with room for one only the second one is. -/
theorem larger_is_no_worse_two :
    (Options.ofCapacity 1).check = .ok () ∧ (Options.ofCapacity 2).check = .ok () ∧
      ∃ c₀ c₀' answers answers' c c',
        ofOptions (.ofCapacity 1) = .ok (.ok (c₀ : Cache Nat Nat)) ∧
        ofOptions (.ofCapacity 2) = .ok (.ok (c₀' : Cache Nat Nat)) ∧
        run [.set 1 10, .set 2 20, .get 1, .get 2] c₀ = .ok answers c ∧
        run [.set 1 10, .set 2 20, .get 1, .get 2] c₀' = .ok answers' c' ∧
        c.Within c' ∧ c.stats.hits ≤ c'.stats.hits := by
  have hcheck : (Options.ofCapacity 1).check = .ok () := rfl
  have hcheck' : (Options.ofCapacity 2).check = .ok () := rfl
  let rs : List (Request Nat Nat) := [.set 1 10, .set 2 20, .get 1, .get 2]
  have hle : (Options.ofCapacity 1).capacity ≤ (Options.ofCapacity 2).capacity := by decide
  obtain ⟨c₀, c₀', answers, answers', c, c', -, -, hc, hc', hrun, hrun', hwithin, -, -, -, -, -, -,
    hwords⟩ := larger_is_no_worse hcheck hcheck' hle rs
  have hlength : rs.length < 2 ^ 64 := by decide
  exact ⟨hcheck, hcheck', c₀, c₀', answers, answers', c, c', hc, hc', hrun, hrun', hwithin,
    (hwords hlength).1⟩

end RecencyCache.Cache
