import RecencyCache.Proofs.KeyLists
import RecencyCache.Proofs.Queue.Actions

/-! # More room never loses an entry

  Two queues are given the same actions, one with more room than the other.
  The smaller one is not simply the young end of the larger one: a lookup
  that only the larger one can answer reorders that one alone, and after a
  drop the two may have different numbers of places left. Two things stay
  true (`Within`).

  - **Subsequence**: the entries of the smaller queue are among those of the
    larger one, in the same order.
  - **Slack**: the larger queue is not further ahead in entries than it is in
    room. So it is full only if the smaller one is, and whenever it lets an
    entry go, the smaller one lets go at least as many.

  From them follows what the counters say (`NoWorse`): with more room there
  are no fewer hits, and no more insertions and evictions.
-/

namespace RecencyCache.Queue

open Cache (Action)

variable {K V : Type} [BEq K]

/-- Two entries with equal keys and the same value. -/
def SameEntry (x y : Entry K V) : Prop := (x.key == y.key) = true ∧ x.value = y.value

/-- The entries of `q` are within those of `q'`, which has at least as much room. -/
structure Within (q q' : Queue K V) : Prop where
  /-- The entries are a subsequence. -/
  entries : q.entries.SublistForall₂ SameEntry q'.entries
  /-- The difference in entries is at most the one in room. -/
  slack : q'.entries.length + q.capacity ≤ q.entries.length + q'.capacity

theorem within_empty {n m : Nat} (h : n ≤ m) : (empty n : Queue K V).Within (empty m) :=
  ⟨.nil, Nat.add_le_add_left h 0⟩

/-- Counters that go with more room: more hits, and fewer insertions and evictions. -/
structure NoWorse (n n' : Counter → Nat) : Prop where
  /-- Every hit is one with more room, too. -/
  hits : n .hits ≤ n' .hits
  /-- What is new with more room is new with less. -/
  insertions : n' .insertions ≤ n .insertions
  /-- What leaves with more room costs an entry with less, too. -/
  evictions : n' .evictions ≤ n .evictions

theorem NoWorse.refl (n : Counter → Nat) : NoWorse n n :=
  ⟨Nat.le_refl _, Nat.le_refl _, Nat.le_refl _⟩

theorem NoWorse.add {n n' m m' : Counter → Nat} (h : NoWorse n n') (hm : NoWorse m m') :
    NoWorse (fun x => n x + m x) (fun x => n' x + m' x) where
  hits := Nat.add_le_add h.hits hm.hits
  insertions := Nat.add_le_add h.insertions hm.insertions
  evictions := Nat.add_le_add h.evictions hm.evictions

namespace Within

variable {q q' : Queue K V} {k : K} {e e' : Entry K V}

theorem capacity_le (h : q.Within q') : q.capacity ≤ q'.capacity := by
  have hslack := h.slack
  have hlength := sublistForall₂_length_le h.entries
  omega

/-- The keys are a subsequence, too. -/
theorem keys (h : q.Within q') : Subkeys q.keys q'.keys := by
  unfold Subkeys Queue.keys
  rw [List.sublistForall₂_map_left_iff, List.sublistForall₂_map_right_iff]
  obtain ⟨l, hl, hsub⟩ := List.sublistForall₂_iff.mp h.entries
  exact List.sublistForall₂_iff.mpr ⟨l, hl.imp fun _ _ hxy => hxy.1, hsub⟩

variable [EquivBEq K]

/-! ### Finding -/

/-- What is found with less room is found with more. -/
theorem find?_of_some (h : q.Within q') (hq' : q'.Proper) (hk : q.find? k = some e) :
    ∃ e', q'.find? k = some e' ∧ SameEntry e e' := by
  obtain ⟨e', hin, hsame⟩ := sublistForall₂_exists_mem h.entries (mem_of_find? hk)
  have hkey : (e'.key == k) = true := BEq.trans (BEq.symm hsame.1) (key_of_find? hk)
  exact ⟨e', hq'.find?_of_mem hin hkey, hsame⟩

theorem isSome_le (h : q.Within q') (hq' : q'.Proper) (k : K) :
    (q.find? k).isSome.toNat ≤ (q'.find? k).isSome.toNat := by
  cases hk : q.find? k with
  | none => exact Nat.zero_le _
  | some e =>
    obtain ⟨e', hk', -⟩ := h.find?_of_some hq' hk
    rw [hk']
    exact Nat.le_refl _

/-- What is new with more room is new with less. -/
theorem isNone_le (h : q.Within q') (hq' : q'.Proper) (k : K) :
    (q'.find? k).isNone.toNat ≤ (q.find? k).isNone.toNat := by
  cases hk : q.find? k with
  | none => exact Bool.toNat_le _
  | some e =>
    obtain ⟨e', hk', -⟩ := h.find?_of_some hq' hk
    rw [hk']
    exact Nat.le_refl _

/-! ### Steps -/

/-- Without a key, too, the one queue is within the other. -/
theorem without (h : q.Within q') (k : K) :
    (q.without k).SublistForall₂ SameEntry (q'.without k) := by
  apply sublistForall₂_filter h.entries
  intro x y hxy
  rw [beq_congr_left hxy.1]

/-- The larger queue has at least as many entries to lose under a key. -/
theorem length_without_le (h : q.Within q') (k : K) :
    (q'.without k).length + q.entries.length ≤ (q.without k).length + q'.entries.length := by
  have hlost : (q.entries.filter fun x => x.key == k).SublistForall₂ SameEntry
      (q'.entries.filter fun x => x.key == k) :=
    sublistForall₂_filter h.entries fun x y hxy => beq_congr_left hxy.1 k
  have hle := sublistForall₂_length_le hlost
  have hsum := List.length_eq_length_filter_add (l := q.entries) fun x => x.key == k
  have hsum' := List.length_eq_length_filter_add (l := q'.entries) fun x => x.key == k
  unfold Queue.without
  omega

/-- The same entry goes to both ends. -/
theorem raise (h : q.Within q') (hroom : 1 ≤ q.capacity) (he : SameEntry e e') (k : K) :
    (q.raise k e).Within (q'.raise k e') := by
  have hcap := h.capacity_le
  have hslack := h.slack
  -- Taking `k` out cannot widen the gap between the two.
  have hwithout := h.length_without_le k
  constructor
  · -- The larger queue has to let no more go.
    have hdrop : (q'.without k).length + 1 - q'.capacity ≤
        (q.without k).length + 1 - q.capacity := by
      omega
    exact sublistForall₂_append (sublistForall₂_drop (h.without k) hdrop) (.cons he .nil)
  · simp only [Queue.raise, List.length_append, List.length_drop, List.length_singleton]
    omega

/-- The larger queue alone moves an entry to its end. -/
theorem raise_right (h : q.Within q') (hq' : q'.Proper) (hk : q.find? k = none)
    (hk' : q'.find? k = some e) : q.Within (q'.raise k e) := by
  have hlt := length_without_lt hk'
  have hslack := h.slack
  have hwithout := h.without k
  rw [without_of_none hk] at hwithout
  constructor
  · unfold Queue.raise
    rw [hq'.drop_without hk', ← List.append_nil q.entries]
    exact sublistForall₂_append hwithout .nil
  · simp only [Queue.raise, List.length_append, List.length_drop, List.length_singleton]
    omega

/-- Every action keeps the one queue within the other. -/
theorem act (h : q.Within q') (hq : q.Proper) (hq' : q'.Proper) (a : Action K V) :
    (q.act a).Within (q'.act a) := by
  cases a with
  | find k =>
    cases hk : q.find? k with
    | some e =>
      obtain ⟨e', hk', hsame⟩ := h.find?_of_some hq' hk
      rw [hq.act_find_of_some hk, hq'.act_find_of_some hk']
      exact h.raise hq.room hsame k
    | none =>
      -- The smaller queue stays as it is, and the larger one may have the key nevertheless.
      rw [act_find_of_none hk]
      cases hk' : q'.find? k with
      | some e' =>
        rw [hq'.act_find_of_some hk']
        exact h.raise_right hq' hk hk'
      | none =>
        rw [act_find_of_none hk']
        exact h
  | store k v =>
    -- Each queue keeps its own spelling of the key, and both are equal to `k`.
    rw [hq.act_store, hq'.act_store]
    apply h.raise hq.room
    exact ⟨BEq.trans (key_stored q k) (BEq.symm (key_stored q' k)), rfl⟩
  | drop k =>
    rw [act_drop, act_drop]
    refine ⟨h.without k, ?_⟩
    have hslack := h.slack
    have hwithout := h.length_without_le k
    dsimp only
    omega
  | dropAll => exact ⟨.nil, Nat.add_le_add_left h.capacity_le 0⟩
  | recount => exact h
  | read => exact h

/-- What an action counts is no worse with more room. -/
theorem counts (h : q.Within q') (hq' : q'.Proper) (a : Action K V) :
    NoWorse (q.counts a) (q'.counts a) := by
  cases a with
  | find k => exact ⟨h.isSome_le hq' k, Nat.le_refl _, Nat.le_refl _⟩
  | store k v =>
    have hnew := h.isNone_le hq' k
    refine ⟨Nat.le_refl _, hnew, ?_⟩
    show Bool.toNat _ ≤ Bool.toNat _
    -- A full larger queue means a full smaller one.
    by_cases hfull : q'.capacity ≤ q'.entries.length
    · have hslack := h.slack
      have hfull' : q.capacity ≤ q.entries.length := by omega
      simp only [hfull, hfull', decide_true, Bool.and_true]
      exact hnew
    · simp only [hfull, decide_false, Bool.and_false]
      exact Nat.zero_le _
  | drop k => exact ⟨Nat.le_refl _, Nat.le_refl _, Nat.le_refl _⟩
  | dropAll => exact .refl _
  | recount => exact .refl _
  | read => exact .refl _

/-! ### Histories -/

theorem after (h : q.Within q') (hq : q.Proper) (hq' : q'.Proper) (as : List (Action K V)) :
    (q.after as).Within (q'.after as) := by
  induction as generalizing q q' with
  | nil => exact h
  | cons a as ih => exact ih (h.act hq hq' a) (hq.act a) (hq'.act a)

theorem tally (h : q.Within q') (hq : q.Proper) (hq' : q'.Proper) (as : List (Action K V))
    {n n' : Counter → Nat} (hn : NoWorse n n') : NoWorse (q.tally n as) (q'.tally n' as) := by
  -- On the actions, with both the queues and where their counters stand.
  induction as generalizing q q' n n' with
  | nil => exact hn
  | cons a as ih =>
    refine ih (h.act hq hq' a) (hq.act a) (hq'.act a) ?_
    cases a with
    | recount => exact .refl _
    | _ => exact hn.add (h.counts hq' _)

end Within

end RecencyCache.Queue
