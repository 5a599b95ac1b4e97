import RecencyCache.Proofs.Table.History
import RecencyCache.Proofs.Table.Packed
import RecencyCache.Proofs.Table.Verdict

/-! # Accounting for the slots

  In a tidy table the slots of the ring and the free ones are the first ones
  of the array. How many they are is a fact about the history: as many as
  the table has held keys at a time since it was last cleared.

  `IsAccounted` is the tidy table with the count. Each request is served and
  keeps it (`IsAccounted.handle`), so each history is, and does
  (`IsAccounted.run`).
-/

namespace RecencyCache.Table

variable {K V : Type} [BEq K] {t t' : Table K V}

/-! ### Steps -/

/-- A tidy table with `best` slots that are in the ring or free. -/
structure IsAccounted (t : Table K V) (best : Nat) (ring : List Nat) : Prop where
  /-- The slots are packed. -/
  isTidy : t.IsTidy ring
  /-- They are as many as the table has held keys at a time. -/
  best : t.size + t.free.length = best

namespace IsAccounted

variable {best : Nat} {ring : List Nat}

theorem size_le (h : t.IsAccounted best ring) : t.size ≤ best := by
  rw [← h.best]
  exact Nat.le_add_right _ _

/-- A step that changes nothing keeps the account. -/
theorem stay (h : t.IsAccounted best ring) : t.IsAccounted (max best t.size) ring := by
  rw [Nat.max_eq_left h.size_le]
  exact h

/-- The slots of the ring and the free ones are the first ones. -/
theorem perm_range (h : t.IsAccounted best ring) :
    (ring ++ t.free).Perm (List.range (t.size + t.free.length)) := by
  rw [h.isTidy.size_eq]
  exact h.isTidy.isPacked.slots

variable [EquivBEq K]

/-- A lookup leaves the slots as they are. -/
theorem lookup (h : t.IsAccounted best ring) (k : K) :
    ∃ a t' ring', Table.lookup k t = .ok a t' ∧ t'.IsAccounted (max best t'.size) ring' := by
  rcases h.isTidy.lookup_cases k with ⟨-, hrun⟩ | ⟨p, i, q, e, t', rfl, -, -, hrun, htidy, hframe⟩
  · exact ⟨none, t, ring, hrun, h.stay⟩
  · have hsize : t'.size = t.size := congrArg Index.size hframe.index
    refine ⟨_, t', _, hrun, htidy, ?_⟩
    rw [hframe.free, hsize, h.best, Nat.max_eq_left h.size_le]

/-- An entry of a new key takes a free slot or the first one that was never used; no other entry
    takes one. -/
theorem insert (h : t.IsAccounted best ring) (k : K) (v : V) :
    ∃ a t' ring', Table.insert k v t = .ok a t' ∧ t'.IsAccounted (max best t'.size) ring' := by
  have hle := h.size_le
  have hbest := h.best
  have hold := h.isTidy.size_eq
  rcases h.isTidy.insert_cases k v with
    ⟨p, i, q, e, t', rfl, -, -, hrun, htidy, hframe⟩ |
    ⟨i, q, e, t', rfl, -, -, -, hrun, htidy, hframe⟩ |
    ⟨t', -, -, -, hrun, htidy, hframe⟩
  · -- An update takes no slot.
    have hsize : t'.size = t.size := congrArg Index.size hframe.index
    refine ⟨_, t', _, hrun, htidy, ?_⟩
    rw [hframe.free, free_putEntry]
    omega
  · -- An eviction hands a slot on.
    have hsize : t'.size = t.size := by
      rw [htidy.size_eq, hold]
      exact (perm_promoted [] i q).length_eq
    have hfree : t'.free = t.free := hframe.free
    refine ⟨_, t', _, hrun, htidy, ?_⟩
    rw [hfree]
    omega
  · -- A slot off the free stack was on the account before; any other slot sets a new peak.
    have hsize : t'.size = t.size + 1 := by
      rw [htidy.size_eq, hold, List.length_append, List.length_singleton]
    have hfree : t'.free = t.free.tail := hframe.free
    have htail : t.free.tail.length = t.free.length - 1 := List.length_tail
    refine ⟨_, t', _, hrun, htidy, ?_⟩
    rw [hfree]
    omega

/-- A slot that is given up stays on the account. -/
theorem remove (h : t.IsAccounted best ring) (k : K) :
    ∃ a t' ring', Table.remove k t = .ok a t' ∧ t'.IsAccounted (max best t'.size) ring' := by
  rcases h.isTidy.remove_cases k with ⟨-, hrun⟩ | ⟨p, i, q, e, t', rfl, -, -, hrun, htidy, hframe⟩
  · exact ⟨none, t, ring, hrun, h.stay⟩
  · have hsize : t'.size + 1 = t.size := by
      rw [htidy.size_eq, h.isTidy.size_eq, List.perm_middle.length_eq]
      rfl
    have hfree : t'.free = i :: t.free := hframe.free
    have hle := h.size_le
    have hbest := h.best
    refine ⟨_, t', _, hrun, htidy, ?_⟩
    rw [hfree, List.length_cons]
    omega

/-- An entry of a new key never takes the place of another one below the capacity. -/
theorem insert_new (h : t.IsAccounted best ring) {k : K} (hk : t.contains k = false)
    (hroom : t.size < t.capacity) (v : V) :
    ∃ i t', i ∉ ring ∧ Table.insert k v t = .ok .inserted t' ∧ t'.IsRing (ring ++ [i]) ∧
      t'.Holds i ⟨k, v⟩ ∧ ∀ j ∈ ring, ∀ e, t.Holds j e → t'.Holds j e := by
  have hnone := (contains_eq_false_iff t k).mp hk
  have hout := h.isTidy.isPacked.newSlot_notMem
  obtain ⟨t', hrun, hsound, hframe⟩ := Table.insert_new h.isTidy.isSound hnone hroom hout v
  refine ⟨t.newSlot, t', hout, hrun, hsound.isRing, ?_, ?_⟩
  · rw [holds_iff, hframe.entryAt]
    exact entryAt_stocked_self (h.isTidy.isPacked.stocked.newSlot_lt hroom) k v
  · intro j hj e he
    have hne : j ≠ t.newSlot := fun heq => hout (heq ▸ hj)
    rw [holds_iff, hframe.entryAt, entryAt_stocked_ne hne]
    exact (holds_iff t j e).mp he

/-- Every request is served, and accounts for the slots once more. -/
theorem handle [OwnsMemory V] (h : t.IsAccounted best ring) (r : Request K V) :
    ∃ a t' ring', Table.handle r t = .ok a t' ∧ t'.IsAccounted (crest best t' r) ring' := by
  cases r with
  | insert k v =>
    obtain ⟨a, t', ring', hrun, h'⟩ := h.insert k v
    exact ⟨_, t', ring', bind_of_ok hrun _, h'⟩
  | lookup k =>
    obtain ⟨a, t', ring', hrun, h'⟩ := h.lookup k
    exact ⟨_, t', ring', bind_of_ok hrun _, h'⟩
  | remove k =>
    obtain ⟨a, t', ring', hrun, h'⟩ := h.remove k
    exact ⟨_, t', ring', bind_of_ok hrun _, h'⟩
  | contains k => exact ⟨_, t, ring, rfl, h.stay⟩
  | size => exact ⟨_, t, ring, rfl, h.stay⟩
  | clear => exact ⟨.done, _, [], rfl, isTidy_cleared h.isTidy.room _, rfl⟩
  | keys =>
    have hrun := reading_of_ok (keysByRecency_of_isSound h.isTidy.isSound)
    exact ⟨_, t, ring, bind_of_ok hrun _, h.stay⟩
  | verify =>
    have hrun := reading_of_ok (verify_of_isSound h.isTidy.isSound)
    exact ⟨_, t, ring, bind_of_ok hrun _, h.stay⟩

/-- What a history leaves behind accounts for the slots, up to its peak. -/
theorem run [OwnsMemory V] (h : t.IsAccounted best ring) (rs : List (Request K V)) :
    ∃ answers t' ring', Table.run rs t = .ok answers t' ∧
      t'.IsAccounted (peak best t rs) ring' := by
  have hstep : ∀ best (t : Table K V) r, (∃ ring, t.IsAccounted best ring) →
      ∃ a t', Table.handle r t = .ok a t' ∧ ∃ ring', t'.IsAccounted (crest best t' r) ring' := by
    rintro best t r ⟨ring, h⟩
    obtain ⟨a, t', ring', hrun, h'⟩ := h.handle r
    exact ⟨a, t', hrun, ring', h'⟩
  obtain ⟨answers, t', hrun, ring', h'⟩ := run_keeps hstep rs ⟨ring, h⟩
  exact ⟨answers, t', ring', hrun, h'⟩

end IsAccounted

/-! ### Histories of a new table -/

/-- A table that could be built has a slot, and none of them is in use. -/
theorem ofSizes_isAccounted {capacity indexSize : Nat}
    (h : ofSizes capacity indexSize = .ok t) : t.IsAccounted 0 [] := by
  obtain ⟨t₁, ht₁, h⟩ := ok_of_bind h
  unfold ofCapacity at ht₁
  split at ht₁
  · cases ht₁
  · rename_i hcap
    cases ht₁
    split at h
    · cases h
    · cases h
      exact ⟨isTidy_fresh (Nat.not_lt.mp hcap), rfl⟩

/-- After any history of a new table, the slots of the ring and those on the free stack are the
    first ones, each of them once, and as many as the table has held keys at a time since it was
    last cleared. A slot is vacant if it is free, and it holds the entry of an indexed key, in the
    index's own spelling, if it is in the ring.

    So with an empty free stack the ring has the slots below the number of keys, and the slot that
    a new key takes below the capacity is never in the ring. -/
theorem run_accounts_for_slots [EquivBEq K] [OwnsMemory V] {capacity indexSize : Nat}
    {t₀ : Table K V} (h : ofSizes capacity indexSize = .ok t₀) (rs : List (Request K V)) :
    ∃ answers t ring, run rs t₀ = .ok answers t ∧ t.IsRing ring ∧
      (ring ++ t.free).Perm (List.range (t.size + t.free.length)) ∧
      (∀ i ∈ t.free, t.Vacant i) ∧
      (∀ i ∈ ring, ∃ e, t.Holds i e) ∧
      (∀ k i, (k, i) ∈ t.index.bindings ↔ i ∈ ring ∧ ∃ v, t.Holds i ⟨k, v⟩) ∧
      t.size + t.free.length = peak 0 t₀ rs ∧
      (t.free = [] → ring.Perm (List.range t.size)) ∧
      ∀ k v, t.contains k = false → t.size < t.capacity →
        ∃ i t', i ∉ ring ∧ Table.insert k v t = .ok .inserted t' ∧ t'.IsRing (ring ++ [i]) ∧
          t'.Holds i ⟨k, v⟩ ∧ ∀ j ∈ ring, ∀ e, t.Holds j e → t'.Holds j e := by
  obtain ⟨answers, t, ring, hrun, ht⟩ := (ofSizes_isAccounted h).run rs
  have hsound := ht.isTidy.isSound
  refine ⟨answers, t, ring, hrun, hsound.isRing, ht.perm_range, ?_, ?_,
    ht.isTidy.isPacked.mem_bindings_iff, ht.best, ?_, ?_⟩
  · intro i hi
    exact (hsound.free_vacant i hi).1
  · intro i hi
    obtain ⟨e, he, -⟩ := hsound.indexed i hi
    exact ⟨e, he⟩
  · intro hfree
    have hperm := ht.perm_range
    rw [hfree, List.append_nil] at hperm
    exact hperm
  · intro k v hk hroom
    exact ht.insert_new hk hroom v

/-- Two keys came and one of them left, so one slot is free, and there is no third one. -/
theorem run_accounts_for_slots_two :
    ofSizes 3 1 = .ok (fresh 3 : Table Nat Nat) ∧
      ∃ answers t ring, run [.insert 1 10, .insert 2 20, .remove 1] (fresh 3) = .ok answers t ∧
        (ring ++ t.free).Perm (List.range 2) ∧ ∀ k i, (k, i) ∈ (t : Table Nat Nat).index.bindings ↔
          i ∈ ring ∧ ∃ v, t.Holds i ⟨k, v⟩ := by
  have hnew : ofSizes 3 1 = .ok (fresh 3 : Table Nat Nat) := rfl
  obtain ⟨answers, t, ring, hrun, -, hperm, -, -, hindex, hpeak, -⟩ :=
    run_accounts_for_slots hnew [.insert 1 10, .insert 2 20, .remove 1]
  have htwo : peak 0 (fresh 3 : Table Nat Nat) [.insert 1 10, .insert 2 20, .remove 1] = 2 := by
    decide
  rw [hpeak, htwo] at hperm
  exact ⟨hnew, answers, t, ring, hrun, hperm, hindex⟩

end RecencyCache.Table
