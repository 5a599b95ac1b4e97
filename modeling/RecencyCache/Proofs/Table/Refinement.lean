import RecencyCache.Proofs.Queue
import RecencyCache.Proofs.Table.Accounting

/-! # A table as a queue

  The entries of the ring, from the oldest slot to the youngest, are a queue,
  and the operations of the table are those of the queue. Which slots the
  entries are in does not show.

  `Represents t q ring` is the relation. It says that the table is tidy, not
  only sound: a new key takes the slot that was never used, and only a packed
  table is sure to have it outside its ring.
-/

namespace RecencyCache

/-- Whether storing an entry brought a key that was not there. -/
def Insertion.isNew {K V : Type} : Insertion K V → Bool
  | .updated _ => false
  | .inserted | .evicted _ _ => true

/-- A queue is told less than a table: only whether the key is new. -/
theorem Queue.isNew_outcome {K V : Type} [BEq K] (q : Queue K V) (k : K) (v : V) :
    (q.outcome k).isNew = (q.store k v).1 := by
  unfold outcome store
  cases q.find? k with
  | some e => rfl
  | none =>
    dsimp only
    split
    · rfl
    · cases q.entries.head? <;> rfl

namespace Table

variable {K V : Type} [BEq K] {t t' : Table K V} {q : Queue K V} {ring : List Nat}

/-! ### Contents after a change -/

/-- Links do not matter for the contents. -/
theorem Relinked.contents_eq {l : List Nat} (h : Relinked l t t') (ring : List Nat) :
    t'.contents ring = t.contents ring :=
  contents_congr fun i _ => h.entryAt i

/-- The contents of a ring with a slot at its end that was put there last. -/
theorem contents_snoc {l : List Nat} {i : Nat} {e : Entry K V}
    (hl : ∀ j ∈ l, t'.entryAt j = t.entryAt j) (hi : t'.entryAt i = some e) :
    t'.contents (l ++ [i]) = t.contents l ++ [e] := by
  rw [contents_append, contents_congr hl, contents_cons hi, contents_nil]

/-! ### The relation -/

/-- A tidy table has the entries of a queue in its ring. -/
structure Represents (t : Table K V) (q : Queue K V) (ring : List Nat) : Prop where
  /-- The slots are packed. -/
  isTidy : t.IsTidy ring
  /-- The ring has the entries of the queue, in their order. -/
  contents : t.contents ring = q.entries
  /-- As many entries fit. -/
  capacity : t.capacity = q.capacity

/-- A new table is an empty queue. -/
theorem represents_fresh {capacity : Nat} (hcap : 1 ≤ capacity) :
    (fresh capacity : Table K V).Represents (.empty capacity) [] :=
  ⟨isTidy_fresh hcap, rfl, Array.size_replicate⟩

namespace Represents

/-- There are as many keys as entries. -/
theorem size_eq (h : t.Represents q ring) : t.size = q.entries.length := by
  rw [← h.contents]
  exact h.isTidy.isPacked.stocked.length_contents.symm

theorem length_le (h : t.Represents q ring) : q.entries.length ≤ q.capacity := by
  rw [← h.size_eq, ← h.capacity, h.isTidy.size_eq]
  exact h.isTidy.isPacked.stocked.length_le

theorem keysByRecency_eq (h : t.Represents q ring) : t.keysByRecency = .ok q.keys := by
  rw [keysByRecency_of_isSound h.isTidy.isSound, h.contents]
  rfl

theorem cleared (h : t.Represents q ring) (wipe : Bool) :
    (t.cleared wipe).Represents q.clear [] :=
  ⟨isTidy_cleared h.isTidy.room wipe, rfl, (capacity_cleared t wipe).trans h.capacity⟩

variable [EquivBEq K]

/-- A key that is not found is not in the queue. -/
theorem lacks (h : t.Represents q ring) {k : K} (hk : t.index.find? k = none) : q.Lacks k := by
  unfold Queue.Lacks
  rw [← h.contents]
  exact h.isTidy.isPacked.stocked.contents_of_none hk

/-- The entry of a slot of the ring is at the same place of the queue. -/
theorem has {p r : List Nat} {i : Nat} (h : t.Represents q (p ++ i :: r)) {e : Entry K V} {k : K}
    (he : t.entryAt i = some e) (hk : (e.key == k) = true) :
    q.Has k (t.contents p) e (t.contents r) where
  entries := by rw [← h.contents, contents_append, contents_cons he]
  key := hk
  others := by
    rw [← contents_append]
    exact h.isTidy.isPacked.stocked.contents_of_some
      (h.isTidy.isPacked.stocked.find?_of_beq (mem_cut p i r) he hk)

theorem lookup (h : t.Represents q ring) (k : K) :
    ∃ t' ring', Table.lookup k t = .ok (q.lookup k).1 t' ∧
      t'.Represents (q.lookup k).2 ring' := by
  rcases h.isTidy.lookup_cases k with
    ⟨hk, hrun⟩ | ⟨p, i, r, e, t', rfl, he, hk, hrun, htidy, hframe⟩
  · rw [Queue.lookup_of_lacks (h.lacks hk)]
    exact ⟨t, ring, hrun, h⟩
  · rw [Queue.lookup_of_has (h.has he hk)]
    refine ⟨t', _, hrun, htidy, ?_, hframe.capacity.trans h.capacity⟩
    rw [hframe.contents_eq, contents_snoc (fun _ _ => rfl) he, contents_append]

theorem insert (h : t.Represents q ring) (k : K) (v : V) :
    ∃ t' ring', Table.insert k v t = .ok (q.outcome k) t' ∧
      t'.Represents (q.store k v).2 ring' := by
  rcases h.isTidy.insert_cases k v with
    ⟨p, i, r, e, t', rfl, he, hek, hrun, htidy, hframe⟩ |
    ⟨i, r, e, t', rfl, he, hk, hfull, hrun, htidy, hframe⟩ |
    ⟨t', hk, hroom, hout, hrun, htidy, hframe⟩
  · -- The key is there: its entry gets the value and goes to the end.
    rw [Queue.store_of_has (h.has he hek), Queue.outcome_of_has (h.has he hek)]
    have hcap := hframe.capacity.trans (capacity_putEntry t i _)
    refine ⟨t', _, hrun, htidy, ?_, hcap.trans h.capacity⟩
    have hne : ∀ j ∈ p ++ r, j ≠ i := fun j hj => (other_of_nodup h.isTidy.isRing.nodup hj).1
    have hlt := h.isTidy.lt_capacity (mem_cut p i r)
    rw [hframe.contents_eq, contents_snoc (fun j hj => entryAt_putEntry_ne t (hne j hj) _)
      (entryAt_putEntry_self hlt _), contents_append]
  · -- The oldest slot holds the queue's first entry.
    have hfull' : q.capacity ≤ q.entries.length := by
      rw [← h.capacity, ← h.size_eq]
      exact hfull
    have hfirst : q.entries.head? = some e := by
      rw [← h.contents, contents_cons he]
      rfl
    rw [Queue.store_of_lacks_of_le (h.lacks hk) hfull',
      Queue.outcome_of_lacks_of_le (h.lacks hk) hfull' hfirst]
    have hcap := hframe.capacity.trans (capacity_displaced t i e k v)
    refine ⟨t', _, hrun, htidy, ?_, hcap.trans h.capacity⟩
    have hne : ∀ j ∈ r, j ≠ i :=
      fun j hj => (other_of_nodup (p := []) h.isTidy.isRing.nodup hj).1
    have hlt := h.isTidy.lt_capacity List.mem_cons_self
    rw [hframe.contents_eq, contents_snoc (fun j hj => entryAt_displaced_ne (hne j hj) e k v)
      (entryAt_displaced_self hlt e k v), ← h.contents, contents_cons he, List.tail_cons]
  · -- The new slot holds no entry of the queue, so all of them stay.
    have hroom' : q.entries.length < q.capacity := by
      rw [← h.capacity, ← h.size_eq]
      exact hroom
    rw [Queue.store_of_lacks_of_lt (h.lacks hk) hroom',
      Queue.outcome_of_lacks_of_lt (h.lacks hk) hroom']
    have hcap := hframe.capacity.trans (capacity_stocked t k v)
    refine ⟨t', _, hrun, htidy, ?_, hcap.trans h.capacity⟩
    have hne : ∀ j ∈ ring, j ≠ t.newSlot := fun j hj heq => hout (heq ▸ hj)
    have hlt := h.isTidy.isPacked.stocked.newSlot_lt hroom
    rw [hframe.contents_eq, contents_snoc (fun j hj => entryAt_stocked_ne (hne j hj) k v)
      (entryAt_stocked_self hlt k v), h.contents]

theorem remove (h : t.Represents q ring) (k : K) :
    ∃ t' ring', Table.remove k t = .ok (q.remove k).1 t' ∧
      t'.Represents (q.remove k).2 ring' := by
  rcases h.isTidy.remove_cases k with
    ⟨hk, hrun⟩ | ⟨p, i, r, e, t', rfl, he, hek, hrun, htidy, hframe⟩
  · rw [Queue.remove_of_lacks (h.lacks hk)]
    exact ⟨t, ring, hrun, h⟩
  · rw [Queue.remove_of_has (h.has he hek)]
    have hcap := hframe.capacity.trans (capacity_vacated t i k)
    refine ⟨t', _, hrun, htidy, ?_, hcap.trans h.capacity⟩
    -- Only the slot that left the ring was emptied.
    have hrest : (t.vacated i k).contents (p ++ r) = t.contents (p ++ r) :=
      contents_congr fun j hj =>
        entryAt_vacated_ne (other_of_nodup h.isTidy.isRing.nodup hj).1 k
    rw [hframe.contents_eq, hrest, contents_append]

theorem contains_eq (h : t.Represents q ring) (k : K) : t.contains k = (q.find? k).isSome := by
  unfold contains
  rw [Index.contains_eq]
  cases hk : t.index.find? k with
  | none =>
    rw [Queue.find?_of_lacks (h.lacks hk)]
    rfl
  | some i =>
    obtain ⟨p, r, e, rfl, he, hek⟩ := h.isTidy.isPacked.stocked.exists_split hk
    rw [Queue.find?_of_has (h.has he hek)]
    rfl

end Represents

end Table

end RecencyCache
