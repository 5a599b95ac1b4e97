import RecencyCache.Proofs.Table.Stock

/-! # A table with one slot left out

  A removal drops its key and takes the slot out of the ring before it looks
  at the slot. What it leaves on a damaged table can be told from the table
  that it was given.

  - **Past a slot**: `oldestPast`, `nextPast` and `prevPast` are the start of
    the ring and its links as they are once slot `i` has been taken out.
    `IsSoundPast` says that nothing is wrong with a table but slot `i` and a
    key that leads there.
  - **Afterwards**: `unlink` leaves a table that is `Bypassed`, whatever the
    links were. With the key dropped, too, it is sound if and only if the
    table was sound past the slot (`Bypassed.isSound_iff`).
-/

namespace RecencyCache.Table

variable {K V : Type} [BEq K] {t t' : Table K V} {i : Nat}

/-! ### Past a slot -/

/-- Where the ring starts without slot `i`: at the slot after `i` if it started at `i`, and nowhere
    if `i` was its own neighbour. -/
def oldestPast (t : Table K V) (i : Nat) : Option Nat :=
  if t.oldest ≠ some i then t.oldest else if t.nextAt i = some i then none else t.nextAt i

/-- The number that slot `j` links forward to without slot `i`. The slot that `i` links back to gets
    the forward link of `i`, unless `i` is its own neighbour. -/
def nextPast (t : Table K V) (i j : Nat) : Option Nat :=
  if t.nextAt i ≠ some i ∧ t.prevAt i = some j then t.nextAt i else t.nextAt j

/-- The number that slot `j` links back to without slot `i`. The slot that `i` links forward to gets
    the backward link of `i`, unless `i` is its own neighbour. -/
def prevPast (t : Table K V) (i j : Nat) : Option Nat :=
  if t.nextAt i ≠ some i ∧ t.nextAt i = some j then t.prevAt i else t.prevAt j

/-- A table whose ring, index and free stack agree once slot `i` and one key are left out. What slot
    `i` holds does not matter, and neither do the two links that are overwritten when it is taken
    out. -/
structure IsSoundPast (t : Table K V) (i : Nat) (ring : List Nat) : Prop where
  /-- No slot is in the ring twice. -/
  nodup : ring.Nodup
  /-- Slot `i` is not in the ring. -/
  notMem : i ∉ ring
  /-- The ring starts at the first slot of the list. -/
  oldest : t.oldestPast i = ring.head?
  /-- Each slot is a neighbour of the one after it, and the last one of the first. -/
  adjacent : ∀ p ∈ ring.zip (ring.rotateLeft 1),
    t.nextPast i p.1 = some p.2 ∧ t.prevPast i p.2 = some p.1
  /-- Every slot of the ring holds an entry, and the index leads from its key to the slot. -/
  indexed : ∀ j ∈ ring, ∃ e, t.Holds j e ∧ t.index.find? e.key = some j
  /-- There is one key besides those in the ring. -/
  size : t.size = ring.length + 1
  /-- No slot is on the free stack twice. -/
  free_nodup : t.free.Nodup
  /-- Every slot on the free stack is vacant and not in the ring. -/
  free_vacant : ∀ j ∈ t.free, t.Vacant j ∧ j ∉ ring

/-! ### Afterwards -/

/-- The ring of `t'` starts and runs as that of `t` does past slot `i`. Without a start there is no
    ring, and the links do not matter. -/
structure Bypassed (t : Table K V) (i : Nat) (t' : Table K V) : Prop where
  /-- The ring starts where it does without slot `i`. -/
  oldest : t'.oldest = t.oldestPast i
  /-- The links of a ring are those without slot `i`. -/
  links : t'.oldest ≠ none → ∀ j, t'.nextAt j = t.nextPast i j ∧ t'.prevAt j = t.prevPast i j

/-- The index has no say in it. -/
theorem Bypassed.of_putIndex {m : Index K} (h : (t.putIndex m).Bypassed i t') : t.Bypassed i t' :=
  ⟨h.oldest, h.links⟩

/-- What two writes that join the slots `p` and `n` leave of the forward links. -/
theorem nextAt_joined {n p : Nat} (hpt : p < t.capacity) (j : Nat) :
    ((t.putPrev n p).putNext p n).nextAt j = if p = j then some n else t.nextAt j := by
  split
  · rename_i hj
    subst hj
    exact nextAt_putNext_self (by rw [capacity_putPrev]; exact hpt) n
  · rename_i hj
    rw [nextAt_putNext_ne _ (Ne.symm hj), nextAt_putPrev]

/-- And of the backward links. -/
theorem prevAt_joined {n p : Nat} (hnt : n < t.capacity) (j : Nat) :
    ((t.putPrev n p).putNext p n).prevAt j = if n = j then some p else t.prevAt j := by
  rw [prevAt_putNext]
  split
  · rename_i hj
    subst hj
    exact prevAt_putPrev_self hnt p
  · rename_i hj
    exact prevAt_putPrev_ne t (Ne.symm hj) p

/-- Taking out a slot that is its own neighbour ends the ring. -/
theorem bypassed_sole (ho : t.oldest = some i) (hn : t.nextAt i = some i) :
    t.Bypassed i (t.putOldest none) where
  oldest := by
    unfold oldestPast
    rw [if_neg (not_not_intro ho), if_pos hn]
    rfl
  links hstart := absurd rfl hstart

/-- Taking out any other slot joins the two that it links to. -/
theorem bypassed_joined {n p o : Nat} (ho : t.oldest = some o) (hn : t.nextAt i = some n)
    (hp : t.prevAt i = some p) (hne : n ≠ i) (hnt : n < t.capacity) (hpt : p < t.capacity) :
    t.Bypassed i (((t.putPrev n p).putNext p n).putOldest (some (if o = i then n else o))) where
  oldest := by
    have hni : ¬ t.nextAt i = some i := by simp [hn, hne]
    unfold oldestPast
    by_cases hoi : o = i
    · subst hoi
      rw [if_neg (not_not_intro ho), if_neg hni, if_pos rfl]
      exact hn.symm
    · have hstart : t.oldest ≠ some i := by simp [ho, hoi]
      rw [if_pos hstart, if_neg hoi]
      exact ho.symm
  links _ j := by
    unfold nextPast prevPast
    refine ⟨(nextAt_joined hpt j).trans ?_, (prevAt_joined hnt j).trans ?_⟩
    · simp [hn, hp, hne]
    · simp [hn, hp, hne]

/-- On any table, whatever its links are, `unlink` leaves the links past the slot if it does not
    fault. -/
theorem bypassed_of_unlink (h : unlink i t = .ok () t') : t.Bypassed i t' := by
  rcases unlink_cases h with ⟨ho, hn, rfl⟩ | ⟨n, p, o, ho, hn, hp, hne, hnt, hpt, rfl⟩
  · exact bypassed_sole ho hn
  · exact bypassed_joined ho hn hp hne hnt hpt

theorem Bypassed.adjacent_iff (h : t.Bypassed i t') {ring : List Nat}
    (ho : t'.oldest = ring.head?) :
    (∀ p ∈ ring.zip (ring.rotateLeft 1), t'.Adjacent p.1 p.2) ↔
      ∀ p ∈ ring.zip (ring.rotateLeft 1),
        t.nextPast i p.1 = some p.2 ∧ t.prevPast i p.2 = some p.1 := by
  cases ring with
  | nil => simp
  | cons o l =>
    have hstart : t'.oldest ≠ none := by simp [ho]
    refine forall₂_congr fun p _ => ?_
    rw [Table.adjacent_iff, (h.links hstart p.1).1, (h.links hstart p.2).2]

/-- A table from which slot `i` and its key have gone is sound if and only if it was sound past the
    slot. -/
theorem Bypassed.isSound_iff [EquivBEq K] {touched ring : List Nat} {k : K} (h : t.Bypassed i t')
    (hframe : Relinked touched (t.putIndex (t.index.erase k)) t')
    (hk : t.index.find? k = some i) : (t'.IsSound ring ∧ i ∉ ring) ↔ t.IsSoundPast i ring := by
  have hsize : t.size = t'.size + 1 := by
    unfold size
    rw [hframe.index]
    exact (Index.size_erase_of_some hk).symm
  have hindexed (hout : i ∉ ring) :
      (∀ j ∈ ring, ∃ e, t'.Holds j e ∧ t'.index.find? e.key = some j) ↔
        ∀ j ∈ ring, ∃ e, t.Holds j e ∧ t.index.find? e.key = some j := by
    refine forall₂_congr fun j hj => exists_congr fun e => ?_
    have hji : j ≠ i := fun heq => hout (heq ▸ hj)
    rw [hframe.holds_iff, hframe.index]
    exact and_congr_right' (Index.find?_erase_eq_some_iff hk hji e.key)
  have hfree : (∀ j ∈ t'.free, t'.Vacant j ∧ j ∉ ring) ↔ ∀ j ∈ t.free, t.Vacant j ∧ j ∉ ring := by
    rw [hframe.free]
    exact forall₂_congr fun j _ => and_congr_left' (hframe.vacant_iff j)
  constructor
  · rintro ⟨hsound, hout⟩
    have ho := hsound.isRing.oldest
    exact
      { nodup := hsound.isRing.nodup
        notMem := hout
        oldest := h.oldest.symm.trans ho
        adjacent := (h.adjacent_iff ho).mp hsound.isRing.adjacent
        indexed := (hindexed hout).mp hsound.indexed
        size := hsize.trans (congrArg (· + 1) hsound.size)
        free_nodup := hframe.free ▸ hsound.free_nodup
        free_vacant := hfree.mp hsound.free_vacant }
  · intro hpast
    have ho := h.oldest.trans hpast.oldest
    refine ⟨?_, hpast.notMem⟩
    exact
      { isRing := ⟨hpast.nodup, ho, (h.adjacent_iff ho).mpr hpast.adjacent⟩
        indexed := (hindexed hpast.notMem).mpr hpast.indexed
        size := Nat.succ.inj (hsize.symm.trans hpast.size)
        free_nodup := hframe.free ▸ hpast.free_nodup
        free_vacant := hfree.mpr hpast.free_vacant }

end RecencyCache.Table
