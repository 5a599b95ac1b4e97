/-! # Key index

  A finite map from keys to slot numbers. Keys are compared with `==` only,
  which may hold of keys that can be told apart: of several equal spellings
  the index keeps the first one it was given.

  - **Distinctness is in the type**: no two bindings have equal keys
    (`Distinct`, kept by `distinct_map_retarget`, `distinct_append` and
    `distinct_filter`).
  - **Room**: an index grows with its keys. A caller may ask for room in
    advance, for at most `maxSize` keys.
  - **One law per operation**: for keys compared by an equivalence,
    `find?_insert` and `find?_erase` describe the map, `size_insert` and
    `size_erase` its size, and `contains_eq` says when a key is bound.
-/

namespace RecencyCache

/-- No two of the bindings have equal keys. -/
def Index.Distinct {K : Type} [BEq K] (bs : List (K × Nat)) : Prop :=
  bs.Pairwise fun a b => (a.1 == b.1) = false

/-- Bindings of pairwise unequal keys to slot numbers. -/
structure Index (K : Type) [BEq K] where
  /-- The bindings, in the order in which their keys arrived. -/
  bindings : List (K × Nat)
  /-- No two bindings have equal keys. -/
  distinct : Index.Distinct bindings

namespace Index

variable {K : Type} [BEq K]

/-- The most keys that room can be asked for. How many places an index can have depends on the
    width of a binding. For bindings of 40 bytes the number is 2^57, of which one in eight stays
    free; narrower ones could have twice as many. Between the two limits lies more than any memory
    holds, so one number stands for both. -/
def maxSize : Nat := 7 * 0x40000000000000

/-! ### Reading -/

/-- The number of keys. -/
def size (m : Index K) : Nat := m.bindings.length

/-- The slot number bound to a key. -/
def find? (m : Index K) (k : K) : Option Nat :=
  (m.bindings.find? fun b => b.1 == k).map (·.2)

/-- Whether a key is bound. -/
def contains (m : Index K) (k : K) : Bool := m.bindings.any fun b => b.1 == k

/-- The bindings ordered by key. -/
def sorted [Ord K] (m : Index K) : List (K × Nat) :=
  m.bindings.mergeSort fun a b => (compare a.1 b.1).isLE

/-! ### Writing -/

/-- Gives the binding of `k` a new number and leaves every other binding alone. -/
def retarget (k : K) (slot : Nat) (b : K × Nat) : K × Nat :=
  if b.1 == k then (b.1, slot) else b

/-- A new number never changes a key. -/
@[simp] theorem retarget_fst (k : K) (slot : Nat) (b : K × Nat) :
    (retarget k slot b).1 = b.1 := by
  unfold retarget
  split <;> rfl

/-- New numbers keep the keys distinct. -/
theorem distinct_map_retarget {bs : List (K × Nat)} (h : Distinct bs) (k : K) (slot : Nat) :
    Distinct (bs.map (retarget k slot)) := by
  unfold Distinct
  rw [List.pairwise_map]
  exact List.Pairwise.imp (fun hne => by rw [retarget_fst, retarget_fst]; exact hne) h

/-- A key that is not there may be added at the end. -/
theorem distinct_append {bs : List (K × Nat)} (h : Distinct bs) (k : K) (slot : Nat)
    (habsent : ¬ (bs.any fun b => b.1 == k) = true) : Distinct (bs ++ [(k, slot)]) := by
  unfold Distinct
  rw [List.pairwise_append]
  refine ⟨h, List.pairwise_singleton _ _, fun a ha b hb => ?_⟩
  rw [List.mem_singleton.mp hb]
  cases hk : a.1 == k with
  | false => rfl
  | true => exact absurd (List.any_eq_true.mpr ⟨a, ha, hk⟩) habsent

/-- Leaving bindings out keeps the keys distinct. -/
theorem distinct_filter {bs : List (K × Nat)} (h : Distinct bs) (p : K × Nat → Bool) :
    Distinct (bs.filter p) :=
  List.Pairwise.filter p h

/-- The index without bindings. -/
def empty : Index K := ⟨[], .nil⟩

/-- Binds a key to a slot number. A key that is bound keeps its place and its spelling. -/
def insert (m : Index K) (k : K) (slot : Nat) : Index K :=
  if h : (m.bindings.any fun b => b.1 == k) = true then
    ⟨m.bindings.map (retarget k slot), distinct_map_retarget m.distinct k slot⟩
  else
    ⟨m.bindings ++ [(k, slot)], distinct_append m.distinct k slot h⟩

/-- Drops the binding of a key. -/
def erase (m : Index K) (k : K) : Index K :=
  ⟨m.bindings.filter fun b => !(b.1 == k), distinct_filter m.distinct _⟩

/-! ### Laws -/

@[simp] theorem size_empty : (empty : Index K).size = 0 := rfl

@[simp] theorem find?_empty (k : K) : (empty : Index K).find? k = none := rfl

/-- A key is bound exactly when looking it up finds a number. -/
theorem contains_eq (m : Index K) (k : K) : m.contains k = (m.find? k).isSome := by
  unfold contains find?
  rw [Option.isSome_map, Bool.eq_iff_iff, List.any_eq_true, List.find?_isSome]

/-- The number found after a retargeting, list by list. -/
theorem find?_map_retarget [EquivBEq K] (bs : List (K × Nat)) (k : K) (slot : Nat) (j : K) :
    ((bs.map (retarget k slot)).find? fun b => b.1 == j).map (·.2) =
      if (k == j) = true ∧ (bs.any fun b => b.1 == k) = true then some slot
      else (bs.find? fun b => b.1 == j).map (·.2) := by
  induction bs with
  | nil => simp
  | cons b bs ih =>
    rw [List.map_cons, List.find?_cons, List.find?_cons, List.any_cons, retarget_fst]
    cases hj : b.1 == j with
    | true =>
      by_cases hk : (b.1 == k) = true
      · have hkj : (k == j) = true := BEq.trans (BEq.symm hk) hj
        simp [hk, hkj, retarget]
      · have hkj : ¬ (k == j) = true := fun h => hk (BEq.trans hj (BEq.symm h))
        simp [hk, hkj, retarget]
    | false =>
      rw [ih]
      cases hk : b.1 == k with
      | true =>
        have hkj : ¬ (k == j) = true := fun h => by
          rw [BEq.trans hk h] at hj
          exact Bool.noConfusion hj
        simp [hkj]
      | false => rw [Bool.false_or]

/-- A binding is seen under every key equal to the one it was made with, and nowhere else. -/
theorem find?_insert [EquivBEq K] (m : Index K) (k : K) (slot : Nat) (j : K) :
    (m.insert k slot).find? j = if (k == j) = true then some slot else m.find? j := by
  unfold insert find?
  split
  · rename_i hany
    rw [find?_map_retarget]
    simp [hany]
  · rename_i hany
    rw [List.find?_append]
    by_cases hkj : (k == j) = true
    · have hnone : (m.bindings.find? fun b => b.1 == j) = none := by
        rw [List.find?_eq_none]
        intro b hb hbj
        exact hany (List.any_eq_true.mpr ⟨b, hb, BEq.trans hbj (BEq.symm hkj)⟩)
      simp [hnone, hkj]
    · simp [hkj]

/-- An erased key is gone under all its spellings, and every other key keeps its number. -/
theorem find?_erase [EquivBEq K] (m : Index K) (k j : K) :
    (m.erase k).find? j = if (k == j) = true then none else m.find? j := by
  unfold erase find?
  rw [List.find?_filter]
  by_cases hkj : (k == j) = true
  · rw [if_pos hkj, Option.map_eq_none_iff, List.find?_eq_none]
    intro b _ hb
    obtain ⟨hbk, hbj⟩ := of_decide_eq_true hb
    rw [BEq.trans hbj (BEq.symm hkj)] at hbk
    exact Bool.noConfusion hbk
  · rw [if_neg hkj]
    congr 1
    congr 1
    funext b
    rw [Bool.eq_iff_iff, decide_eq_true_iff]
    refine ⟨fun h => h.2, fun hbj => ⟨?_, hbj⟩⟩
    cases hbk : b.1 == k with
    | false => rfl
    | true => exact absurd (BEq.trans (BEq.symm hbk) hbj) hkj

/-- Binding a key adds one to the size unless the key is there. -/
theorem size_insert (m : Index K) (k : K) (slot : Nat) :
    (m.insert k slot).size = if m.contains k then m.size else m.size + 1 := by
  unfold insert contains size
  split <;> simp

/-- Of distinct keys at most one is equal to `k`, so erasing `k` drops one binding. -/
theorem length_filter_of_distinct [EquivBEq K] {bs : List (K × Nat)} (h : Distinct bs) (k : K) :
    (bs.filter fun b => !(b.1 == k)).length + (if (bs.any fun b => b.1 == k) then 1 else 0) =
      bs.length := by
  induction h with
  | nil => simp
  | @cons b bs hb _ ih =>
    cases hbk : b.1 == k with
    | true =>
      have hrest : ∀ c ∈ bs, (c.1 == k) = false := by
        intro c hc
        cases hck : c.1 == k with
        | false => rfl
        | true =>
          have hbc := hb c hc
          rw [BEq.trans hbk (BEq.symm hck)] at hbc
          exact Bool.noConfusion hbc
      have hall : (bs.filter fun c => !(c.1 == k)) = bs :=
        List.filter_eq_self.mpr fun c hc => by rw [hrest c hc]; rfl
      simp [hbk, hall]
    | false =>
      simp only [hbk, List.filter_cons, List.any_cons, Bool.not_false, if_true, Bool.false_or,
        List.length_cons]
      omega

/-- Erasing a key that is there takes one off the size. -/
theorem size_erase [EquivBEq K] (m : Index K) (k : K) :
    (m.erase k).size + (if m.contains k then 1 else 0) = m.size :=
  length_filter_of_distinct m.distinct k

end Index

end RecencyCache
