import RecencyCache.Proofs.Index
import RecencyCache.Proofs.Table.Ring

/-! # The stock of a table

  What soundness says of a table beside its links: which slots are in use,
  and that the entries, the index and the free stack agree on it. The order
  of the slots does not matter here, so an operation changes the stock in one
  step, however many links it rewrites.

  - **Counting**: there are as many slots in use as keys in the index, so no
    key is indexed besides theirs (`bindings_perm`). A key that is found leads
    to a slot in use with an equal key (`IsStocked.of_find?`).
  - **Contents**: the entries of a list of slots, in the order of the list
    (`contents`). At most one of them has a given key.
  - **Changes of stock**: `putValue` for another value, `displaced` for an
    entry that makes room, `stocked` for an entry in a slot that was not in
    use, `vacated` for a slot that is given up.
-/

namespace RecencyCache.Table

variable {K V : Type} [BEq K]

/-- Entries, index and free stack agree on which slots are in use. -/
structure IsStocked (t : Table K V) (used : List Nat) : Prop where
  /-- No slot is counted twice. -/
  nodup : used.Nodup
  /-- A slot in use holds an entry, and the index leads from its key to the slot. -/
  indexed : ∀ i ∈ used, ∃ e, t.entryAt i = some e ∧ t.index.find? e.key = some i
  /-- There are as many keys as slots in use. -/
  size : t.index.size = used.length
  /-- No slot is on the free stack twice. -/
  free_nodup : t.free.Nodup
  /-- A slot on the free stack is there, holds no entry and is not in use. -/
  free : ∀ i ∈ t.free, i < t.capacity ∧ t.entryAt i = none ∧ i ∉ used

/-- A table is sound if its links make a ring of the slots in use. -/
theorem isSound_iff (t : Table K V) (ring : List Nat) :
    t.IsSound ring ↔ t.IsRing ring ∧ t.IsStocked ring := by
  constructor
  · intro h
    refine ⟨h.isRing, h.isRing.nodup, ?_, h.size, h.free_nodup, ?_⟩
    · intro i hi
      obtain ⟨e, he, hf⟩ := h.indexed i hi
      exact ⟨e, (holds_iff t i e).mp he, hf⟩
    · intro i hi
      obtain ⟨hvac, hout⟩ := h.free_vacant i hi
      obtain ⟨hlt, hnone⟩ := (vacant_iff t i).mp hvac
      exact ⟨hlt, hnone, hout⟩
  · rintro ⟨hring, hs⟩
    refine ⟨hring, ?_, hs.size, hs.free_nodup, ?_⟩
    · intro i hi
      obtain ⟨e, he, hf⟩ := hs.indexed i hi
      exact ⟨e, (holds_iff t i e).mpr he, hf⟩
    · intro i hi
      obtain ⟨hlt, hnone, hout⟩ := hs.free i hi
      exact ⟨(vacant_iff t i).mpr ⟨hlt, hnone⟩, hout⟩

theorem IsSound.isStocked {t : Table K V} {ring : List Nat} (h : t.IsSound ring) :
    t.IsStocked ring :=
  ((isSound_iff t ring).mp h).2

namespace IsStocked

variable {t t' : Table K V} {used used' : List Nat}

/-- The index leads back from an entry to its slot. -/
theorem find?_key (h : t.IsStocked used) {i : Nat} (hi : i ∈ used) {e : Entry K V}
    (he : t.entryAt i = some e) : t.index.find? e.key = some i := by
  obtain ⟨e', he', hf⟩ := h.indexed i hi
  rw [he] at he'
  cases he'
  exact hf

theorem lt_capacity (h : t.IsStocked used) {i : Nat} (hi : i ∈ used) : i < t.capacity := by
  obtain ⟨e, he, -⟩ := h.indexed i hi
  exact lt_capacity_of_entryAt he

/-- The slot numbers in the index are the slots in use: all of them are there, and there are no
    more numbers than slots. -/
theorem bindings_perm (h : t.IsStocked used) : (t.index.bindings.map (·.2)).Perm used := by
  have hsub : used ⊆ t.index.bindings.map (·.2) := by
    intro i hi
    obtain ⟨e, -, hf⟩ := h.indexed i hi
    obtain ⟨b, hb, -, rfl⟩ := Index.exists_binding hf
    exact List.mem_map_of_mem hb
  have hlen : (t.index.bindings.map (·.2)).length ≤ used.length := by
    rw [List.length_map]
    exact Nat.le_of_eq h.size
  exact ((List.subperm_of_subset h.nodup hsub).perm_of_length_le hlen).symm

/-- In which order the slots in use are named does not matter, and neither do the links. -/
theorem relink {l : List Nat} (h : t.IsStocked used) (hperm : used'.Perm used)
    (hframe : Relinked l t t') : t'.IsStocked used' where
  nodup := hperm.nodup_iff.mpr h.nodup
  indexed i hi := by
    rw [hframe.entryAt, hframe.index]
    exact h.indexed i (hperm.mem_iff.mp hi)
  size := by
    rw [hframe.index, hperm.length_eq]
    exact h.size
  free_nodup := by
    rw [hframe.free]
    exact h.free_nodup
  free i hi := by
    rw [hframe.capacity, hframe.entryAt, hperm.mem_iff]
    exact h.free i (hframe.free ▸ hi)

/-- Another value under the same key. -/
theorem putValue (h : t.IsStocked used) {i : Nat} (hi : i ∈ used) {e : Entry K V}
    (he : t.entryAt i = some e) (v : V) :
    (t.putEntry i (some { e with value := v })).IsStocked used where
  nodup := h.nodup
  indexed j hj := by
    by_cases hji : j = i
    · subst hji
      have hf := h.find?_key hj he
      exact ⟨_, entryAt_putEntry_self (h.lt_capacity hj) _, hf⟩
    · rw [entryAt_putEntry_ne t hji]
      exact h.indexed j hj
  size := h.size
  free_nodup := h.free_nodup
  free j hj := by
    obtain ⟨hlt, hnone, hout⟩ := h.free j hj
    have hji : j ≠ i := fun heq => hout (heq ▸ hi)
    rw [capacity_putEntry, entryAt_putEntry_ne t hji]
    exact ⟨hlt, hnone, hout⟩

variable [EquivBEq K]

/-- A key that is found leads to a slot in use with an equal key. -/
theorem of_find? (h : t.IsStocked used) {k : K} {i : Nat} (hf : t.index.find? k = some i) :
    i ∈ used ∧ ∃ e, t.entryAt i = some e ∧ (e.key == k) = true := by
  obtain ⟨b, hb, hbk, rfl⟩ := Index.exists_binding hf
  have hi : b.2 ∈ used := h.bindings_perm.mem_iff.mp (List.mem_map_of_mem hb)
  obtain ⟨e, he, hfe⟩ := h.indexed b.2 hi
  obtain ⟨c, hc, hce, hcb⟩ := Index.exists_binding hfe
  -- No number is in the index twice, so both bindings are the same.
  have hnd : (t.index.bindings.map (·.2)).Nodup := h.bindings_perm.nodup_iff.mpr h.nodup
  have hsame : c = b := List.inj_on_of_nodup_map hnd hc hb hcb
  subst hsame
  exact ⟨hi, e, he, BEq.trans (BEq.symm hce) hbk⟩

/-- A key equal to that of a slot in use leads to the slot. -/
theorem find?_of_beq (h : t.IsStocked used) {i : Nat} (hi : i ∈ used) {e : Entry K V}
    (he : t.entryAt i = some e) {k : K} (hk : (e.key == k) = true) :
    t.index.find? k = some i := by
  rw [← Index.find?_congr t.index hk]
  exact h.find?_key hi he

/-- A key that leads elsewhere, or nowhere, is unequal to that of a slot in use. -/
theorem beq_eq_false (h : t.IsStocked used) {k : K} {j : Nat} (hk : t.index.find? k ≠ some j)
    (hj : j ∈ used) {e : Entry K V} (he : t.entryAt j = some e) : (k == e.key) = false := by
  rw [Bool.eq_false_iff]
  intro hbeq
  exact hk (h.find?_of_beq hj he (BEq.symm hbeq))

/-- A key that leads nowhere is unequal to every key in use. -/
theorem beq_eq_false_of_none (h : t.IsStocked used) {k : K} (hk : t.index.find? k = none) {j : Nat}
    (hj : j ∈ used) {e : Entry K V} (he : t.entryAt j = some e) : (k == e.key) = false :=
  h.beq_eq_false (by simp [hk]) hj he

/-- A key that leads to one slot is unequal to the key of every other one. -/
theorem beq_eq_false_of_ne (h : t.IsStocked used) {k : K} {i j : Nat}
    (hk : t.index.find? k = some i) (hji : j ≠ i) (hj : j ∈ used) {e : Entry K V}
    (he : t.entryAt j = some e) : (k == e.key) = false :=
  h.beq_eq_false (by simp [hk, Ne.symm hji]) hj he

end IsStocked

/-! ### Contents -/

/-- The entries of some slots, in their order. -/
def contents (t : Table K V) (l : List Nat) : List (Entry K V) := l.filterMap t.entryAt

section

variable {t t' : Table K V} {used : List Nat}

@[simp] theorem contents_nil : t.contents [] = [] := rfl

theorem contents_append (p q : List Nat) : t.contents (p ++ q) = t.contents p ++ t.contents q :=
  List.filterMap_append

theorem contents_cons {i : Nat} {e : Entry K V} (he : t.entryAt i = some e) (l : List Nat) :
    t.contents (i :: l) = e :: t.contents l :=
  List.filterMap_cons_some he

/-- The contents are those of the slots, whatever happens elsewhere. -/
theorem contents_congr {l : List Nat} (h : ∀ i ∈ l, t'.entryAt i = t.entryAt i) :
    t'.contents l = t.contents l :=
  List.filterMap_congr h

theorem mem_contents {l : List Nat} {e : Entry K V} :
    e ∈ t.contents l ↔ ∃ i ∈ l, t.entryAt i = some e :=
  List.mem_filterMap

namespace IsStocked

/-- The slots in use hold the contents, one after the other. -/
theorem forall₂_holds (h : t.IsStocked used) : List.Forall₂ t.Holds used (t.contents used) := by
  suffices ∀ l, l ⊆ used → List.Forall₂ t.Holds l (t.contents l) from this used fun _ h => h
  intro l hl
  induction l with
  | nil => exact .nil
  | cons i l ih =>
    obtain ⟨hi, hl⟩ := List.cons_subset.mp hl
    obtain ⟨e, he, -⟩ := h.indexed i hi
    rw [contents_cons he]
    exact .cons ((holds_iff t i e).mpr he) (ih hl)

theorem length_contents (h : t.IsStocked used) : (t.contents used).length = t.size :=
  h.forall₂_holds.length_eq.symm.trans h.size.symm

variable [EquivBEq K]

/-- A key that is not found is unequal to every key in use. -/
theorem contents_of_none (h : t.IsStocked used) {k : K} (hk : t.index.find? k = none) :
    ∀ e ∈ t.contents used, (e.key == k) = false := by
  intro e he
  obtain ⟨i, hi, he⟩ := mem_contents.mp he
  rw [BEq.comm]
  exact h.beq_eq_false_of_none hk hi he

/-- A key that is found is unequal to every key in use but one. -/
theorem contents_of_some {p q : List Nat} {i : Nat} (h : t.IsStocked (p ++ i :: q)) {k : K}
    (hk : t.index.find? k = some i) : ∀ e ∈ t.contents (p ++ q), (e.key == k) = false := by
  intro e he
  obtain ⟨j, hj, he⟩ := mem_contents.mp he
  obtain ⟨hji, hju⟩ := other_of_nodup h.nodup hj
  rw [BEq.comm]
  exact h.beq_eq_false_of_ne hk hji hju he

/-- Where a found key stands among the slots in use, and with which entry. -/
theorem exists_split (h : t.IsStocked used) {k : K} {i : Nat} (hk : t.index.find? k = some i) :
    ∃ p q e, used = p ++ i :: q ∧ t.entryAt i = some e ∧ (e.key == k) = true := by
  obtain ⟨hi, e, he, hek⟩ := h.of_find? hk
  obtain ⟨p, q, rfl⟩ := List.append_of_mem hi
  exact ⟨p, q, e, rfl, he, hek⟩

/-- Every indexed key is equal to exactly one key in use, and no other key to any. -/
theorem countP_contents (h : t.IsStocked used) (k : K) :
    (t.contents used).countP (·.key == k) = if t.contains k then 1 else 0 := by
  unfold contains
  rw [Index.contains_eq]
  cases hk : t.index.find? k with
  | none =>
    apply List.countP_eq_zero.mpr
    intro e he
    simp [h.contents_of_none hk e he]
  | some i =>
    -- The entry under `k` counts once, those on both sides of it do not count.
    obtain ⟨p, q, e, rfl, he, hek⟩ := h.exists_split hk
    have hrest : (t.contents (p ++ q)).countP (·.key == k) = 0 := by
      apply List.countP_eq_zero.mpr
      intro e he
      simp [h.contents_of_some hk e he]
    rw [contents_append, List.countP_append] at hrest ⊢
    rw [contents_cons he, List.countP_cons, if_pos hek]
    show _ = 1
    omega

end IsStocked

end

/-! ### Entries that come and go -/

/-- The slot for an entry of a new key: the top of the free stack, or else the slot whose number
    is the number of keys. -/
def newSlot (t : Table K V) : Nat := t.free.head?.getD t.size

/-- The table in which the entry `old` of slot `i` has made room for an entry of a new key. -/
def displaced (t : Table K V) (i : Nat) (old : Entry K V) (k : K) (v : V) : Table K V :=
  (t.putEntry i (some ⟨k, v⟩)).putIndex ((t.index.erase old.key).insert k i)

/-- The table in which an entry of a new key has been given a slot of its own. -/
def stocked (t : Table K V) (k : K) (v : V) : Table K V :=
  ((t.putFree t.free.tail).putEntry t.newSlot (some ⟨k, v⟩)).putIndex (t.index.insert k t.newSlot)

/-- The table in which slot `i` has been given up, under a key equal to `k`. -/
def vacated (t : Table K V) (i : Nat) (k : K) : Table K V :=
  ((t.putIndex (t.index.erase k)).putEntry i none).putFree (i :: t.free)

section

variable {t : Table K V} {i j : Nat}

@[simp] theorem index_displaced (t : Table K V) (i : Nat) (old : Entry K V) (k : K) (v : V) :
    (t.displaced i old k v).index = (t.index.erase old.key).insert k i := rfl

@[simp] theorem index_stocked (t : Table K V) (k : K) (v : V) :
    (t.stocked k v).index = t.index.insert k t.newSlot := rfl

@[simp] theorem index_vacated (t : Table K V) (i : Nat) (k : K) :
    (t.vacated i k).index = t.index.erase k := rfl

@[simp] theorem capacity_displaced (t : Table K V) (i : Nat) (old : Entry K V) (k : K) (v : V) :
    (t.displaced i old k v).capacity = t.capacity :=
  capacity_putEntry t i _

@[simp] theorem capacity_stocked (t : Table K V) (k : K) (v : V) :
    (t.stocked k v).capacity = t.capacity :=
  capacity_putEntry (t.putFree _) _ _

@[simp] theorem capacity_vacated (t : Table K V) (i : Nat) (k : K) :
    (t.vacated i k).capacity = t.capacity :=
  capacity_putEntry (t.putIndex _) i none

theorem entryAt_displaced_self (hi : i < t.capacity) (old : Entry K V) (k : K) (v : V) :
    (t.displaced i old k v).entryAt i = some ⟨k, v⟩ :=
  entryAt_putEntry_self hi _

theorem entryAt_displaced_ne (hj : j ≠ i) (old : Entry K V) (k : K) (v : V) :
    (t.displaced i old k v).entryAt j = t.entryAt j :=
  entryAt_putEntry_ne t hj _

theorem entryAt_stocked_self (hi : t.newSlot < t.capacity) (k : K) (v : V) :
    (t.stocked k v).entryAt t.newSlot = some ⟨k, v⟩ := by
  have hi' : t.newSlot < (t.putFree t.free.tail).capacity := hi
  exact entryAt_putEntry_self hi' _

theorem entryAt_stocked_ne (hj : j ≠ t.newSlot) (k : K) (v : V) :
    (t.stocked k v).entryAt j = t.entryAt j :=
  entryAt_putEntry_ne (t.putFree _) hj _

theorem entryAt_vacated_self (hi : i < t.capacity) (k : K) :
    (t.vacated i k).entryAt i = none := by
  have hi' : i < (t.putIndex (t.index.erase k)).capacity := hi
  exact entryAt_putEntry_self hi' none

theorem entryAt_vacated_ne (hj : j ≠ i) (k : K) : (t.vacated i k).entryAt j = t.entryAt j :=
  entryAt_putEntry_ne (t.putIndex _) hj none

end

namespace IsStocked

variable {t : Table K V} {used : List Nat}

/-- Below the capacity there is a slot for a new entry. -/
theorem newSlot_lt (h : t.IsStocked used) (hroom : t.size < t.capacity) :
    t.newSlot < t.capacity := by
  unfold newSlot
  cases hfree : t.free with
  | nil => exact hroom
  | cons i l => exact (h.free i (by rw [hfree]; exact List.mem_cons_self)).1

/-- The slot for a new entry does not stay free. -/
theorem newSlot_notMem_tail (h : t.IsStocked used) : t.newSlot ∉ t.free.tail := by
  unfold newSlot
  cases hfree : t.free with
  | nil => exact List.not_mem_nil
  | cons i l => exact (List.nodup_cons.mp (hfree ▸ h.free_nodup)).1

variable [EquivBEq K]

theorem displace (h : t.IsStocked used) {i : Nat} (hi : i ∈ used) {old : Entry K V}
    (he : t.entryAt i = some old) {k : K} (hk : t.index.find? k = none) (v : V) :
    (t.displaced i old k v).IsStocked used where
  nodup := h.nodup
  indexed j hj := by
    simp only [index_displaced]
    by_cases hji : j = i
    · subst hji
      refine ⟨_, entryAt_displaced_self (h.lt_capacity hj) old k v, ?_⟩
      rw [Index.find?_insert, if_pos BEq.rfl]
    · -- Another slot keeps its entry, whose key is neither the new one nor the old one.
      obtain ⟨e, hej, hf⟩ := h.indexed j hj
      have hkj := h.beq_eq_false_of_none hk hj hej
      have holdj := h.beq_eq_false_of_ne (h.find?_key hi he) hji hj hej
      refine ⟨e, (entryAt_displaced_ne hji old k v).trans hej, ?_⟩
      rw [Index.find?_insert, hkj, Index.find?_erase, holdj]
      exact hf
  size := by
    -- One key goes and one comes.
    have hnone : (t.index.erase old.key).find? k = none := by
      rw [Index.find?_erase, hk, ite_self]
    have hsome := h.find?_key hi he
    rw [index_displaced, Index.size_insert_of_none hnone, Index.size_erase_of_some hsome]
    exact h.size
  free_nodup := h.free_nodup
  free j hj := by
    obtain ⟨hlt, hnone, hout⟩ := h.free j hj
    have hji : j ≠ i := fun heq => hout (heq ▸ hi)
    rw [capacity_displaced, entryAt_displaced_ne hji]
    exact ⟨hlt, hnone, hout⟩

theorem stock (h : t.IsStocked used) (hroom : t.size < t.capacity) (hout : t.newSlot ∉ used)
    {k : K} (hk : t.index.find? k = none) (v : V) :
    (t.stocked k v).IsStocked (used ++ [t.newSlot]) where
  nodup := List.concat_eq_append ▸ h.nodup.concat hout
  indexed j hj := by
    simp only [index_stocked]
    by_cases hji : j = t.newSlot
    · subst hji
      refine ⟨_, entryAt_stocked_self (h.newSlot_lt hroom) k v, ?_⟩
      rw [Index.find?_insert, if_pos BEq.rfl]
    · have hju : j ∈ used := by simpa [hji] using hj
      obtain ⟨e, hej, hf⟩ := h.indexed j hju
      have hkj := h.beq_eq_false_of_none hk hju hej
      refine ⟨e, (entryAt_stocked_ne hji k v).trans hej, ?_⟩
      rw [Index.find?_insert, hkj]
      exact hf
  size := by
    rw [index_stocked, Index.size_insert_of_none hk, List.length_append, h.size]
    rfl
  free_nodup := h.free_nodup.sublist (List.tail_sublist _)
  free j hj := by
    obtain ⟨hlt, hnone, hju⟩ := h.free j (List.mem_of_mem_tail hj)
    have hji : j ≠ t.newSlot := fun heq => h.newSlot_notMem_tail (heq ▸ hj)
    rw [capacity_stocked, entryAt_stocked_ne hji]
    exact ⟨hlt, hnone, by simp [hju, hji]⟩

theorem vacate {i : Nat} {p q : List Nat} (h : t.IsStocked (p ++ i :: q)) {k : K}
    (hk : t.index.find? k = some i) : (t.vacated i k).IsStocked (p ++ q) := by
  have hnd := (List.perm_middle (a := i)).nodup_iff.mp h.nodup
  have hi : i ∈ p ++ i :: q := List.mem_append_right p List.mem_cons_self
  obtain ⟨hipq, hndpq⟩ := List.nodup_cons.mp hnd
  have hfree : i ∉ t.free := fun hif => (h.free i hif).2.2 hi
  refine ⟨hndpq, ?_, ?_, List.nodup_cons.mpr ⟨hfree, h.free_nodup⟩, ?_⟩
  · intro j hj
    obtain ⟨hji, hju⟩ := other_of_nodup h.nodup hj
    obtain ⟨e, hej, hf⟩ := h.indexed j hju
    have hkj := h.beq_eq_false_of_ne hk hji hju hej
    refine ⟨e, (entryAt_vacated_ne hji k).trans hej, ?_⟩
    rw [index_vacated, Index.find?_erase, hkj]
    exact hf
  · have hsize := Index.size_erase_of_some hk
    rw [h.size, List.perm_middle.length_eq, List.length_cons] at hsize
    exact Nat.add_right_cancel hsize
  · intro j hj
    rw [capacity_vacated]
    rcases List.mem_cons.mp hj with rfl | hj
    · exact ⟨h.lt_capacity hi, entryAt_vacated_self (h.lt_capacity hi) k, hipq⟩
    · obtain ⟨hlt, hnone, hout⟩ := h.free j hj
      have hji : j ≠ i := fun heq => hfree (heq ▸ hj)
      refine ⟨hlt, (entryAt_vacated_ne hji k).trans hnone, ?_⟩
      intro hmem
      exact hout (other_of_nodup h.nodup hmem).2

end IsStocked

end RecencyCache.Table
