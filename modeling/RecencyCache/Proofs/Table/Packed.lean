import RecencyCache.Proofs.Table.Sound

/-! # Packed tables

  No counter tells how many slots were ever used. It is not needed: the slots
  in use and the free ones together are always the first ones of the array,
  so with nothing on the free stack the first slot that was never used has
  the number of keys as its number. `verify` does not check this, and no
  single operation on a sound table restores it; it is a fact about
  histories.

  - `IsPacked` is the fact, next to the spelling of the indexed keys. Each
    change of stock keeps it.
  - `IsTidy` is a ring that is packed. The operations keep it, in each of
    their cases (`IsTidy.lookup_cases`, `IsTidy.insert_cases`,
    `IsTidy.remove_cases`). Unlike on other sound tables, a new key always
    finds a slot outside the ring.
-/

namespace RecencyCache.Table

variable {K V : Type} [BEq K] {t t' : Table K V} {used used' : List Nat}

/-- The slots in use and the free ones are the first ones, and the index spells each key as its
    slot does. -/
structure IsPacked (t : Table K V) (used : List Nat) : Prop where
  /-- Entries, index and free stack agree. -/
  stocked : t.IsStocked used
  /-- There is no gap among the slots that are in use or free, and none is both. -/
  slots : (used ++ t.free).Perm (List.range (used.length + t.free.length))
  /-- The index has the key of a slot in the same spelling. -/
  spelled : ∀ i ∈ used, ∀ e, t.entryAt i = some e → (e.key, i) ∈ t.index.bindings

namespace IsPacked

/-- A table whose index and free stack are empty has no slot in use. -/
theorem of_empty (hindex : t.index = Index.empty) (hfree : t.free = []) : t.IsPacked [] where
  stocked := by
    refine ⟨.nil, by simp, ?_, ?_, ?_⟩
    · rw [hindex]
      rfl
    · rw [hfree]
      exact .nil
    · rw [hfree]
      simp
  slots := by
    rw [hfree]
    exact .refl _
  spelled := by simp

theorem relink {l : List Nat} (h : t.IsPacked used) (hperm : used'.Perm used)
    (hframe : Relinked l t t') : t'.IsPacked used' where
  stocked := h.stocked.relink hperm hframe
  slots := by
    rw [hframe.free, hperm.length_eq]
    exact (hperm.append_right t.free).trans h.slots
  spelled i hi e he := by
    rw [hframe.index]
    exact h.spelled i (hperm.mem_iff.mp hi) e ((hframe.entryAt i).symm.trans he)

theorem putValue (h : t.IsPacked used) {i : Nat} (hi : i ∈ used) {e : Entry K V}
    (he : t.entryAt i = some e) (v : V) :
    (t.putEntry i (some { e with value := v })).IsPacked used where
  stocked := h.stocked.putValue hi he v
  slots := h.slots
  spelled j hj f hf := by
    by_cases hji : j = i
    · subst hji
      rw [entryAt_putEntry_self (h.stocked.lt_capacity hj)] at hf
      cases hf
      exact h.spelled j hj e he
    · rw [entryAt_putEntry_ne t hji] at hf
      exact h.spelled j hj f hf

/-- The slot for a new entry is not in use: with nothing free it is the first one beyond those
    in use. -/
theorem newSlot_notMem (h : t.IsPacked used) : t.newSlot ∉ used := by
  unfold newSlot
  cases hfree : t.free with
  | nil =>
    -- The slots in use are those below their number, which is the number of keys.
    have hslots := h.slots
    rw [hfree, List.append_nil] at hslots
    have hsize : t.size = used.length := h.stocked.size
    intro hmem
    have hlt := List.mem_range.mp (hslots.mem_iff.mp hmem)
    simp [hsize] at hlt
  | cons i l => exact (h.stocked.free i (by rw [hfree]; exact List.mem_cons_self)).2.2

/-- The index has the keys of the slots in use, spelled as they are there, and no others. -/
theorem mem_bindings_iff (h : t.IsPacked used) (k : K) (i : Nat) :
    (k, i) ∈ t.index.bindings ↔ i ∈ used ∧ ∃ v, t.Holds i ⟨k, v⟩ := by
  constructor
  · intro hb
    have hi : i ∈ used := h.stocked.bindings_perm.mem_iff.mp (List.mem_map_of_mem hb)
    obtain ⟨e, he, -⟩ := h.stocked.indexed i hi
    -- No slot has two bindings, so this one is spelled as the slot is.
    have hnd := h.stocked.bindings_perm.nodup_iff.mpr h.stocked.nodup
    have hsame : (e.key, i) = (k, i) := List.inj_on_of_nodup_map hnd (h.spelled i hi e he) hb rfl
    obtain rfl : e.key = k := congrArg Prod.fst hsame
    exact ⟨hi, e.value, (holds_iff t i e).mpr he⟩
  · rintro ⟨hi, v, hv⟩
    exact h.spelled i hi ⟨k, v⟩ ((holds_iff t i _).mp hv)

variable [EquivBEq K]

theorem displace (h : t.IsPacked used) {i : Nat} (hi : i ∈ used) {old : Entry K V}
    (he : t.entryAt i = some old) {k : K} (hk : t.index.find? k = none) (v : V) :
    (t.displaced i old k v).IsPacked used where
  stocked := h.stocked.displace hi he hk v
  slots := h.slots
  spelled j hj f hf := by
    have hnone : (t.index.erase old.key).find? k = none := by
      rw [Index.find?_erase, hk, ite_self]
    rw [index_displaced, Index.bindings_insert hnone, List.mem_append]
    by_cases hji : j = i
    · subst hji
      rw [entryAt_displaced_self (h.stocked.lt_capacity hj)] at hf
      cases hf
      exact .inr List.mem_cons_self
    · rw [entryAt_displaced_ne hji] at hf
      have hne := h.stocked.beq_eq_false_of_ne (h.stocked.find?_key hi he) hji hj hf
      rw [BEq.comm] at hne
      exact .inl (Index.mem_bindings_erase (h.spelled j hj f hf) hne)

omit [EquivBEq K] in
/-- With the slot for a new entry in use there is still no gap. -/
theorem perm_newSlot (h : t.IsPacked used) :
    (used ++ [t.newSlot] ++ t.free.tail).Perm
      (List.range ((used ++ [t.newSlot]).length + t.free.tail.length)) := by
  have hslots := h.slots
  unfold newSlot
  cases hfree : t.free with
  | nil =>
    -- The first slot that was never used joins those in use.
    have hsize : t.size = used.length := h.stocked.size
    rw [hfree, List.append_nil] at hslots
    simp only [List.head?_nil, Option.getD_none, List.tail_nil, List.append_nil, hsize,
      List.length_append, List.length_singleton, List.length_nil, Nat.add_zero, List.range_succ]
    exact hslots.append_right _
  | cons i l =>
    -- The top of the free stack changes sides.
    rw [hfree] at hslots
    simp only [List.head?_cons, Option.getD_some, List.tail_cons, List.append_assoc,
      List.singleton_append, List.length_append, List.length_singleton]
    rw [Nat.add_assoc, Nat.add_comm 1]
    exact hslots

theorem stock (h : t.IsPacked used) (hroom : t.size < t.capacity) {k : K}
    (hk : t.index.find? k = none) (v : V) :
    (t.stocked k v).IsPacked (used ++ [t.newSlot]) where
  stocked := h.stocked.stock hroom h.newSlot_notMem hk v
  slots := h.perm_newSlot
  spelled j hj f hf := by
    rw [index_stocked, Index.bindings_insert hk, List.mem_append]
    by_cases hji : j = t.newSlot
    · subst hji
      rw [entryAt_stocked_self (h.stocked.newSlot_lt hroom)] at hf
      cases hf
      exact .inr List.mem_cons_self
    · rw [entryAt_stocked_ne hji] at hf
      have hju : j ∈ used := by simpa [hji] using hj
      exact .inl (h.spelled j hju f hf)

theorem vacate {i : Nat} {p q : List Nat} (h : t.IsPacked (p ++ i :: q)) {k : K}
    (hk : t.index.find? k = some i) : (t.vacated i k).IsPacked (p ++ q) where
  stocked := h.stocked.vacate hk
  slots := by
    have hmove : (p ++ q ++ i :: t.free).Perm (p ++ i :: q ++ t.free) := by
      rw [List.append_assoc, List.append_assoc]
      exact List.Perm.append_left p List.perm_middle
    have hlen : (p ++ q).length + (i :: t.free).length = (p ++ i :: q).length + t.free.length := by
      simp only [List.length_append, List.length_cons]
      omega
    show (p ++ q ++ i :: t.free).Perm (List.range ((p ++ q).length + (i :: t.free).length))
    rw [hlen]
    exact hmove.trans h.slots
  spelled j hj f hf := by
    obtain ⟨hji, hju⟩ := other_of_nodup h.stocked.nodup hj
    rw [entryAt_vacated_ne hji] at hf
    have hne := h.stocked.beq_eq_false_of_ne hk hji hju hf
    rw [BEq.comm] at hne
    exact Index.mem_bindings_erase (h.spelled j hju f hf) hne

end IsPacked

/-! ### Operations -/

/-- A table as operations leave it: its links make a ring, and its slots are packed. -/
structure IsTidy (t : Table K V) (ring : List Nat) : Prop where
  /-- The links make a ring. -/
  isRing : t.IsRing ring
  /-- The slots of the ring and the free ones are the first ones. -/
  isPacked : t.IsPacked ring
  /-- There is a slot. -/
  room : 1 ≤ t.capacity

theorem isTidy_fresh {capacity : Nat} (hcap : 1 ≤ capacity) :
    (fresh capacity : Table K V).IsTidy [] := by
  have hsize : (fresh capacity : Table K V).capacity = capacity := Array.size_replicate
  exact ⟨(isSound_fresh capacity).isRing, .of_empty rfl rfl, hsize.symm ▸ hcap⟩

/-- A table can be built unless it has no slot or its index is to be too large. -/
theorem ofSizes_eq {capacity indexSize : Nat} (hcap : 1 ≤ capacity)
    (hsize : indexSize ≤ Index.maxSize) :
    ofSizes capacity indexSize = .ok (fresh capacity : Table K V) := by
  unfold ofSizes ofCapacity
  rw [if_neg (Nat.not_lt.mpr hcap)]
  show (if Index.maxSize < indexSize then _ else _) = _
  rw [if_neg (Nat.not_lt.mpr hsize)]
  rfl

@[simp] theorem capacity_cleared (t : Table K V) (wipe : Bool) :
    (t.cleared wipe).capacity = t.capacity := by
  unfold capacity cleared
  cases wipe
  · rfl
  · exact Array.size_map

/-- Clearing makes a table tidy, however it was before. -/
theorem isTidy_cleared (hroom : 1 ≤ t.capacity) (wipe : Bool) : (t.cleared wipe).IsTidy [] where
  isRing := ⟨.nil, rfl, by simp⟩
  isPacked := .of_empty rfl rfl
  room := by rwa [capacity_cleared]

namespace IsTidy

variable {ring : List Nat}

theorem isSound (h : t.IsTidy ring) : t.IsSound ring :=
  (isSound_iff t ring).mpr ⟨h.isRing, h.isPacked.stocked⟩

theorem size_eq (h : t.IsTidy ring) : t.size = ring.length :=
  h.isPacked.stocked.size

theorem lt_capacity (h : t.IsTidy ring) {i : Nat} (hi : i ∈ ring) : i < t.capacity :=
  h.isPacked.stocked.lt_capacity hi

/-- With links that make a ring again, a packed table of the same size is tidy again. -/
theorem of_relinked {u : Table K V} {l ring' : List Nat} (h : t.IsTidy ring)
    (hsound : t'.IsSound ring') (hpacked : u.IsPacked used) (hperm : ring'.Perm used)
    (hframe : Relinked l u t') (hcap : u.capacity = t.capacity) : t'.IsTidy ring' :=
  ⟨hsound.isRing, hpacked.relink hperm hframe, by rw [hframe.capacity, hcap]; exact h.room⟩

variable [EquivBEq K]

/-- A lookup on a tidy table misses, or it finds a slot of the ring. -/
theorem lookup_cases (h : t.IsTidy ring) (k : K) :
    (t.index.find? k = none ∧ lookup k t = .ok none t) ∨
      ∃ p i q e t', ring = p ++ i :: q ∧ t.entryAt i = some e ∧ (e.key == k) = true ∧
        lookup k t = .ok (some e.value) t' ∧ t'.IsTidy (p ++ q ++ [i]) ∧
        Relinked (promoted p i q) t t' := by
  rcases Table.lookup_cases h.isSound k with
    hmiss | ⟨p, i, q, e, t', rfl, he, hk, hrun, hsound, hframe⟩
  · exact .inl hmiss
  · have htidy := h.of_relinked hsound h.isPacked (perm_promoted p i q) hframe rfl
    exact .inr ⟨p, i, q, e, t', rfl, he, hk, hrun, htidy, hframe⟩

/-- Storing in a tidy table updates a slot of the ring, evicts the entry of the oldest slot, or
    takes a slot that is not in the ring. -/
theorem insert_cases (h : t.IsTidy ring) (k : K) (v : V) :
    (∃ p i q e t', ring = p ++ i :: q ∧ t.entryAt i = some e ∧ (e.key == k) = true ∧
      insert k v t = .ok (.updated e.value) t' ∧ t'.IsTidy (p ++ q ++ [i]) ∧
      Relinked (promoted p i q) (t.putEntry i (some { e with value := v })) t') ∨
    (∃ i q e t', ring = i :: q ∧ t.entryAt i = some e ∧ t.index.find? k = none ∧
      t.capacity ≤ t.size ∧ insert k v t = .ok (.evicted e.key e.value) t' ∧
      t'.IsTidy (q ++ [i]) ∧ Relinked (promoted [] i q) (t.displaced i e k v) t') ∨
    (∃ t', t.index.find? k = none ∧ t.size < t.capacity ∧ t.newSlot ∉ ring ∧
      insert k v t = .ok .inserted t' ∧ t'.IsTidy (ring ++ [t.newSlot]) ∧
      Relinked (t.newSlot :: ends ring) (t.stocked k v) t') := by
  have hout := h.isPacked.newSlot_notMem
  rcases Table.insert_cases h.isSound h.room k v with
    ⟨p, i, q, e, t', rfl, he, hk, hrun, hsound, hframe⟩ |
    ⟨i, q, e, t', rfl, he, hk, hfull, hrun, hsound, hframe⟩ |
    ⟨t', hk, hroom, -, hrun, hsound, hframe⟩ | ⟨t', -, -, hin, -⟩
  · have hpacked := h.isPacked.putValue (mem_cut p i q) he v
    have htidy := h.of_relinked hsound hpacked (perm_promoted p i q) hframe
      (capacity_putEntry t i _)
    exact .inl ⟨p, i, q, e, t', rfl, he, hk, hrun, htidy, hframe⟩
  · have hpacked := h.isPacked.displace List.mem_cons_self he hk v
    have htidy := h.of_relinked hsound hpacked (perm_promoted [] i q) hframe
      (capacity_displaced t i e k v)
    exact .inr (.inl ⟨i, q, e, t', rfl, he, hk, hfull, hrun, htidy, hframe⟩)
  · have htidy := h.of_relinked hsound (h.isPacked.stock hroom hk v) (.refl _) hframe
      (capacity_stocked t k v)
    exact .inr (.inr ⟨t', hk, hroom, hout, hrun, htidy, hframe⟩)
  · exact absurd hin hout

/-- Removing from a tidy table does nothing, or it gives a slot of the ring up. -/
theorem remove_cases (h : t.IsTidy ring) (k : K) :
    (t.index.find? k = none ∧ remove k t = .ok none t) ∨
      ∃ p i q e t', ring = p ++ i :: q ∧ t.entryAt i = some e ∧ (e.key == k) = true ∧
        remove k t = .ok (some e.value) t' ∧ t'.IsTidy (p ++ q) ∧
        Relinked (ends (q ++ p)) (t.vacated i k) t' := by
  rcases Table.remove_cases h.isSound k with
    hmiss | ⟨p, i, q, e, t', rfl, he, hek, hk, hrun, hsound, hframe⟩
  · exact .inl hmiss
  · have htidy := h.of_relinked hsound (h.isPacked.vacate hk) (.refl _) hframe
      (capacity_vacated t i k)
    exact .inr ⟨p, i, q, e, t', rfl, he, hek, hrun, htidy, hframe⟩

end IsTidy

end RecencyCache.Table
