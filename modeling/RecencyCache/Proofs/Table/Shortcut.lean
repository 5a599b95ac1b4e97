import RecencyCache.Proofs.Table.Sound
import RecencyCache.Proofs.Table.Verdict

/-! # Shortcuts of the operations

  A promotion, an update and an eviction leave an entry, or its successor, in
  the slot where it was. The long way is to remove the key and to store the
  entry again (`reinsert`). Both lead to the same table, on every table that
  passes the check.

  - **The long way** empties the slot and puts it on top of the free stack, so
    that the entry that is stored next finds it there (`reinsert_of_isSound`).
  - **The same state** has equal slots, with all entries and links, an equal
    free stack and start of the ring, and indexes that find the same. It is
    enough that both rings are the same list and that the tables differ from
    two equal ones by links of the ring (`SameState.of_relinked`).
-/

namespace RecencyCache.Table

variable {K V : Type} [BEq K] {t t' u u' : Table K V} {ring : List Nat}

/-! ### States -/

/-- The tables are the same but for the spelling and order of the bindings in the index. -/
structure SameState (t t' : Table K V) : Prop where
  /-- All slots have the same entries and links. -/
  slots : t'.slots = t.slots
  /-- Every key leads to the same slot, or nowhere. -/
  index : ∀ k, t'.index.find? k = t.index.find? k
  /-- There are as many keys. -/
  size : t'.size = t.size
  /-- The free stack is the same. -/
  free : t'.free = t.free
  /-- The ring starts at the same slot. -/
  oldest : t'.oldest = t.oldest

/-- Sound tables with the same ring are the same if they differ by links in the ring from two that
    have the same slots and free stack, and indexes that find the same. -/
theorem SameState.of_relinked {l l' : List Nat} (h : t.IsSound ring) (h' : t'.IsSound ring)
    (hframe : Relinked l u t) (hframe' : Relinked l' u' t') (hl : l ⊆ ring) (hl' : l' ⊆ ring)
    (hslots : u'.slots = u.slots) (hindex : ∀ k, u'.index.find? k = u.index.find? k)
    (hfree : u'.free = u.free) : SameState t t' where
  slots := by
    apply Array.ext_getElem?
    intro i
    by_cases hi : i ∈ ring
    · -- In the ring the links follow from the list, and the entry was not touched.
      apply h.isRing.slots_eq h'.isRing hi
      rw [hframe'.entryAt, hframe.entryAt]
      unfold entryAt
      rw [hslots]
    · rw [hframe.slots i fun hil => hi (hl hil), hframe'.slots i fun hil => hi (hl' hil), hslots]
  index k := by rw [hframe'.index, hframe.index, hindex k]
  size := h'.size.trans h.size.symm
  free := by rw [hframe'.free, hframe.free, hfree]
  oldest := h'.isRing.oldest.trans h.isRing.oldest.symm

/-! ### The long way -/

/-- Removes a key, and stores an entry then. -/
def reinsert (k j : K) (v : V) : TableM K V (Insertion K V) := do
  let _ ← remove k
  insert j v

/-- An entry that fills the slot just given up is where it would be had it displaced the other. -/
theorem stocked_vacated [EquivBEq K] {i : Nat} {e : Entry K V} {k : K} (hk : (e.key == k) = true)
    (j : K) (v : V) : (t.vacated i k).stocked j v = t.displaced i e j v := by
  -- Index and free stack are put back, and the slot is written twice.
  have hslots := congrArg Table.slots (putEntry_putEntry t i none (some ⟨j, v⟩))
  unfold displaced
  rw [Index.erase_congr t.index hk]
  unfold stocked vacated newSlot putFree putIndex
  exact congrArg (fun slots => Table.mk slots _ t.free t.oldest) hslots

variable [EquivBEq K]

/-- Removing a key and storing an entry of a key that is not there, or not any more, puts the
    entry in the slot that was given up, at the young end of the ring. -/
theorem reinsert_of_isSound {p q : List Nat} {i : Nat} {e : Entry K V} {k j : K}
    (h : t.IsSound (p ++ i :: q)) (he : t.entryAt i = some e) (hk : (e.key == k) = true)
    (hj : (t.index.erase k).find? j = none) (v : V) :
    ∃ t', reinsert k j v t = .ok .inserted t' ∧ t'.IsSound (p ++ q ++ [i]) ∧
      Relinked (promoted p i q) (t.displaced i e j v) t' := by
  obtain ⟨t₁, hrun₁, hsound₁, hframe₁⟩ := remove_some h he hk
  -- The slot given up is the one that the new entry takes.
  have hnew : t₁.newSlot = i := by
    unfold newSlot
    rw [hframe₁.free]
    rfl
  have hout : t₁.newSlot ∉ p ++ q := by
    rw [hnew]
    intro hi
    exact (other_of_nodup h.isRing.nodup hi).1 rfl
  have hroom : t₁.size < t₁.capacity := by
    have hle := h.isStocked.length_le
    rw [hsound₁.size, hframe₁.capacity, capacity_vacated]
    rw [List.perm_middle.length_eq] at hle
    exact hle
  have hnone : t₁.index.find? j = none := by
    rw [hframe₁.index]
    exact hj
  obtain ⟨t₂, hrun₂, hsound₂, hframe₂⟩ := insert_new hsound₁ hnone hroom hout v
  rw [hnew] at hsound₂ hframe₂
  have hframe := (hframe₁.stocked j v).trans hframe₂
  rw [stocked_vacated hk] at hframe
  exact ⟨t₂, (bind_of_ok hrun₁ _).trans hrun₂, hsound₂, hframe⟩

/-- Under its own spelling the key of an entry may be stored again once it has been removed. -/
theorem reinsert_same_key {p q : List Nat} {i : Nat} {e : Entry K V} {k : K}
    (h : t.IsSound (p ++ i :: q)) (he : t.entryAt i = some e) (hk : (e.key == k) = true) (v : V) :
    ∃ t', reinsert k e.key v t = .ok .inserted t' ∧ t'.IsSound (p ++ q ++ [i]) ∧
      Relinked (promoted p i q) (t.displaced i e e.key v) t' := by
  apply reinsert_of_isSound h he hk
  rw [Index.find?_erase, if_pos (BEq.symm hk)]

/-! ### Shortcuts -/

/-- From table `t`, computation `x` answers `a`, computation `y` answers `b`, and they end in the
    same state. -/
def SameEnd {α β : Type} (t : Table K V) (x : TableM K V α) (a : α) (y : TableM K V β) (b : β) :
    Prop :=
  ∃ t₁ t₂, x t = .ok a t₁ ∧ y t = .ok b t₂ ∧ SameState t₁ t₂

section

variable {p q : List Nat} {i : Nat} {e : Entry K V} {k : K}

/-- A promotion is a removal of the entry that stores it again. -/
theorem lookup_sameEnd (h : t.IsSound (p ++ i :: q)) (he : t.entryAt i = some e)
    (hk : (e.key == k) = true) :
    SameEnd t (lookup k) (some e.value) (reinsert k e.key e.value) .inserted := by
  obtain ⟨t₁, hrun₁, hsound₁, hframe₁⟩ := lookup_some h he hk
  obtain ⟨t₂, hrun₂, hsound₂, hframe₂⟩ := reinsert_same_key h he hk e.value
  have hf := h.isStocked.find?_key (mem_cut p i q) he
  -- The long way writes the entry over itself.
  have hslots := congrArg Table.slots (putEntry_entryAt t i)
  rw [he] at hslots
  exact ⟨t₁, t₂, hrun₁, hrun₂, .of_relinked hsound₁ hsound₂ hframe₁ hframe₂
    (promoted_subset p i q) (promoted_subset p i q) hslots (Index.find?_insert_erase hf) rfl⟩

/-- An update is a removal of the entry that stores its key again, with the other value. -/
theorem update_sameEnd (h : t.IsSound (p ++ i :: q)) (he : t.entryAt i = some e)
    (hk : (e.key == k) = true) (v : V) :
    SameEnd t (insert k v) (.updated e.value) (reinsert k e.key v) .inserted := by
  obtain ⟨t₁, hrun₁, hsound₁, hframe₁⟩ := insert_update h he hk v
  obtain ⟨t₂, hrun₂, hsound₂, hframe₂⟩ := reinsert_same_key h he hk v
  have hf := h.isStocked.find?_key (mem_cut p i q) he
  exact ⟨t₁, t₂, hrun₁, hrun₂, .of_relinked hsound₁ hsound₂ hframe₁ hframe₂
    (promoted_subset p i q) (promoted_subset p i q) rfl (Index.find?_insert_erase hf) rfl⟩

/-- An eviction is a removal of the oldest entry that stores the new one. -/
theorem evict_sameEnd (h : t.IsSound (i :: q)) (he : t.entryAt i = some e)
    (hk : t.index.find? k = none) (hfull : t.capacity ≤ t.size) (v : V) :
    SameEnd t (insert k v) (.evicted e.key e.value) (reinsert e.key k v) .inserted := by
  have hnone : (t.index.erase e.key).find? k = none := by
    rw [Index.find?_erase, hk, ite_self]
  obtain ⟨t₁, hrun₁, hsound₁, hframe₁⟩ := insert_evict h he hk hfull v
  obtain ⟨t₂, hrun₂, hsound₂, hframe₂⟩ := reinsert_of_isSound (p := []) h he BEq.rfl hnone v
  exact ⟨t₁, t₂, hrun₁, hrun₂, .of_relinked hsound₁ hsound₂ hframe₁ hframe₂
    (promoted_subset [] i q) (promoted_subset [] i q) rfl (fun _ => rfl) rfl⟩

end

/-- On a table that passes the check, a lookup that finds an entry, an update of one and an
    eviction of the oldest one each end as a removal of the entry's key and another storing do: of
    the same entry, of the key in the spelling it has there, or of the new entry. By then the key is
    not there, so the storing inserts. A full table has an oldest entry, unless it has no slots. -/
theorem shortcuts_sameEnd (h : t.verify = .ok .sound) :
    (∀ k, t.contains k = true → ∃ i e, t.index.find? k = some i ∧ t.Holds i e ∧
      (e.key == k) = true ∧
      SameEnd t (lookup k) (some e.value) (reinsert k e.key e.value) .inserted ∧
      ∀ v, SameEnd t (insert k v) (.updated e.value) (reinsert k e.key v) .inserted) ∧
    ∀ k, t.contains k = false → t.size = t.capacity →
      (t.capacity = 0 ∧ t.oldest = none) ∨ ∃ i e, t.oldest = some i ∧ t.Holds i e ∧
        ∀ v, SameEnd t (insert k v) (.evicted e.key e.value) (reinsert e.key k v) .inserted := by
  obtain ⟨ring, hsound⟩ := isSound_of_verify h
  obtain ⟨hring, hs⟩ := (isSound_iff t ring).mp hsound
  constructor
  · intro k hk
    unfold contains at hk
    rw [Index.contains_eq] at hk
    obtain ⟨i, hf⟩ := Option.isSome_iff_exists.mp hk
    obtain ⟨p, q, e, rfl, he, hek⟩ := hs.exists_split hf
    exact ⟨i, e, hf, (holds_iff t i e).mpr he, hek, lookup_sameEnd hsound he hek,
      update_sameEnd hsound he hek⟩
  · intro k hk hfull
    have hnone := (contains_eq_false_iff t k).mp hk
    have hsize : t.size = ring.length := hs.size
    cases ring with
    | nil => exact .inl ⟨hfull.symm.trans hsize, hring.oldest⟩
    | cons i q =>
      obtain ⟨e, he, -⟩ := hs.indexed i List.mem_cons_self
      exact .inr ⟨i, e, hring.oldest, (holds_iff t i e).mpr he,
        evict_sameEnd hsound he hnone (Nat.le_of_eq hfull.symm)⟩

/-- A full table of two slots that link to each other both ways. -/
theorem shortcuts_sameEnd_two :
    ∃ t : Table Nat Nat,
      t = ⟨#[⟨some ⟨5, 50⟩, 1, 1⟩, ⟨some ⟨6, 60⟩, 0, 0⟩],
        (Index.empty.insert 5 0).insert 6 1, [], some 1⟩ ∧
      t.verify = .ok .sound ∧ (∃ i e, t.index.find? 6 = some i ∧ t.Holds i e ∧
        SameEnd t (lookup 6) (some e.value) (reinsert 6 e.key e.value) .inserted) ∧
      ∃ i e, t.oldest = some i ∧ t.Holds i e ∧
        SameEnd t (insert 7 70) (.evicted e.key e.value) (reinsert e.key 7 70) .inserted := by
  obtain ⟨hfound, hnew⟩ := shortcuts_sameEnd
    (t := (⟨#[⟨some ⟨5, 50⟩, 1, 1⟩, ⟨some ⟨6, 60⟩, 0, 0⟩],
      (Index.empty.insert 5 0).insert 6 1, [], some 1⟩ : Table Nat Nat)) (by decide)
  obtain ⟨i, e, hi, he, -, hlookup, -⟩ := hfound 6 rfl
  refine ⟨_, rfl, by decide, ⟨i, e, hi, he, hlookup⟩, ?_⟩
  rcases hnew 7 rfl rfl with ⟨-, hnone⟩ | ⟨j, f, hj, hf, hall⟩
  · cases hnone
  · exact ⟨j, f, hj, hf, hall 70⟩

end RecencyCache.Table
