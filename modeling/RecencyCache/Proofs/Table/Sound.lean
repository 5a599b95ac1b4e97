import RecencyCache.Proofs.Table.Stock
import RecencyCache.Table.Operations

/-! # Operations on a sound table

  What `lookup`, `insert` and `remove` do to a table that is sound with a
  given ring. Each law names the answer, the ring afterwards, and the table
  that the result differs from in the links of a few slots only. No law says
  how the table came about.

  - **A key that is there** has its slot at some place of the ring, which is
    written `p ++ i :: q`. Looking it up or storing under it leaves the ring
    `p ++ q ++ [i]`, removing it the ring `p ++ q`.
  - **A new key** takes over the oldest slot of a full table. Otherwise it
    takes a slot that should not be in the ring, which becomes the youngest.
    Soundness alone does not keep that slot out of the ring; if it is in it,
    an entry is overwritten (`insert_shared`).
-/

namespace RecencyCache.Table

variable {K V : Type} [BEq K] {t t' : Table K V} {ring ring' : List Nat}

/-! ### Frames -/

/-- Rings are about links and the start only. -/
theorem IsRing.congr (h : t.IsRing ring) (hn : ∀ i, t'.nextAt i = t.nextAt i)
    (hp : ∀ i, t'.prevAt i = t.prevAt i) (ho : t'.oldest = t.oldest) : t'.IsRing ring where
  nodup := h.nodup
  oldest := ho.trans h.oldest
  adjacent p hmem := by
    rw [adjacent_iff, hn, hp, ← adjacent_iff]
    exact h.adjacent p hmem

theorem IsRing.putEntry (h : t.IsRing ring) (i : Nat) (e : Option (Entry K V)) :
    (t.putEntry i e).IsRing ring :=
  h.congr (fun j => nextAt_putEntry t i j e) (fun j => prevAt_putEntry t i j e) rfl

theorem IsRing.putIndex (h : t.IsRing ring) (m : Index K) : (t.putIndex m).IsRing ring :=
  h.congr (fun _ => rfl) (fun _ => rfl) rfl

theorem IsRing.putFree (h : t.IsRing ring) (l : List Nat) : (t.putFree l).IsRing ring :=
  h.congr (fun _ => rfl) (fun _ => rfl) rfl

/-- Filling a slot alike keeps two tables alike. -/
theorem Relinked.putEntry {l : List Nat} (h : Relinked l t t') (i : Nat)
    (e : Option (Entry K V)) : Relinked l (t.putEntry i e) (t'.putEntry i e) where
  index := h.index
  free := h.free
  capacity := by rw [capacity_putEntry, capacity_putEntry, h.capacity]
  entryAt j := by
    by_cases hj : j = i
    · subst hj
      by_cases hlt : j < t.capacity
      · rw [entryAt_putEntry_self hlt, entryAt_putEntry_self (h.capacity ▸ hlt)]
      · have hle : t.capacity ≤ j := Nat.not_lt.mp hlt
        rw [entryAt_of_le (by rw [capacity_putEntry, h.capacity]; exact hle),
          entryAt_of_le (by rw [capacity_putEntry]; exact hle)]
    · rw [entryAt_putEntry_ne t hj, entryAt_putEntry_ne t' hj, h.entryAt]
  slots j hj := by
    show (t'.slots.modify i _)[j]? = (t.slots.modify i _)[j]?
    rw [Array.getElem?_modify, Array.getElem?_modify, h.slots j hj]

theorem Relinked.putIndex {l : List Nat} (h : Relinked l t t') (m : Index K) :
    Relinked l (t.putIndex m) (t'.putIndex m) :=
  ⟨rfl, h.free, h.capacity, h.entryAt, h.slots⟩

theorem Relinked.putFree {l : List Nat} (h : Relinked l t t') (f : List Nat) :
    Relinked l (t.putFree f) (t'.putFree f) :=
  ⟨h.index, rfl, h.capacity, h.entryAt, h.slots⟩

/-- Tables alike in all but links find the same slot for a new entry, and are alike with it. -/
theorem Relinked.stocked {l : List Nat} (h : Relinked l t t') (k : K) (v : V) :
    Relinked l (t.stocked k v) (t'.stocked k v) := by
  have hnew : t'.newSlot = t.newSlot := by
    unfold newSlot size
    rw [h.free, h.index]
  unfold Table.stocked
  rw [hnew, h.free, h.index]
  exact ((h.putFree _).putEntry _ _).putIndex _

/-! ### Promotion -/

/-- The slots whose links a promotion may change: the two that were next to the slot, the slot
    itself, and the two between which it is put. -/
def promoted (p : List Nat) (i : Nat) (q : List Nat) : List Nat :=
  ends (q ++ p) ++ i :: ends (p ++ q)

/-- A promoted slot is in the ring before and after. -/
theorem perm_promoted (p : List Nat) (i : Nat) (q : List Nat) :
    (p ++ q ++ [i]).Perm (p ++ i :: q) := by
  rw [List.append_assoc]
  exact List.Perm.append_left p List.perm_append_comm

/-- A promotion changes links in the ring only. -/
theorem promoted_subset (p : List Nat) (i : Nat) (q : List Nat) : promoted p i q ⊆ p ++ q ++ [i] := by
  intro j hj
  rcases List.mem_append.mp hj with hj | hj
  · have hqp := ends_subset _ hj
    exact List.mem_append_left _ (List.perm_append_comm.mem_iff.mp hqp)
  · rcases List.mem_cons.mp hj with rfl | hj
    · exact List.mem_append_right _ List.mem_cons_self
    · exact List.mem_append_left _ (ends_subset _ hj)

theorem mem_cut (p : List Nat) (i : Nat) (q : List Nat) : i ∈ p ++ i :: q :=
  List.mem_append_right p List.mem_cons_self

/-! ### Looking up -/

/-- A key that is not there is not found, and nothing changes. -/
theorem lookup_none {k : K} (hf : t.index.find? k = none) : lookup k t = .ok none t := by
  unfold lookup
  rw [get_bind, hf]
  rfl

variable [EquivBEq K]

/-- A key that is there is found, and its slot becomes the youngest. -/
theorem lookup_some {p q : List Nat} {i : Nat} {k : K} {e : Entry K V}
    (h : t.IsSound (p ++ i :: q)) (he : t.entryAt i = some e) (hk : (e.key == k) = true) :
    ∃ t', lookup k t = .ok (some e.value) t' ∧ t'.IsSound (p ++ q ++ [i]) ∧
      Relinked (promoted p i q) t t' := by
  obtain ⟨hring, hs⟩ := (isSound_iff t _).mp h
  have hf := hs.find?_of_beq (mem_cut p i q) he hk
  obtain ⟨t', hrun, hring', hframe⟩ := rejuvenate_isRing hring
  -- The value is read after the promotion, which leaves it where it is.
  have he' : t'.entry i = .ok e := (entry_eq_ok_iff t' i e).mpr ((hframe.entryAt i).trans he)
  refine ⟨t', ?_, (isSound_iff t' _).mpr ⟨hring', hs.relink (perm_promoted p i q) hframe⟩, hframe⟩
  unfold lookup
  rw [get_bind, hf]
  dsimp only
  rw [bind_of_ok hrun, bind_of_ok (reading_of_ok he')]
  rfl

/-! ### Storing -/

/-- Storing under a key that is there replaces the value in its slot, which becomes the
    youngest. -/
theorem insert_update {p q : List Nat} {i : Nat} {k : K} {e : Entry K V}
    (h : t.IsSound (p ++ i :: q)) (he : t.entryAt i = some e) (hk : (e.key == k) = true) (v : V) :
    ∃ t', insert k v t = .ok (.updated e.value) t' ∧ t'.IsSound (p ++ q ++ [i]) ∧
      Relinked (promoted p i q) (t.putEntry i (some { e with value := v })) t' := by
  obtain ⟨hring, hs⟩ := (isSound_iff t _).mp h
  have hi := mem_cut p i q
  have hf := hs.find?_of_beq hi he hk
  have hreplace : replaceValue i v t =
      .ok e.value (t.putEntry i (some { e with value := v })) := by
    unfold replaceValue
    rw [bind_of_ok (reading_of_ok ((entry_eq_ok_iff t i e).mpr he)),
      bind_of_ok (setEntry_of_lt (hs.lt_capacity hi) _)]
    rfl
  -- The promotion meets the new value, and links do not depend on it.
  obtain ⟨t', hrun, hring', hframe⟩ := rejuvenate_isRing (hring.putEntry i _)
  have hs' := (hs.putValue hi he v).relink (perm_promoted p i q) hframe
  refine ⟨t', ?_, (isSound_iff t' _).mpr ⟨hring', hs'⟩, hframe⟩
  unfold insert
  rw [get_bind, hf]
  dsimp only
  rw [bind_of_ok hreplace, bind_of_ok hrun]
  rfl

/-- An entry of a new key takes over the oldest slot, which becomes the youngest. -/
theorem replaceOldest_isSound {q : List Nat} {i : Nat} {k : K} {old : Entry K V}
    (h : t.IsSound (i :: q)) (he : t.entryAt i = some old) (hk : t.index.find? k = none) (v : V) :
    ∃ t', replaceOldest k v t = .ok old t' ∧ t'.IsSound (q ++ [i]) ∧
      Relinked (promoted [] i q) (t.displaced i old k v) t' := by
  obtain ⟨hring, hs⟩ := (isSound_iff t _).mp h
  have hi : i ∈ i :: q := List.mem_cons_self
  have hit := hs.lt_capacity hi
  obtain ⟨n, hn⟩ := exists_nextAt hit
  obtain ⟨b, hb⟩ := exists_prevAt hit
  have hslot : t.slot i = .ok ⟨some old, n, b⟩ := he ▸ slot_of_views hn hb
  -- At the promotion the new entry is in its slot, and neither key is in the index.
  obtain ⟨t₁, hrun, hring', hframe⟩ := rejuvenate_isRing (p := [])
    ((hring.putEntry i (some ⟨k, v⟩)).putIndex (t.index.erase old.key))
  have hframe' : Relinked (promoted [] i q) (t.displaced i old k v)
      (t₁.putIndex ((t.index.erase old.key).insert k i)) :=
    hframe.putIndex _
  have hs' := (hs.displace hi he hk v).relink (perm_promoted [] i q) hframe'
  refine ⟨_, ?_, (isSound_iff _ _).mpr ⟨hring'.putIndex _, hs'⟩, hframe'⟩
  have hbind : bindKey k i t₁ = .ok () (t₁.putIndex ((t.index.erase old.key).insert k i)) := by
    rw [bindKey_run, hframe.index]
    rfl
  unfold replaceOldest
  rw [get_bind, hring.oldest]
  dsimp only [List.head?_cons]
  rw [bind_of_ok (reading_of_ok hslot), bind_of_ok (setEntry_of_lt hit _)]
  dsimp only
  rw [bind_of_ok (unbindKey_run _ _), index_putEntry, bind_of_ok hrun, bind_of_ok hbind]
  rfl

/-- Storing a new key in a full table evicts the oldest entry. -/
theorem insert_evict {q : List Nat} {i : Nat} {k : K} {old : Entry K V} (h : t.IsSound (i :: q))
    (he : t.entryAt i = some old) (hk : t.index.find? k = none) (hfull : t.capacity ≤ t.size)
    (v : V) :
    ∃ t', insert k v t = .ok (.evicted old.key old.value) t' ∧ t'.IsSound (q ++ [i]) ∧
      Relinked (promoted [] i q) (t.displaced i old k v) t' := by
  obtain ⟨t', hrun, hsound, hframe⟩ := replaceOldest_isSound h he hk v
  refine ⟨t', ?_, hsound, hframe⟩
  unfold insert
  rw [get_bind, hk]
  dsimp only
  rw [if_pos hfull, bind_of_ok hrun]
  rfl

omit [EquivBEq K] in
theorem takeSlot_run (t : Table K V) :
    takeSlot t = .ok t.newSlot (t.putFree t.free.tail) := by
  unfold takeSlot newSlot
  rw [bind_of_ok (popFree_run t)]
  cases t.free.head? <;> rfl

omit [EquivBEq K] in
/-- Storing a new key below the capacity fills the slot for it, links it and binds the key. -/
theorem insert_below {t₁ : Table K V} {k : K} {v : V} (hk : t.index.find? k = none)
    (hroom : t.size < t.capacity) (hit : t.newSlot < t.capacity)
    (hlink : linkYoungest t.newSlot ((t.putFree t.free.tail).putEntry t.newSlot (some ⟨k, v⟩)) =
      .ok () t₁) :
    insert k v t = .ok .inserted (t₁.putIndex (t₁.index.insert k t.newSlot)) := by
  have hit' : t.newSlot < (t.putFree t.free.tail).capacity := hit
  unfold insert
  rw [get_bind, hk]
  dsimp only
  rw [if_neg (Nat.not_le.mpr hroom), bind_of_ok (takeSlot_run t),
    bind_of_ok (setEntry_of_lt hit' _), bind_of_ok hlink, bind_of_ok (bindKey_run t₁ k t.newSlot)]
  rfl

/-- Storing a new key below the capacity takes a slot, provided that the slot is not in the
    ring. Only a slot off the free stack is certain not to be. -/
theorem insert_new (h : t.IsSound ring) {k : K} (hk : t.index.find? k = none)
    (hroom : t.size < t.capacity) (hout : t.newSlot ∉ ring) (v : V) :
    ∃ t', insert k v t = .ok .inserted t' ∧ t'.IsSound (ring ++ [t.newSlot]) ∧
      Relinked (t.newSlot :: ends ring) (t.stocked k v) t' := by
  obtain ⟨hring, hs⟩ := (isSound_iff t ring).mp h
  have hit := hs.newSlot_lt hroom
  obtain ⟨t₁, hrun, hring', hframe⟩ := linkYoungest_isRing
    ((hring.putFree t.free.tail).putEntry t.newSlot (some ⟨k, v⟩)) hout
    (by rw [capacity_putEntry]; exact hit)
  have hframe' : Relinked (t.newSlot :: ends ring) (t.stocked k v)
      (t₁.putIndex (t₁.index.insert k t.newSlot)) := by
    rw [hframe.index]
    exact hframe.putIndex _
  have hs' := (hs.stock hroom hout hk v).relink (.refl _) hframe'
  exact ⟨_, insert_below hk hroom hit hrun, (isSound_iff _ _).mpr ⟨hring'.putIndex _, hs'⟩, hframe'⟩

omit [EquivBEq K] in
/-- An index in which a new key has been led to the slot of another one fits no ring. -/
theorem not_isSound_of_shared {m : Index K} {k : K} {i : Nat} (hk : m.find? k = none)
    (hi : i ∈ m.bindings.map (·.2)) (hindex : t.index = m.insert k i) : ¬ t.IsSound ring := by
  intro h
  have hs := h.isStocked
  have hnd := hs.bindings_perm.nodup_iff.mpr hs.nodup
  rw [hindex, Index.bindings_insert hk, List.map_append, List.nodup_append] at hnd
  exact hnd.2.2 i hi i (by simp) rfl

omit [EquivBEq K] in
/-- If the slot for a new entry is in the ring, its entry is overwritten and the table is sound no
    more: two keys lead to the slot. -/
theorem insert_shared (h : t.IsSound ring) {k : K} (hk : t.index.find? k = none)
    (hroom : t.size < t.capacity) (hin : t.newSlot ∈ ring) (v : V) :
    ∃ t', insert k v t = .ok .inserted t' ∧ ∀ ring', ¬ t'.IsSound ring' := by
  obtain ⟨hring, hs⟩ := (isSound_iff t ring).mp h
  have hit := hs.newSlot_lt hroom
  obtain ⟨t₁, hrun, hindex⟩ := exists_linkYoungest (i := t.newSlot)
    ((hring.putFree t.free.tail).putEntry t.newSlot (some ⟨k, v⟩))
    (by rw [capacity_putEntry]; exact hit)
  refine ⟨_, insert_below hk hroom hit hrun, ?_⟩
  intro ring'
  apply not_isSound_of_shared hk (hs.bindings_perm.mem_iff.mpr hin)
  rw [hindex]
  rfl

/-! ### Removing -/

omit [EquivBEq K] in
/-- A key that is not there is not removed, and nothing changes. -/
theorem remove_none {k : K} (hf : t.index.find? k = none) : remove k t = .ok none t := by
  unfold remove
  rw [get_bind, hf]
  rfl

/-- A key that is there leaves, and its slot goes onto the free stack. -/
theorem remove_some {p q : List Nat} {i : Nat} {k : K} {e : Entry K V}
    (h : t.IsSound (p ++ i :: q)) (he : t.entryAt i = some e) (hk : (e.key == k) = true) :
    ∃ t', remove k t = .ok (some e.value) t' ∧ t'.IsSound (p ++ q) ∧
      Relinked (ends (q ++ p)) (t.vacated i k) t' := by
  obtain ⟨hring, hs⟩ := (isSound_iff t _).mp h
  have hi := mem_cut p i q
  have hf := hs.find?_of_beq hi he hk
  have hit := hs.lt_capacity hi
  obtain ⟨t₁, hrun, hring', hframe⟩ := unlink_isRing (hring.putIndex (t.index.erase k))
  have hit₁ : i < t₁.capacity := hframe.capacity ▸ hit
  obtain ⟨n, hn⟩ := exists_nextAt hit₁
  obtain ⟨b, hb⟩ := exists_prevAt hit₁
  -- Out of the ring the slot still holds its entry.
  have hslot : t₁.slot i = .ok ⟨some e, n, b⟩ := by
    rw [slot_of_views hn hb, hframe.entryAt, entryAt_putIndex, he]
  have hframe' : Relinked (ends (q ++ p)) (t.vacated i k)
      ((t₁.putEntry i none).putFree (i :: t.free)) := (hframe.putEntry i none).putFree _
  have hs' := (hs.vacate hf).relink (.refl _) hframe'
  refine ⟨_, ?_, (isSound_iff _ _).mpr ⟨(hring'.putEntry i none).putFree _, hs'⟩, hframe'⟩
  have hpush : pushFree i (t₁.putEntry i none) =
      .ok () ((t₁.putEntry i none).putFree (i :: t.free)) := by
    rw [pushFree_run, free_putEntry, hframe.free]
    rfl
  unfold remove
  rw [get_bind, hf]
  dsimp only
  rw [bind_of_ok (unbindKey_run t k), bind_of_ok hrun, bind_of_ok (reading_of_ok hslot)]
  dsimp only
  rw [bind_of_ok (setEntry_of_lt hit₁ none), bind_of_ok hpush]
  rfl

/-! ### Every case of an operation -/

/-- A lookup on a sound table misses, or it finds a slot of the ring. -/
theorem lookup_cases (h : t.IsSound ring) (k : K) :
    (t.index.find? k = none ∧ lookup k t = .ok none t) ∨
      ∃ p i q e t', ring = p ++ i :: q ∧ t.entryAt i = some e ∧ (e.key == k) = true ∧
        lookup k t = .ok (some e.value) t' ∧ t'.IsSound (p ++ q ++ [i]) ∧
        Relinked (promoted p i q) t t' := by
  have hs := h.isStocked
  cases hf : t.index.find? k with
  | none => exact .inl ⟨rfl, lookup_none hf⟩
  | some i =>
    obtain ⟨p, q, e, rfl, he, hk⟩ := hs.exists_split hf
    obtain ⟨t', hrun, hsound, hframe⟩ := lookup_some h he hk
    exact .inr ⟨p, i, q, e, t', rfl, he, hk, hrun, hsound, hframe⟩

/-- Storing in a sound table updates a slot of the ring, evicts the entry of the oldest slot, or
    takes the slot for a new entry, which is outside the ring or overwritten. -/
theorem insert_cases (h : t.IsSound ring) (hcap : 1 ≤ t.capacity) (k : K) (v : V) :
    (∃ p i q e t', ring = p ++ i :: q ∧ t.entryAt i = some e ∧ (e.key == k) = true ∧
      insert k v t = .ok (.updated e.value) t' ∧ t'.IsSound (p ++ q ++ [i]) ∧
      Relinked (promoted p i q) (t.putEntry i (some { e with value := v })) t') ∨
    (∃ i q e t', ring = i :: q ∧ t.entryAt i = some e ∧ t.index.find? k = none ∧
      t.capacity ≤ t.size ∧ insert k v t = .ok (.evicted e.key e.value) t' ∧
      t'.IsSound (q ++ [i]) ∧ Relinked (promoted [] i q) (t.displaced i e k v) t') ∨
    (∃ t', t.index.find? k = none ∧ t.size < t.capacity ∧ t.newSlot ∉ ring ∧
      insert k v t = .ok .inserted t' ∧ t'.IsSound (ring ++ [t.newSlot]) ∧
      Relinked (t.newSlot :: ends ring) (t.stocked k v) t') ∨
    (∃ t', t.index.find? k = none ∧ t.size < t.capacity ∧ t.newSlot ∈ ring ∧
      insert k v t = .ok .inserted t' ∧ ∀ ring', ¬ t'.IsSound ring') := by
  have hs := h.isStocked
  cases hf : t.index.find? k with
  | some i =>
    obtain ⟨p, q, e, rfl, he, hk⟩ := hs.exists_split hf
    obtain ⟨t', hrun, hsound, hframe⟩ := insert_update h he hk v
    exact .inl ⟨p, i, q, e, t', rfl, he, hk, hrun, hsound, hframe⟩
  | none =>
    by_cases hroom : t.size < t.capacity
    · by_cases hin : t.newSlot ∈ ring
      · obtain ⟨t', hrun, hbad⟩ := insert_shared h hf hroom hin v
        exact .inr (.inr (.inr ⟨t', rfl, hroom, hin, hrun, hbad⟩))
      · obtain ⟨t', hrun, hsound, hframe⟩ := insert_new h hf hroom hin v
        exact .inr (.inr (.inl ⟨t', rfl, hroom, hin, hrun, hsound, hframe⟩))
    · have hfull := Nat.not_lt.mp hroom
      -- A full table has an oldest slot, since there is room for one entry at least.
      cases ring with
      | nil =>
        have hzero : t.size = 0 := hs.size
        omega
      | cons i q =>
        obtain ⟨e, he, -⟩ := hs.indexed i List.mem_cons_self
        obtain ⟨t', hrun, hsound, hframe⟩ := insert_evict h he hf hfull v
        exact .inr (.inl ⟨i, q, e, t', rfl, he, rfl, hfull, hrun, hsound, hframe⟩)

/-- Removing from a sound table does nothing, or it gives a slot of the ring up. -/
theorem remove_cases (h : t.IsSound ring) (k : K) :
    (t.index.find? k = none ∧ remove k t = .ok none t) ∨
      ∃ p i q e t', ring = p ++ i :: q ∧ t.entryAt i = some e ∧ (e.key == k) = true ∧
        t.index.find? k = some i ∧ remove k t = .ok (some e.value) t' ∧ t'.IsSound (p ++ q) ∧
        Relinked (ends (q ++ p)) (t.vacated i k) t' := by
  have hs := h.isStocked
  cases hf : t.index.find? k with
  | none => exact .inl ⟨rfl, remove_none hf⟩
  | some i =>
    obtain ⟨p, q, e, rfl, he, hk⟩ := hs.exists_split hf
    obtain ⟨t', hrun, hsound, hframe⟩ := remove_some h he hk
    exact .inr ⟨p, i, q, e, t', rfl, he, hk, rfl, hrun, hsound, hframe⟩

end RecencyCache.Table
