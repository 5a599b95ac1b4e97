import RecencyCache.Proofs.Table.Walk
import RecencyCache.Table.Tamper

/-! # Single faults are detected

  A write to one place of a sound table that breaks it is always found out:
  nothing that the table happens to hold elsewhere, in slots that are not in
  use or in links that have become stale, can make up for it.

  - **What the write has left alone** says which slots must be in the ring.
    With the same index these are the slots that it leads to
    (`IsSound.perm_of_index`), and with the same links those that they lead
    to (`IsSound.perm_of_links`).
  - **The place that was written** does not agree with that. A link is
    contradicted by the one that runs the other way, an entry by the index,
    the index by the entries or by their number, and the free stack by the
    slots on it.

  `Injures` lists the writes.
-/

namespace RecencyCache.Table

variable {K V : Type} [BEq K] {t t' : Table K V} {ring ring' : List Nat} {i : Nat}

/-! ### Which slots are in the ring -/

/-- Sound tables with the same index have the same slots in their rings. -/
theorem IsSound.perm_of_index (h : t.IsSound ring) (h' : t'.IsSound ring')
    (hindex : t'.index = t.index) : ring'.Perm ring := by
  have hs := h.isStocked.bindings_perm
  have hs' := h'.isStocked.bindings_perm
  rw [hindex] at hs'
  exact hs'.symm.trans hs

/-- Sound tables with the same start and forward links have the same slots in their rings. -/
theorem IsSound.perm_of_links (h : t.IsSound ring) (h' : t'.IsSound ring')
    (ho : t'.oldest = t.oldest) (hn : ∀ i, t'.nextAt i = t.nextAt i) : ring'.Perm ring := by
  have hsub := h.isRing.subset h'.isRing ho hn
  have hsub' := h'.isRing.subset h.isRing ho.symm fun i => (hn i).symm
  exact (List.subperm_of_subset h'.isRing.nodup hsub').antisymm
    (List.subperm_of_subset h.isRing.nodup hsub)

/-! ### Links and the start of the ring -/

/-- The slot to which a changed link leads is not followed back by its own. -/
theorem IsSound.not_putNext (h : t.IsSound ring) (hi : i ∈ ring) {n : Nat}
    (hn : t.nextAt i ≠ some n) (ring' : List Nat) : ¬ (t.putNext i n).IsSound ring' := by
  intro h'
  have hperm := h.perm_of_index h' rfl
  have hlt := h.isStocked.lt_capacity hi
  -- After the write slot `n` is in the ring, and links back to slot `i` as it did before.
  obtain ⟨j, hj, hnext, hprev⟩ := h'.isRing.exists_next (hperm.mem_iff.mpr hi)
  rw [nextAt_putNext_self hlt] at hnext
  rw [prevAt_putNext] at hprev
  obtain ⟨k, -, hnext', hprev'⟩ := h.isRing.exists_prev (hperm.mem_iff.mp hj)
  obtain rfl : i = k := Option.some.inj (hprev.symm.trans hprev')
  exact hn (hnext'.trans hnext.symm)

theorem IsSound.not_putPrev (h : t.IsSound ring) (hi : i ∈ ring) {p : Nat}
    (hp : t.prevAt i ≠ some p) (ring' : List Nat) : ¬ (t.putPrev i p).IsSound ring' := by
  intro h'
  have hperm := h.perm_of_index h' rfl
  have hlt := h.isStocked.lt_capacity hi
  obtain ⟨j, hj, hnext, hprev⟩ := h'.isRing.exists_prev (hperm.mem_iff.mpr hi)
  rw [prevAt_putPrev_self hlt] at hprev
  rw [nextAt_putPrev] at hnext
  obtain ⟨k, -, hnext', hprev'⟩ := h.isRing.exists_next (hperm.mem_iff.mp hj)
  obtain rfl : i = k := Option.some.inj (hnext.symm.trans hnext')
  exact hp (hprev'.trans hprev.symm)

/-- A ring does not start outside of itself, nor nowhere unless it is empty. -/
theorem IsSound.not_putOldest (h : t.IsSound ring) {o : Option Nat}
    (hsome : ∀ i, o = some i → i ∉ ring) (hnone : o = none → t.size ≠ 0) (ring' : List Nat) :
    ¬ (t.putOldest o).IsSound ring' := by
  intro h'
  have hperm := h.perm_of_index h' rfl
  have ho : o = ring'.head? := h'.isRing.oldest
  cases ring' with
  | nil =>
    apply hnone ho
    rw [h.size, ← hperm.length_eq]
    rfl
  | cons i l => exact hsome i ho (hperm.mem_iff.mp List.mem_cons_self)

/-! ### Entries -/

/-- A slot of the ring needs an entry whose key leads to the slot. -/
theorem IsSound.not_putEntry (h : t.IsSound ring) (hi : i ∈ ring) {x : Option (Entry K V)}
    (hx : ∀ e, x = some e → t.index.find? e.key ≠ some i) (ring' : List Nat) :
    ¬ (t.putEntry i x).IsSound ring' := by
  intro h'
  have hlt := h.isStocked.lt_capacity hi
  obtain ⟨e, he, hf⟩ := h'.indexed i ((h.perm_of_index h' rfl).mem_iff.mpr hi)
  rw [holds_iff, entryAt_putEntry_self hlt] at he
  exact hx e he hf

/-- A slot on the free stack must not hold an entry. -/
theorem IsSound.not_putEntry_free (h : t.IsSound ring) (hi : i ∈ t.free) (e : Entry K V)
    (ring' : List Nat) : ¬ (t.putEntry i (some e)).IsSound ring' := by
  intro h'
  obtain ⟨hlt, -⟩ := (vacant_iff t i).mp (h.free_vacant i hi).1
  obtain ⟨-, hnone⟩ := (vacant_iff _ i).mp (h'.free_vacant i hi).1
  rw [entryAt_putEntry_self hlt] at hnone
  cases hnone

/-! ### Index and free stack -/

/-- An index with more or fewer keys does not fit the ring. -/
theorem IsSound.not_putIndex (h : t.IsSound ring) {m : Index K} (hm : m.size ≠ t.size)
    (ring' : List Nat) : ¬ (t.putIndex m).IsSound ring' := by
  intro h'
  have hlen := (h.perm_of_links h' rfl fun _ => rfl).length_eq
  apply hm
  rw [h.size, ← hlen]
  exact h'.size

/-- The key of a slot has to lead there. -/
theorem IsSound.not_retarget [EquivBEq K] (h : t.IsSound ring) {k : K} {j : Nat}
    (hf : t.index.find? k = some i) (hj : j ≠ i) (ring' : List Nat) :
    ¬ (t.putIndex (t.index.insert k j)).IsSound ring' := by
  intro h'
  obtain ⟨hi, e, he, hk⟩ := h.isStocked.of_find? hf
  have hperm := h.perm_of_links h' rfl fun _ => rfl
  have hs' := h'.isStocked
  have hlead := hs'.find?_key (hperm.mem_iff.mpr hi) he
  have hwritten : (t.index.insert k j).find? e.key = some j := by
    rw [Index.find?_insert, if_pos (BEq.symm hk)]
  exact hj (Option.some.inj (hwritten.symm.trans hlead))

/-- Only slots that are there, vacant, not in the ring and not free yet may become free. -/
theorem IsSound.not_pushFree (h : t.IsSound ring)
    (hi : i ∈ ring ∨ i ∈ t.free ∨ t.capacity ≤ i ∨ ∃ e, t.Holds i e) (ring' : List Nat) :
    ¬ (t.putFree (i :: t.free)).IsSound ring' := by
  intro h'
  have hperm := h.perm_of_index h' rfl
  obtain ⟨hvacant, hout⟩ := h'.free_vacant i List.mem_cons_self
  obtain ⟨hlt, hnone⟩ := (vacant_iff _ i).mp hvacant
  rcases hi with hi | hi | hi | ⟨e, he⟩
  · exact hout (hperm.mem_iff.mpr hi)
  · exact (List.nodup_cons.mp h'.free_nodup).1 hi
  · exact absurd hlt (Nat.not_lt.mpr hi)
  · have hsome := (holds_iff t i e).mp he
    exact absurd (hsome.symm.trans hnone) (by simp)

/-! ### Writes -/

/-- A single write that leaves nothing sound of a sound table. -/
inductive Injures (t : Table K V) : TableM K V Unit → Prop where
  /-- A linked slot gets another forward link. -/
  | next {i n : Nat} (hi : i ∈ t.linked) (hn : t.nextAt i ≠ some n) : t.Injures (setNext i n)
  /-- A linked slot gets another backward link. -/
  | prev {i p : Nat} (hi : i ∈ t.linked) (hp : t.prevAt i ≠ some p) : t.Injures (setPrev i p)
  /-- A linked slot is emptied. -/
  | vacate {i : Nat} (hi : i ∈ t.linked) : t.Injures (setEntry i none)
  /-- A linked slot gets an entry with another key. -/
  | rekey {i : Nat} {e e' : Entry K V} (hi : i ∈ t.linked) (he : t.Holds i e)
      (hk : (e.key == e'.key) = false) : t.Injures (setEntry i (some e'))
  /-- An indexed key is dropped from the index. -/
  | forget {k : K} (hk : t.contains k = true) : t.Injures (tamperIndex k none)
  /-- A key that is not indexed is led to some slot number. -/
  | invent {k : K} (hk : t.contains k = false) (i : Nat) : t.Injures (tamperIndex k (some i))
  /-- An indexed key is led to another slot number. -/
  | retarget {k : K} {i j : Nat} (hk : t.index.find? k = some i) (hj : j ≠ i) :
      t.Injures (tamperIndex k (some j))
  /-- The ring of a table that is not empty starts nowhere. -/
  | unanchor (hsize : t.size ≠ 0) : t.Injures (setOldest none)
  /-- The ring starts at a number that is not that of a linked slot. -/
  | anchor {i : Nat} (hi : i ∉ t.linked) : t.Injures (setOldest (some i))
  /-- A slot on the free stack gets an entry. -/
  | fill {i : Nat} (hi : i ∈ t.free) (e : Entry K V) : t.Injures (setEntry i (some e))
  /-- A slot comes onto the free stack that is linked, free already, not there or not vacant. -/
  | free {i : Nat} (hi : i ∈ t.linked ∨ i ∈ t.free ∨ t.capacity ≤ i ∨ ∃ e, t.Holds i e) :
      t.Injures (pushFree i)

/-- A write after which the table is sound with no ring is found out. -/
theorem exists_damage_of_run {write : TableM K V Unit} (hrun : write t = .ok () t')
    (hbad : ∀ ring, ¬ t'.IsSound ring) :
    ∃ t' d, write t = .ok () t' ∧ t'.verify = .ok (.damaged d) := by
  obtain ⟨d, hd⟩ := exists_damage hbad
  exact ⟨t', d, hrun, hd⟩

/-- A table that passes the check has its linked slots in its ring, and does not pass the check any
    more after any one write that injures it. -/
theorem verify_after_injury [EquivBEq K] (h : t.verify = .ok .sound) :
    t.IsSound t.linked ∧ ∀ write, t.Injures write →
      ∃ t' d, write t = .ok () t' ∧ t'.verify = .ok (.damaged d) := by
  obtain ⟨ring, hsound⟩ := isSound_of_verify h
  rw [← hsound.linked_eq] at hsound
  have hs := hsound.isStocked
  refine ⟨hsound, ?_⟩
  intro write hwrite
  cases hwrite with
  | next hi hn =>
    exact exists_damage_of_run (setNext_of_lt (hs.lt_capacity hi) _) (hsound.not_putNext hi hn)
  | prev hi hp =>
    exact exists_damage_of_run (setPrev_of_lt (hs.lt_capacity hi) _) (hsound.not_putPrev hi hp)
  | vacate hi =>
    apply exists_damage_of_run (setEntry_of_lt (hs.lt_capacity hi) none)
    exact hsound.not_putEntry hi (by simp)
  | @rekey i e e' hi he hk =>
    apply exists_damage_of_run (setEntry_of_lt (hs.lt_capacity hi) (some e'))
    apply hsound.not_putEntry hi
    intro x hx hf
    obtain rfl : e' = x := Option.some.inj hx
    -- A key that leads to the slot is equal to the one that is there.
    obtain ⟨-, f, hf', hk'⟩ := hs.of_find? hf
    obtain rfl : e = f := Option.some.inj (((holds_iff t i e).mp he).symm.trans hf')
    rw [hk] at hk'
    cases hk'
  | @forget k hk =>
    apply exists_damage_of_run (unbindKey_run t k)
    apply hsound.not_putIndex
    unfold contains at hk
    rw [Index.contains_eq] at hk
    obtain ⟨i, hf⟩ := Option.isSome_iff_exists.mp hk
    have hsize := Index.size_erase_of_some hf
    show (t.index.erase k).size ≠ t.index.size
    omega
  | @invent k hk i =>
    apply exists_damage_of_run (bindKey_run t k i)
    apply hsound.not_putIndex
    rw [Index.size_insert_of_none ((contains_eq_false_iff t k).mp hk)]
    exact Nat.succ_ne_self _
  | @retarget k i j hk hj =>
    exact exists_damage_of_run (bindKey_run t k j) (hsound.not_retarget hk hj)
  | unanchor hsize =>
    apply exists_damage_of_run (setOldest_run t none)
    exact hsound.not_putOldest (by simp) fun _ => hsize
  | @anchor i hi =>
    apply exists_damage_of_run (setOldest_run t (some i))
    exact hsound.not_putOldest (by simpa using hi) (by simp)
  | @fill i hi e =>
    obtain ⟨hlt, -⟩ := (vacant_iff t i).mp (hsound.free_vacant i hi).1
    exact exists_damage_of_run (setEntry_of_lt hlt _) (hsound.not_putEntry_free hi e)
  | @free i hi => exact exists_damage_of_run (pushFree_run t i) (hsound.not_pushFree hi)

/-- The only linked slot is led to slot 1, which still holds an old entry and links back. -/
theorem verify_after_injury_stale :
    ∃ t t' : Table Nat Nat, ∃ d,
      t = ⟨#[⟨some ⟨5, 50⟩, 0, 0⟩, ⟨some ⟨6, 60⟩, 0, 0⟩], Index.empty.insert 5 0, [], some 0⟩ ∧
      t.verify = .ok .sound ∧ t.Injures (setNext 0 1) ∧ setNext 0 1 t = .ok () t' ∧
      t'.verify = .ok (.damaged d) := by
  let t : Table Nat Nat :=
    ⟨#[⟨some ⟨5, 50⟩, 0, 0⟩, ⟨some ⟨6, 60⟩, 0, 0⟩], Index.empty.insert 5 0, [], some 0⟩
  have hok : t.verify = .ok .sound := by decide
  have hinjures : t.Injures (setNext 0 1) := .next (by decide) (by decide)
  obtain ⟨t', d, hrun, hd⟩ := (verify_after_injury hok).2 _ hinjures
  exact ⟨t, t', d, rfl, hok, hinjures, hrun, hd⟩

end RecencyCache.Table
