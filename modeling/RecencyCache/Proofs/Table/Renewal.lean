import RecencyCache.Proofs.Table.History
import RecencyCache.Proofs.Table.Packed
import RecencyCache.Proofs.Table.Verdict

/-! # Cleared tables

  A table that has been cleared serves as well as a new one, whatever it was
  before. That clearing may leave old entries and links where they are never
  shows: a slot is written before it is used.

  - `Agree ring t t'` says that two tables are alike but for slots that are
    not in use. It says nothing about the entry of a slot that was never used
    since the last clearing, nor about the links of any slot outside the ring.
  - Tables that agree answer a request alike, and agree again afterwards
    (`Mirrored.handle`), so they answer a history alike (`Mirrored.run`). One
    of the two may empty its slots when it is cleared, and the other may not.
-/

namespace RecencyCache.Table

variable {K V : Type} [BEq K] {t t' : Table K V} {ring : List Nat}

/-! ### Agreement -/

/-- The tables are alike in everything but the slots that are not in use. -/
structure Agree (ring : List Nat) (t t' : Table K V) : Prop where
  /-- The index is the same. -/
  index : t'.index = t.index
  /-- The free stack is the same. -/
  free : t'.free = t.free
  /-- The ring starts at the same slot. -/
  oldest : t'.oldest = t.oldest
  /-- There are as many slots. -/
  capacity : t'.capacity = t.capacity
  /-- The slots of the ring have the same entries and links. -/
  linked : ∀ i ∈ ring, t'.slots[i]? = t.slots[i]?
  /-- The free slots are vacant in both. -/
  vacant : ∀ i ∈ t.free, t.Vacant i ∧ t'.Vacant i

namespace Agree

theorem entryAt (h : Agree ring t t') {i : Nat} (hi : i ∈ ring) : t'.entryAt i = t.entryAt i := by
  unfold Table.entryAt
  rw [h.linked i hi]

theorem size_eq (h : Agree ring t t') : t'.size = t.size := congrArg Index.size h.index

/-- A new entry takes the same slot. -/
theorem newSlot_eq (h : Agree ring t t') : t'.newSlot = t.newSlot := by
  unfold newSlot
  rw [h.free, h.size_eq]

/-- A slot that is written holds the same in both afterwards, whatever it held before. -/
theorem entryAt_putEntry (h : Agree ring t t') {i j : Nat} (hi : i < t.capacity)
    (hj : j = i ∨ j ∈ ring) (x : Option (Entry K V)) :
    (t'.putEntry i x).entryAt j = (t.putEntry i x).entryAt j := by
  by_cases hji : j = i
  · subst hji
    rw [entryAt_putEntry_self hi, entryAt_putEntry_self (h.capacity.symm ▸ hi)]
  · rw [entryAt_putEntry_ne t hji, entryAt_putEntry_ne t' hji]
    exact h.entryAt (hj.resolve_left hji)

/-- Soundness is about the slots of the ring and the free ones. -/
theorem isSound (h : Agree ring t t') (hsound : t.IsSound ring) : t'.IsSound ring where
  isRing := hsound.isRing.congr_slots h.oldest h.linked
  indexed := by
    intro i hi
    obtain ⟨e, ⟨s, hs, he⟩, hf⟩ := hsound.indexed i hi
    exact ⟨e, ⟨s, (h.linked i hi).trans hs, he⟩, h.index ▸ hf⟩
  size := by
    exact h.size_eq.trans hsound.size
  free_nodup := h.free ▸ hsound.free_nodup
  free_vacant := by
    intro i hi
    rw [h.free] at hi
    exact ⟨(h.vacant i hi).2, (hsound.free_vacant i hi).2⟩

/-- Tables with the same ring agree if they differ by relinking from two that have the same index,
    free stack and entries in the ring. -/
theorem of_relinked {u u' : Table K V} {l l' : List Nat} (h : t.IsSound ring)
    (h' : t'.IsSound ring) (hframe : Relinked l u t) (hframe' : Relinked l' u' t')
    (hindex : u'.index = u.index) (hfree : u'.free = u.free) (hcap : u'.capacity = u.capacity)
    (hentry : ∀ i ∈ ring, u'.entryAt i = u.entryAt i) : Agree ring t t' where
  index := by rw [hframe'.index, hframe.index, hindex]
  free := by rw [hframe'.free, hframe.free, hfree]
  oldest := h'.isRing.oldest.trans h.isRing.oldest.symm
  capacity := by rw [hframe'.capacity, hframe.capacity, hcap]
  linked i hi := by
    apply h.isRing.slots_eq h'.isRing hi
    rw [hframe'.entryAt, hframe.entryAt, hentry i hi]
  vacant i hi := by
    have hi' : i ∈ t'.free := by
      rw [hframe'.free, hfree, ← hframe.free]
      exact hi
    exact ⟨(h.free_vacant i hi).1, (h'.free_vacant i hi').1⟩

/-- However two tables of one size were before, once cleared they agree. -/
theorem cleared (h : t'.capacity = t.capacity) (wipe wipe' : Bool) :
    Agree [] (t.cleared wipe) (t'.cleared wipe') where
  index := rfl
  free := rfl
  oldest := rfl
  capacity := by rw [capacity_cleared, capacity_cleared, h]
  linked i hi := by cases hi
  vacant i hi := by cases hi

end Agree

/-! ### Steps -/

/-- Computation `x` ends well on the tidy table `t`, and `y` does the same on every table that
    agrees with `t`. -/
def Mirrored {α : Type} (t : Table K V) (ring : List Nat) (x y : TableM K V α) : Prop :=
  ∃ a u ring', x t = .ok a u ∧ u.IsTidy ring' ∧
    ∀ t', Agree ring t t' → ∃ u', y t' = .ok a u' ∧ Agree ring' u u'

namespace Mirrored

/-- What is worked out from an answer is the same, too. -/
theorem bind_pure {α β : Type} {x y : TableM K V α} (h : Mirrored t ring x y) (f : α → β) :
    Mirrored t ring (x >>= fun a => pure (f a)) (y >>= fun a => pure (f a)) := by
  obtain ⟨a, u, ring', hrun, htidy, hall⟩ := h
  refine ⟨f a, u, ring', bind_of_ok hrun _, htidy, fun t' hagree => ?_⟩
  obtain ⟨u', hrun', hagree'⟩ := hall t' hagree
  exact ⟨u', bind_of_ok hrun' _, hagree'⟩

/-- A question has the same answer if the answer depends on the ring, the index and the entries. -/
theorem reading (h : t.IsTidy ring) {α : Type} {f : Table K V → Except Fault α} {a : α}
    (hf : ∀ t', Agree ring t t' → f t' = .ok a) :
    Mirrored t ring (reading f) (reading f) := by
  have hself := hf t (.of_relinked h.isSound h.isSound (.refl [] t) (.refl [] t) rfl rfl rfl
    fun _ _ => rfl)
  exact ⟨a, t, ring, reading_of_ok hself, h,
    fun t' hagree => ⟨t', reading_of_ok (hf t' hagree), hagree⟩⟩

theorem clear (h : t.IsTidy ring) (wipe wipe' : Bool) :
    Mirrored t ring (modify (cleared wipe)) (modify (cleared wipe')) :=
  ⟨⟨⟩, _, [], rfl, isTidy_cleared h.room wipe,
    fun _ hagree => ⟨_, rfl, .cleared hagree.capacity wipe wipe'⟩⟩

variable [EquivBEq K]

theorem lookup (h : t.IsTidy ring) (k : K) :
    Mirrored t ring (Table.lookup k) (Table.lookup k) := by
  rcases h.lookup_cases k with
    ⟨hk, hrun⟩ | ⟨p, i, q, e, u, rfl, he, hk, hrun, htidy, hframe⟩
  · refine ⟨none, t, ring, hrun, h, fun t' hagree => ?_⟩
    exact ⟨t', lookup_none (hagree.index ▸ hk), hagree⟩
  · refine ⟨_, u, _, hrun, htidy, fun t' hagree => ?_⟩
    have he' := (hagree.entryAt (mem_cut p i q)).trans he
    obtain ⟨u', hrun', hsound', hframe'⟩ := lookup_some (hagree.isSound h.isSound) he' hk
    refine ⟨u', hrun', .of_relinked htidy.isSound hsound' hframe hframe' hagree.index hagree.free
      hagree.capacity ?_⟩
    intro j hj
    exact hagree.entryAt ((perm_promoted p i q).mem_iff.mp hj)

theorem insert (h : t.IsTidy ring) (k : K) (v : V) :
    Mirrored t ring (Table.insert k v) (Table.insert k v) := by
  rcases h.insert_cases k v with
    ⟨p, i, q, e, u, rfl, he, hk, hrun, htidy, hframe⟩ |
    ⟨i, q, e, u, rfl, he, hk, hfull, hrun, htidy, hframe⟩ |
    ⟨u, hk, hroom, hout, hrun, htidy, hframe⟩
  · -- An update writes to a slot of the ring.
    refine ⟨_, u, _, hrun, htidy, fun t' hagree => ?_⟩
    have hi := mem_cut p i q
    have he' := (hagree.entryAt hi).trans he
    obtain ⟨u', hrun', hsound', hframe'⟩ := insert_update (hagree.isSound h.isSound) he' hk v
    refine ⟨u', hrun', .of_relinked htidy.isSound hsound' hframe hframe' hagree.index hagree.free
      ?_ fun j hj => ?_⟩
    · rw [capacity_putEntry, capacity_putEntry, hagree.capacity]
    · have hjr := (perm_promoted p i q).mem_iff.mp hj
      exact hagree.entryAt_putEntry (h.lt_capacity hi) (.inr hjr) _
  · -- An eviction writes to the slot at which both rings start.
    refine ⟨_, u, _, hrun, htidy, fun t' hagree => ?_⟩
    have hi : i ∈ i :: q := List.mem_cons_self
    have he' := (hagree.entryAt hi).trans he
    have hfull' : t'.capacity ≤ t'.size := by
      rw [hagree.capacity, hagree.size_eq]
      exact hfull
    obtain ⟨u', hrun', hsound', hframe'⟩ :=
      insert_evict (hagree.isSound h.isSound) he' (hagree.index ▸ hk) hfull' v
    refine ⟨u', hrun', .of_relinked htidy.isSound hsound' hframe hframe' ?_ hagree.free
      ?_ fun j hj => ?_⟩
    · rw [index_displaced, index_displaced, hagree.index]
    · rw [capacity_displaced, capacity_displaced, hagree.capacity]
    · have hjr := (perm_promoted [] i q).mem_iff.mp hj
      exact hagree.entryAt_putEntry (h.lt_capacity hi) (.inr hjr) _
  · -- A new entry's slot may hold anything in the other table. It is written before it is linked.
    refine ⟨_, u, _, hrun, htidy, fun t' hagree => ?_⟩
    have hnew := hagree.newSlot_eq
    have hroom' : t'.size < t'.capacity := by
      rw [hagree.capacity, hagree.size_eq]
      exact hroom
    obtain ⟨u', hrun', hsound', hframe'⟩ :=
      insert_new (hagree.isSound h.isSound) (hagree.index ▸ hk) hroom' (hnew.symm ▸ hout) v
    rw [hnew] at hsound'
    refine ⟨u', hrun', .of_relinked htidy.isSound hsound' hframe hframe' ?_ ?_ ?_ fun j hj => ?_⟩
    · rw [index_stocked, index_stocked, hagree.index, hnew]
    · exact congrArg List.tail hagree.free
    · rw [capacity_stocked, capacity_stocked, hagree.capacity]
    · have hlt := h.isPacked.stocked.newSlot_lt hroom
      have hjr : j = t.newSlot ∨ j ∈ ring := by simpa [or_comm] using hj
      unfold stocked
      rw [hnew]
      exact hagree.entryAt_putEntry hlt hjr _

theorem remove (h : t.IsTidy ring) (k : K) :
    Mirrored t ring (Table.remove k) (Table.remove k) := by
  rcases h.remove_cases k with
    ⟨hk, hrun⟩ | ⟨p, i, q, e, u, rfl, he, hk, hrun, htidy, hframe⟩
  · refine ⟨none, t, ring, hrun, h, fun t' hagree => ?_⟩
    exact ⟨t', remove_none (hagree.index ▸ hk), hagree⟩
  · refine ⟨_, u, _, hrun, htidy, fun t' hagree => ?_⟩
    have hi := mem_cut p i q
    have he' := (hagree.entryAt hi).trans he
    obtain ⟨u', hrun', hsound', hframe'⟩ := remove_some (hagree.isSound h.isSound) he' hk
    refine ⟨u', hrun', .of_relinked htidy.isSound hsound' hframe hframe' ?_ ?_ ?_ fun j hj => ?_⟩
    · rw [index_vacated, index_vacated, hagree.index]
    · exact congrArg (i :: ·) hagree.free
    · rw [capacity_vacated, capacity_vacated, hagree.capacity]
    · have hjr := (other_of_nodup h.isRing.nodup hj).2
      exact hagree.entryAt_putEntry (h.lt_capacity hi) (.inr hjr) none

/-- Tables that agree answer a request alike and agree afterwards, whether or not the one or the
    other is wiped when it is cleared. -/
theorem handle (h : t.IsTidy ring) (wipe wipe' : Bool) (r : Request K V) :
    Mirrored t ring (@Table.handle K V _ ⟨wipe⟩ r) (@Table.handle K V _ ⟨wipe'⟩ r) := by
  cases r with
  | insert k v => exact (insert h k v).bind_pure _
  | lookup k => exact (lookup h k).bind_pure _
  | remove k => exact (remove h k).bind_pure _
  | contains k =>
    refine ⟨_, t, ring, rfl, h, fun t' hagree => ⟨t', ?_, hagree⟩⟩
    have hsame : t'.contains k = t.contains k := congrArg (·.contains k) hagree.index
    rw [← hsame]
    rfl
  | size =>
    refine ⟨_, t, ring, rfl, h, fun t' hagree => ⟨t', ?_, hagree⟩⟩
    rw [← hagree.size_eq]
    rfl
  | clear => exact (clear h wipe wipe').bind_pure _
  | keys =>
    refine (reading h (a := (t.contents ring).map (·.key)) fun t' hagree => ?_).bind_pure _
    have hsame : t'.contents ring = t.contents ring := contents_congr fun i hi => hagree.entryAt hi
    rw [keysByRecency_of_isSound (hagree.isSound h.isSound), hsame]
  | verify =>
    refine (reading h (a := .sound) fun t' hagree => ?_).bind_pure _
    exact verify_of_isSound (hagree.isSound h.isSound)

/-- Tables that agree answer a history alike and agree after it. -/
theorem run (h : t.IsTidy ring) (wipe wipe' : Bool) (rs : List (Request K V)) :
    Mirrored t ring (@Table.run K V _ ⟨wipe⟩ rs) (@Table.run K V _ ⟨wipe'⟩ rs) := by
  -- On the requests: after each one the tables agree about a ring of their own.
  induction rs generalizing t ring with
  | nil => exact ⟨[], t, ring, rfl, h, fun t' hagree => ⟨t', rfl, hagree⟩⟩
  | cons r rs ih =>
    obtain ⟨a, u, ring₁, hrun, htidy, hall⟩ := handle h wipe wipe' r
    obtain ⟨as, w, ring₂, hruns, htidy₂, halls⟩ := ih htidy
    refine ⟨a :: as, w, ring₂, @run_cons _ _ _ ⟨wipe⟩ _ _ _ _ _ _ _ hrun hruns, htidy₂,
      fun t' hagree => ?_⟩
    obtain ⟨u', hrun', hagree'⟩ := hall t' hagree
    obtain ⟨w', hruns', hagree''⟩ := halls u' hagree'
    exact ⟨w', @run_cons _ _ _ ⟨wipe'⟩ _ _ _ _ _ _ _ hrun' hruns', hagree''⟩

end Mirrored

/-! ### Clearing -/

/-- Serves a history with slots that are emptied at every clearing, or at none. -/
def serve (wipe : Bool) (rs : List (Request K V)) : TableM K V (List (Response K V)) :=
  @run K V _ ⟨wipe⟩ rs

/-- Any table, cleared in either way, answers every history as a new table of its size does. Both
    pass the check afterwards, and differ at most in slots that are not in use. -/
theorem serve_after_clear [EquivBEq K] (t : Table K V) (hcap : 1 ≤ t.capacity) :
    ∃ t₀, (∀ indexSize ≤ Index.maxSize, ofSizes t.capacity indexSize = .ok t₀) ∧
      ∀ wipe₀ rs, ∃ answers u, serve wipe₀ rs t₀ = .ok answers u ∧ u.verify = .ok .sound ∧
        u.IsSound u.linked ∧
        ∀ wipe wipe', ∃ t₁ u', serve wipe [.clear] t = .ok [.done] t₁ ∧
          serve wipe' rs t₁ = .ok answers u' ∧ u'.verify = .ok .sound ∧ Agree u.linked u u' := by
  have hnew := isTidy_fresh (K := K) (V := V) hcap
  refine ⟨fresh t.capacity, fun _ hsize => ofSizes_eq hcap hsize, fun wipe₀ rs => ?_⟩
  obtain ⟨answers, u, ring, hrun, htidy, -⟩ := Mirrored.run hnew wipe₀ wipe₀ rs
  have hsound := htidy.isSound
  refine ⟨answers, u, hrun, verify_of_isSound hsound, hsound.linked_eq.symm ▸ hsound, ?_⟩
  intro wipe wipe'
  obtain ⟨answers', v, ring', hrun', htidy', hall⟩ := Mirrored.run hnew wipe₀ wipe' rs
  obtain ⟨rfl, rfl⟩ : answers' = answers ∧ v = u := by
    rw [hrun] at hrun'
    cases hrun'
    exact ⟨rfl, rfl⟩
  -- A new table is one of the right size that has just been cleared.
  have hagree : Agree [] (fresh t.capacity) (t.cleared wipe) :=
    .cleared (t := fresh t.capacity) Array.size_replicate.symm false wipe
  obtain ⟨u', hruns, hagree'⟩ := hall _ hagree
  refine ⟨t.cleared wipe, u', rfl, hruns, ?_, htidy'.isSound.linked_eq.symm ▸ hagree'⟩
  exact verify_of_isSound (hagree'.isSound htidy'.isSound)

/-- Every link of this table leads out of range, and so does the index. -/
theorem serve_after_clear_damaged :
    ∃ t t₀ : Table Nat Nat, ∃ rs,
      t = ⟨#[⟨some ⟨5, 50⟩, 7, 9⟩, ⟨none, 8, 8⟩], Index.empty.insert 3 6, [4, 4], some 6⟩ ∧
      rs = [.insert 1 10, .insert 2 20, .insert 3 30, .clear, .lookup 3] ∧
      1 ≤ t.capacity ∧ (∃ d, t.verify = .ok (.damaged d)) ∧ ofSizes 2 1 = .ok t₀ ∧
      ∃ answers u, serve true rs t₀ = .ok answers u ∧
        ∃ t₁ u', serve false [.clear] t = .ok [.done] t₁ ∧ serve false rs t₁ = .ok answers u' ∧
          Agree u.linked u u' := by
  obtain ⟨t₀, hnew, hall⟩ := serve_after_clear
    (⟨#[⟨some ⟨5, 50⟩, 7, 9⟩, ⟨none, 8, 8⟩], Index.empty.insert 3 6, [4, 4], some 6⟩ :
      Table Nat Nat) (by decide)
  obtain ⟨answers, u, hrun, -, -, hall⟩ :=
    hall true [.insert 1 10, .insert 2 20, .insert 3 30, .clear, .lookup 3]
  obtain ⟨t₁, u', hclear, hruns, -, hagree⟩ := hall false false
  exact ⟨_, t₀, _, rfl, rfl, by decide, ⟨_, rfl⟩, hnew 1 (by decide), answers, u, hrun, t₁, u',
    hclear, hruns, hagree⟩

end RecencyCache.Table
