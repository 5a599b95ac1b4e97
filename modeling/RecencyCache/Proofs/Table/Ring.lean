import Mathlib.Data.List.Cycle
import RecencyCache.Proofs.Table.Access

/-! # The ring under relinking

  `unlink`, `linkYoungest` and `rejuvenate` on a table whose ring runs
  through a list of slots: they never fault, and the list they leave is the
  old one without the slot, or with the slot at its end.

  - **Cycle**: the links make a `Cycle`, of which it does not matter where it
    is cut (`isRing_iff`). Taking out slot `i` is read off the cycle that is
    cut at `i` (`IsRing.cut`).
  - **Frame**: what else may have changed is said once, by `Relinked`. Entries,
    index and free stack stay, and so does every slot but those at the two
    places where the ring was cut or joined (`ends`).
-/

namespace RecencyCache.Table

variable {K V : Type} [BEq K]

/-! ### Frame -/

/-- The tables differ at most in the links of some slots and in the start of the ring. -/
structure Relinked (touched : List Nat) (t t' : Table K V) : Prop where
  /-- The index is the same. -/
  index : t'.index = t.index
  /-- The free stack is the same. -/
  free : t'.free = t.free
  /-- There are as many slots. -/
  capacity : t'.capacity = t.capacity
  /-- Every slot holds what it held. -/
  entryAt : ∀ i, t'.entryAt i = t.entryAt i
  /-- The other slots keep their links too. -/
  slots : ∀ i, i ∉ touched → t'.slots[i]? = t.slots[i]?

namespace Relinked

theorem refl (touched : List Nat) (t : Table K V) : Relinked touched t t :=
  ⟨rfl, rfl, rfl, fun _ => rfl, fun _ _ => rfl⟩

theorem trans {a b : List Nat} {t₁ t₂ t₃ : Table K V} (h : Relinked a t₁ t₂)
    (h' : Relinked b t₂ t₃) : Relinked (a ++ b) t₁ t₃ where
  index := h'.index.trans h.index
  free := h'.free.trans h.free
  capacity := h'.capacity.trans h.capacity
  entryAt i := (h'.entryAt i).trans (h.entryAt i)
  slots i hi := by
    rw [List.mem_append, not_or] at hi
    exact (h'.slots i hi.2).trans (h.slots i hi.1)

theorem mono {a b : List Nat} {t t' : Table K V} (h : Relinked a t t') (hab : a ⊆ b) :
    Relinked b t t' :=
  { h with slots := fun i hi => h.slots i fun hia => hi (hab hia) }

theorem holds_iff {touched : List Nat} {t t' : Table K V} (h : Relinked touched t t') (i : Nat)
    (e : Entry K V) : t'.Holds i e ↔ t.Holds i e := by
  rw [Table.holds_iff, Table.holds_iff, h.entryAt]

theorem vacant_iff {touched : List Nat} {t t' : Table K V} (h : Relinked touched t t') (i : Nat) :
    t'.Vacant i ↔ t.Vacant i := by
  rw [Table.vacant_iff, Table.vacant_iff, h.capacity, h.entryAt]

theorem putNext (t : Table K V) (i n : Nat) : Relinked [i] t (t.putNext i n) where
  index := rfl
  free := rfl
  capacity := capacity_putNext t i n
  entryAt := entryAt_putNext t i n
  slots _ hj := slots_modify_ne t (List.ne_of_not_mem_cons hj) _

theorem putPrev (t : Table K V) (i p : Nat) : Relinked [i] t (t.putPrev i p) where
  index := rfl
  free := rfl
  capacity := capacity_putPrev t i p
  entryAt := entryAt_putPrev t i p
  slots _ hj := slots_modify_ne t (List.ne_of_not_mem_cons hj) _

theorem putOldest (t : Table K V) (o : Option Nat) : Relinked [] t (t.putOldest o) :=
  ⟨rfl, rfl, rfl, fun _ => rfl, fun _ _ => rfl⟩

end Relinked

/-! ### Rings as cycles -/

/-- Both ways to turn a list are the same. -/
theorem rotateLeft_eq_rotate (l : List Nat) (n : Nat) : l.rotateLeft n = l.rotate n := by
  match l with
  | [] => exact (List.rotate_nil n).symm
  | [a] => exact (List.rotate_singleton a n).symm
  | a :: b :: l =>
    rw [List.rotate_eq_drop_append_take_mod]
    rfl

/-- A relation between neighbours in a list that is closed to a ring, as one on a cycle. -/
theorem forall_zip_rotateLeft_iff (R : Nat → Nat → Prop) (ring : List Nat) :
    (∀ p ∈ ring.zip (ring.rotateLeft 1), R p.1 p.2) ↔ Cycle.Chain R ring := by
  cases ring with
  | nil => simp
  | cons a l =>
    -- Both sides compare the list with itself, turned by one.
    rw [rotateLeft_eq_rotate, List.rotate_cons_succ, List.rotate_zero, Cycle.chain_coe_cons,
      ← List.cons_append, List.isChain_cons_append_singleton_iff_forall₂, List.forall₂_iff_zip]
    constructor
    · intro h
      exact ⟨by simp, fun hab => h _ hab⟩
    · intro h p hp
      exact h.2 hp

/-- The ring runs through a list: no slot twice, the oldest first, and the links make a cycle. -/
theorem isRing_iff (t : Table K V) (ring : List Nat) :
    t.IsRing ring ↔ ring.Nodup ∧ t.oldest = ring.head? ∧ Cycle.Chain t.Adjacent ring := by
  rw [← forall_zip_rotateLeft_iff]
  exact ⟨fun h => ⟨h.nodup, h.oldest, h.adjacent⟩, fun h => ⟨h.1, h.2.1, h.2.2⟩⟩

/-- A cycle cut at one of its members is a path that begins and ends next to it. -/
theorem chain_cons_iff (R : Nat → Nat → Prop) (i : Nat) {l : List Nat} (hl : l ≠ []) :
    Cycle.Chain R (i :: l : List Nat) ↔ R i (l.head hl) ∧ l.IsChain R ∧ R (l.getLast hl) i := by
  rw [Cycle.chain_coe_cons, List.isChain_cons, List.isChain_append]
  cases l with
  | nil => exact absurd rfl hl
  | cons a l => simp [List.getLast?_eq_some_getLast]

/-- A cycle is a path whose last member is next to its first. -/
theorem chain_iff (R : Nat → Nat → Prop) {l : List Nat} (hl : l ≠ []) :
    Cycle.Chain R l ↔ l.IsChain R ∧ R (l.getLast hl) (l.head hl) := by
  rw [Cycle.chain_ne_nil R hl, List.isChain_cons]
  cases l with
  | nil => exact absurd rfl hl
  | cons a l => simp [and_comm]

/-- Where a cycle is cut does not matter. -/
theorem chain_append_comm (R : Nat → Nat → Prop) (p q : List Nat) :
    Cycle.Chain R (p ++ q : List Nat) ↔ Cycle.Chain R (q ++ p : List Nat) := by
  rw [Cycle.coe_eq_coe.mpr List.isRotated_append]

/-- A path stays a path if every slot but the last keeps its forward link and every slot but
    the first its backward link. -/
theorem isChain_congr {t t' : Table K V} {l : List Nat} (h : l.IsChain t.Adjacent)
    (hn : ∀ a ∈ l.dropLast, t'.nextAt a = t.nextAt a)
    (hp : ∀ b ∈ l.tail, t'.prevAt b = t.prevAt b) : l.IsChain t'.Adjacent := by
  rw [List.isChain_iff_forall₂, List.forall₂_iff_zip] at *
  refine ⟨h.1, ?_⟩
  intro a b hab
  -- The first of two neighbours is not the last slot, the second is not the first one.
  obtain ⟨hnext, hprev⟩ := (adjacent_iff t a b).mp (h.2 hab)
  rw [adjacent_iff, hn a (List.of_mem_zip hab).1, hp b (List.of_mem_zip hab).2]
  exact ⟨hnext, hprev⟩

/-- The last member of a list without repetition comes only once. -/
theorem getLast_notMem_dropLast {l : List Nat} (hnd : l.Nodup) (hl : l ≠ []) :
    l.getLast hl ∉ l.dropLast := by
  rw [← List.dropLast_concat_getLast hl, List.nodup_append] at hnd
  exact fun hmem => hnd.2.2 _ hmem _ (List.mem_singleton.mpr rfl) rfl

/-- The first member of a list without repetition comes only once. -/
theorem head_notMem_tail {l : List Nat} (hnd : l.Nodup) (hl : l ≠ []) : l.head hl ∉ l.tail := by
  rw [← List.cons_head_tail hl, List.nodup_cons] at hnd
  exact hnd.1

/-- There are at most as many different slots as there are numbers for them. -/
theorem length_le_of_nodup {l : List Nat} {n : Nat} (hnd : l.Nodup) (hl : ∀ i ∈ l, i < n) :
    l.length ≤ n := by
  have hsub : l ⊆ List.range n := fun i hi => List.mem_range.mpr (hl i hi)
  simpa using (List.subperm_of_subset hnd hsub).length_le

/-- What is left of a list without one of its members is different from that member. -/
theorem other_of_nodup {p q : List Nat} {i j : Nat} (hnd : (p ++ i :: q).Nodup)
    (hj : j ∈ p ++ q) : j ≠ i ∧ j ∈ p ++ i :: q := by
  have hout := (List.nodup_cons.mp (List.perm_middle.nodup_iff.mp hnd)).1
  exact ⟨fun heq => hout (heq ▸ hj), List.perm_middle.mem_iff.mpr (List.mem_cons_of_mem i hj)⟩

/-- The first and the last slot of a list, where a ring is closed. -/
def ends (l : List Nat) : List Nat := l.head?.toList ++ l.getLast?.toList

theorem head_mem_ends {l : List Nat} (hl : l ≠ []) : l.head hl ∈ ends l := by
  unfold ends
  rw [List.head?_eq_some_head hl]
  exact List.mem_cons_self

theorem getLast_mem_ends {l : List Nat} (hl : l ≠ []) : l.getLast hl ∈ ends l := by
  unfold ends
  rw [List.getLast?_eq_some_getLast hl]
  exact List.mem_append_right _ List.mem_cons_self

theorem ends_subset (l : List Nat) : ends l ⊆ l := by
  intro i hi
  rcases List.mem_append.mp hi with hi | hi
  · exact List.mem_of_head? (Option.mem_toList.mp hi)
  · exact List.mem_of_getLast? (Option.mem_toList.mp hi)

/-! ### Taking a slot out -/

/-- Unlinking a slot that is alone leaves no ring. -/
theorem unlink_sole {t : Table K V} {i p : Nat} (ho : t.oldest = some i)
    (hn : t.nextAt i = some i) (hp : t.prevAt i = some p) :
    unlink i t = .ok () (t.putOldest none) := by
  unfold unlink
  rw [get_bind, ho]
  dsimp only
  rw [bind_of_ok (reading_of_ok (slot_of_views hn hp)), if_pos rfl, if_pos rfl]
  exact setOldest_run t none

/-- Unlinking any other slot joins its neighbours, and moves the start of the ring on if the
    slot was the start. -/
theorem unlink_linked {t : Table K V} {i n p o : Nat} (ho : t.oldest = some o)
    (hn : t.nextAt i = some n) (hp : t.prevAt i = some p) (hne : n ≠ i) (hnt : n < t.capacity)
    (hpt : p < t.capacity) :
    unlink i t =
      .ok () (((t.putPrev n p).putNext p n).putOldest (some (if o = i then n else o))) := by
  unfold unlink
  rw [get_bind, ho]
  dsimp only
  rw [bind_of_ok (reading_of_ok (slot_of_views hn hp)), if_neg hne,
    bind_of_ok (setPrev_of_lt hnt p),
    bind_of_ok (setNext_of_lt (by rw [capacity_putPrev]; exact hpt) n)]
  by_cases hoi : o = i
  · rw [if_pos hoi, if_pos hoi]
    exact setOldest_run _ _
  · rw [if_neg hoi, if_neg hoi, ← ho]
    rfl

/-- On any table, whatever its links are, `unlink` does one of the two if it does not fault. -/
theorem unlink_cases {t t' : Table K V} {i : Nat} (h : unlink i t = .ok () t') :
    (t.oldest = some i ∧ t.nextAt i = some i ∧ t' = t.putOldest none) ∨
      ∃ n p o, t.oldest = some o ∧ t.nextAt i = some n ∧ t.prevAt i = some p ∧ n ≠ i ∧
        n < t.capacity ∧ p < t.capacity ∧
        t' = ((t.putPrev n p).putNext p n).putOldest (some (if o = i then n else o)) := by
  have hrun := h
  unfold unlink at h
  rw [get_bind] at h
  cases ho : t.oldest with
  | none =>
    rw [ho] at h
    cases h
  | some o =>
    rw [ho] at h
    obtain ⟨s, t₁, hread, hrest⟩ := steps_of_bind h
    obtain ⟨rfl, hs⟩ := ok_of_reading hread
    obtain ⟨hn, hp, -⟩ := views_of_slot hs
    by_cases hloop : s.next = i
    · rw [if_pos hloop] at hrest
      by_cases hoi : o = i
      · rw [if_pos hoi] at hrest
        cases hrest
        exact .inl ⟨congrArg some hoi, hloop ▸ hn, rfl⟩
      · rw [if_neg hoi] at hrest
        cases hrest
    · -- Both writes were in range, and with that the run is known.
      rw [if_neg hloop] at hrest
      obtain ⟨_, t₂, hprev, hrest⟩ := steps_of_bind hrest
      obtain ⟨_, t₃, hnext, -⟩ := steps_of_bind hrest
      obtain ⟨hnt, rfl⟩ := modifySlot_cases hprev
      obtain ⟨hpt, -⟩ := modifySlot_cases hnext
      rw [capacity_modify] at hpt
      rw [unlink_linked ho hn hp hloop hnt hpt] at hrun
      cases hrun
      exact .inr ⟨s.next, s.prev, o, rfl, hn, hp, hloop, hnt, hpt, rfl⟩

/-- A path becomes a cycle once its ends are neighbours. -/
theorem chain_join {t : Table K V} {l : List Nat} (hl : l ≠ []) (hnd : l.Nodup)
    (hpath : l.IsChain t.Adjacent) (hhead : l.head hl < t.capacity)
    (hlast : l.getLast hl < t.capacity) :
    Cycle.Chain ((t.putPrev (l.head hl) (l.getLast hl)).putNext
      (l.getLast hl) (l.head hl)).Adjacent l := by
  rw [chain_iff _ hl]
  constructor
  · apply isChain_congr hpath
    · intro a ha
      have hay : a ≠ l.getLast hl := fun h => getLast_notMem_dropLast hnd hl (h ▸ ha)
      rw [nextAt_putNext_ne _ hay, nextAt_putPrev]
    · intro b hb
      have hbx : b ≠ l.head hl := fun h => head_notMem_tail hnd hl (h ▸ hb)
      rw [prevAt_putNext, prevAt_putPrev_ne t hbx]
  · rw [adjacent_iff, prevAt_putNext, prevAt_putPrev_self hhead]
    exact ⟨nextAt_putNext_self (by rw [capacity_putPrev]; exact hlast) _, rfl⟩

/-- Where a list starts after one member has left it. -/
theorem head?_without {p q : List Nat} {i o : Nat} (hi : i ∉ q ++ p) (hl : q ++ p ≠ [])
    (ho : (p ++ i :: q).head? = some o) :
    (p ++ q).head? = some (if o = i then (q ++ p).head hl else o) := by
  cases p with
  | nil =>
    have hoi : o = i := (Option.some.inj ho).symm
    rw [if_pos hoi, List.nil_append]
    simp only [List.append_nil] at hl ⊢
    exact List.head?_eq_some_head hl
  | cons a p =>
    have hoa : a = o := Option.some.inj ho
    have hoi : o ≠ i := fun h => hi (by simp [← h, ← hoa])
    rw [if_neg hoi, ← hoa]
    rfl

/-- The ring cut at slot `i`. Either the slot is alone and its own neighbour, or the others are a
    path that begins and ends next to it. -/
theorem IsRing.cut {t : Table K V} {i : Nat} {p q : List Nat} (h : t.IsRing (p ++ i :: q)) :
    i ∉ q ++ p ∧ (q ++ p).Nodup ∧
      ((p = [] ∧ q = [] ∧ t.nextAt i = some i ∧ t.prevAt i = some i) ∨
        ∃ hl : q ++ p ≠ [], (q ++ p).IsChain t.Adjacent ∧
          t.nextAt i = some ((q ++ p).head hl) ∧ t.prevAt i = some ((q ++ p).getLast hl) ∧
          (q ++ p).head hl < t.capacity ∧ (q ++ p).getLast hl < t.capacity) := by
  obtain ⟨hnd, -, hc⟩ := (isRing_iff t _).mp h
  -- Turning the cycle brings slot `i` to the front, where the chain lemmas can see it.
  have hcut : Cycle.Chain t.Adjacent (i :: (q ++ p) : List Nat) :=
    (chain_append_comm t.Adjacent p (i :: q)).mp hc
  have hperm : (p ++ i :: q).Perm (i :: (q ++ p)) := List.perm_append_comm
  obtain ⟨hi, hndl⟩ := List.nodup_cons.mp (hperm.nodup_iff.mp hnd)
  refine ⟨hi, hndl, ?_⟩
  by_cases hl : q ++ p = []
  · obtain ⟨rfl, rfl⟩ := List.append_eq_nil_iff.mp hl
    obtain ⟨hn, hp⟩ := (adjacent_iff t i i).mp ((Cycle.chain_singleton _ i).mp hcut)
    exact .inl ⟨rfl, rfl, hn, hp⟩
  · obtain ⟨hfirst, hpath, hlast⟩ := (chain_cons_iff _ i hl).mp hcut
    obtain ⟨hn, hback⟩ := (adjacent_iff t i _).mp hfirst
    obtain ⟨hforth, hp⟩ := (adjacent_iff t _ i).mp hlast
    exact .inr ⟨hl, hpath, hn, hp, lt_capacity_of_prevAt hback, lt_capacity_of_nextAt hforth⟩

/-- A slot of the ring is unlinked without a fault, and the ring closes behind it. -/
theorem unlink_isRing {t : Table K V} {i : Nat} {p q : List Nat} (h : t.IsRing (p ++ i :: q)) :
    ∃ t', unlink i t = .ok () t' ∧ t'.IsRing (p ++ q) ∧ Relinked (ends (q ++ p)) t t' := by
  obtain ⟨hi, hndl, hcases⟩ := h.cut
  rcases hcases with ⟨rfl, rfl, hn, hp⟩ | ⟨hl, hpath, hn, hp, hnt, hpt⟩
  · refine ⟨t.putOldest none, unlink_sole h.oldest hn hp, ?_, Relinked.putOldest t none⟩
    rw [isRing_iff]
    exact ⟨.nil, rfl, Cycle.Chain.nil _⟩
  · have hne : (q ++ p).head hl ≠ i := by
      intro heq
      exact hi (heq ▸ List.head_mem hl)
    obtain ⟨o, hhead⟩ : ∃ o, (p ++ i :: q).head? = some o := by
      cases p <;> exact ⟨_, rfl⟩
    refine ⟨_, unlink_linked (h.oldest.trans hhead) hn hp hne hnt hpt, ?_, ?_⟩
    · rw [isRing_iff, chain_append_comm]
      have hswap : (p ++ q).Perm (q ++ p) := List.perm_append_comm
      exact ⟨hswap.nodup_iff.mpr hndl, (head?_without hi hl hhead).symm,
        chain_join hl hndl hpath hnt hpt⟩
    · -- Only the two slots that were next to `i` have got another link.
      refine (((Relinked.putPrev t _ _).trans (Relinked.putNext _ _ _)).trans
        (Relinked.putOldest _ _)).mono ?_
      simp [head_mem_ends, getLast_mem_ends]

/-! ### Putting a slot in -/

/-- In an empty ring the new slot is its own neighbour. -/
theorem linkYoungest_first {t : Table K V} {i : Nat} (ho : t.oldest = none)
    (hi : i < t.capacity) :
    linkYoungest i t = .ok () (((t.putNext i i).putPrev i i).putOldest (some i)) := by
  unfold linkYoungest
  rw [get_bind, ho]
  dsimp only
  rw [bind_of_ok (setNext_of_lt hi i),
    bind_of_ok (setPrev_of_lt (by rw [capacity_putNext]; exact hi) i)]
  exact setOldest_run _ _

/-- In any other ring it comes between the youngest slot and the oldest. -/
theorem linkYoungest_between {t : Table K V} {i o y : Nat} (ho : t.oldest = some o)
    (hy : t.prevAt o = some y) (hi : i < t.capacity) (hyt : y < t.capacity) :
    linkYoungest i t =
      .ok () ((((t.putNext i o).putPrev i y).putNext y i).putPrev o i) := by
  have hot := lt_capacity_of_prevAt hy
  obtain ⟨n, hn⟩ := exists_nextAt hot
  unfold linkYoungest
  rw [get_bind, ho]
  dsimp only
  rw [bind_of_ok (reading_of_ok (slot_of_views hn hy)), bind_of_ok (setNext_of_lt hi o),
    bind_of_ok (setPrev_of_lt (by simpa using hi) y),
    bind_of_ok (setNext_of_lt (by simpa using hyt) i)]
  exact setPrev_of_lt (by simpa using hot) i

/-- On a ring no link is missing that it needs, so it runs for every slot in range. Unless the slot
    is outside the ring, the links that it leaves need not make a ring. -/
theorem exists_linkYoungest {t : Table K V} {i : Nat} {ring : List Nat} (h : t.IsRing ring)
    (hit : i < t.capacity) : ∃ t', linkYoungest i t = .ok () t' ∧ t'.index = t.index := by
  obtain ⟨-, ho, hc⟩ := (isRing_iff t _).mp h
  by_cases hl : ring = []
  · subst hl
    exact ⟨_, linkYoungest_first ho hit, rfl⟩
  · obtain ⟨-, hclose⟩ := (chain_iff _ hl).mp hc
    obtain ⟨hn, hp⟩ := (adjacent_iff t _ _).mp hclose
    have hhead := ho.trans (List.head?_eq_some_head hl)
    exact ⟨_, linkYoungest_between hhead hp hit (lt_capacity_of_nextAt hn), rfl⟩

/-- A path becomes a cycle with one more member once its ends are neighbours of that one. -/
theorem chain_insert {t : Table K V} {l : List Nat} {i : Nat} (hl : l ≠ []) (hnd : l.Nodup)
    (hi : i ∉ l) (hpath : l.IsChain t.Adjacent) (hit : i < t.capacity)
    (hhead : l.head hl < t.capacity) (hlast : l.getLast hl < t.capacity) :
    Cycle.Chain ((((t.putNext i (l.head hl)).putPrev i (l.getLast hl)).putNext
      (l.getLast hl) i).putPrev (l.head hl) i).Adjacent (l ++ [i] : List Nat) := by
  have hih : i ≠ l.head hl := fun h => hi (h ▸ List.head_mem hl)
  have hil : i ≠ l.getLast hl := fun h => hi (h ▸ List.getLast_mem hl)
  rw [chain_append_comm, List.singleton_append, chain_cons_iff _ i hl]
  refine ⟨?_, ?_, ?_⟩
  · -- From `i` to the oldest slot.
    rw [adjacent_iff, nextAt_putPrev, nextAt_putNext_ne _ hil, nextAt_putPrev,
      nextAt_putNext_self hit]
    exact ⟨rfl, prevAt_putPrev_self (by simpa using hhead) i⟩
  · -- Along the path no link changes that it uses.
    apply isChain_congr hpath
    · intro a ha
      have hai : a ≠ i := fun h => hi (h ▸ List.mem_of_mem_dropLast ha)
      have hay : a ≠ l.getLast hl := fun h => getLast_notMem_dropLast hnd hl (h ▸ ha)
      rw [nextAt_putPrev, nextAt_putNext_ne _ hay, nextAt_putPrev, nextAt_putNext_ne _ hai]
    · intro b hb
      have hbi : b ≠ i := fun h => hi (h ▸ List.mem_of_mem_tail hb)
      have hbx : b ≠ l.head hl := fun h => head_notMem_tail hnd hl (h ▸ hb)
      rw [prevAt_putPrev_ne _ hbx, prevAt_putNext, prevAt_putPrev_ne _ hbi, prevAt_putNext]
  · -- From the youngest slot to `i`.
    rw [adjacent_iff, nextAt_putPrev, nextAt_putNext_self (by simpa using hlast),
      prevAt_putPrev_ne _ hih, prevAt_putNext, prevAt_putPrev_self (by simpa using hit)]
    exact ⟨rfl, rfl⟩

/-- A slot in range that is not in the ring is linked without a fault, as the youngest. -/
theorem linkYoungest_isRing {t : Table K V} {i : Nat} {ring : List Nat} (h : t.IsRing ring)
    (hi : i ∉ ring) (hit : i < t.capacity) :
    ∃ t', linkYoungest i t = .ok () t' ∧ t'.IsRing (ring ++ [i]) ∧
      Relinked (i :: ends ring) t t' := by
  obtain ⟨hnd, ho, hc⟩ := (isRing_iff t _).mp h
  have hnd' : (ring ++ [i]).Nodup := List.concat_eq_append ▸ hnd.concat hi
  by_cases hl : ring = []
  · subst hl
    -- Slot `i` becomes the whole ring.
    refine ⟨_, linkYoungest_first ho hit, ?_, ?_⟩
    · rw [isRing_iff, List.nil_append, Cycle.chain_singleton, adjacent_iff]
      refine ⟨hnd', rfl, ?_, ?_⟩
      · exact (nextAt_putPrev _ i i i).trans (nextAt_putNext_self hit i)
      · exact prevAt_putPrev_self (by rw [capacity_putNext]; exact hit) i
    · refine (((Relinked.putNext t i i).trans (Relinked.putPrev _ i i)).trans
        (Relinked.putOldest _ _)).mono ?_
      simp
  · -- The ring opens between the youngest slot and the oldest.
    obtain ⟨hpath, hclose⟩ := (chain_iff _ hl).mp hc
    obtain ⟨hn, hp⟩ := (adjacent_iff t _ _).mp hclose
    have hyt := lt_capacity_of_nextAt hn
    have hot := lt_capacity_of_prevAt hp
    have hhead := List.head?_eq_some_head hl
    refine ⟨_, linkYoungest_between (ho.trans hhead) hp hit hyt, ?_, ?_⟩
    · rw [isRing_iff]
      refine ⟨hnd', ?_, chain_insert hl hnd hi hpath hit hot hyt⟩
      show t.oldest = (ring ++ [i]).head?
      rw [ho, hhead, List.head?_append_of_ne_nil _ hl, hhead]
    · refine ((((Relinked.putNext t i _).trans (Relinked.putPrev _ i _)).trans
        (Relinked.putNext _ _ i)).trans (Relinked.putPrev _ _ i)).mono ?_
      simp [head_mem_ends, getLast_mem_ends]

/-! ### Moving a slot -/

/-- A slot of the ring is moved to the young end without a fault. -/
theorem rejuvenate_isRing {t : Table K V} {i : Nat} {p q : List Nat}
    (h : t.IsRing (p ++ i :: q)) :
    ∃ t', rejuvenate i t = .ok () t' ∧ t'.IsRing (p ++ q ++ [i]) ∧
      Relinked (ends (q ++ p) ++ i :: ends (p ++ q)) t t' := by
  obtain ⟨hi, -, hcases⟩ := h.cut
  rcases hcases with ⟨rfl, rfl, hn, hp⟩ | ⟨hl, -, hn, hp, -, -⟩
  · -- A slot that is alone stays where it is.
    have hoi : ¬ t.oldest ≠ some i := not_not_intro h.oldest
    refine ⟨t, ?_, h, Relinked.refl _ t⟩
    unfold rejuvenate
    rw [bind_of_ok (reading_of_ok (slot_of_views hn hp)), if_pos rfl, get_bind, if_neg hoi]
    rfl
  · have hne : (q ++ p).head hl ≠ i := by
      intro heq
      exact hi (heq ▸ List.head_mem hl)
    obtain ⟨t₁, hrun₁, hring₁, hframe₁⟩ := unlink_isRing h
    have hi' : i ∉ p ++ q := by
      intro hmem
      exact hi (List.perm_append_comm.mem_iff.mp hmem)
    have hit : i < t₁.capacity := by
      rw [hframe₁.capacity]
      exact lt_capacity_of_nextAt hn
    obtain ⟨t₂, hrun₂, hring₂, hframe₂⟩ := linkYoungest_isRing hring₁ hi' hit
    refine ⟨t₂, ?_, hring₂, hframe₁.trans hframe₂⟩
    unfold rejuvenate
    rw [bind_of_ok (reading_of_ok (slot_of_views hn hp)), if_neg hne, bind_of_ok hrun₁]
    exact hrun₂

/-! ### The links of a ring -/

theorem IsRing.adjacent_rotate {t : Table K V} {ring : List Nat} (h : t.IsRing ring) :
    ∀ p ∈ ring.zip (ring.rotate 1), t.Adjacent p.1 p.2 :=
  rotateLeft_eq_rotate ring 1 ▸ h.adjacent

/-- A slot of a ring is followed by one of the ring. -/
theorem IsRing.exists_next {t : Table K V} {ring : List Nat} {i : Nat} (h : t.IsRing ring)
    (hi : i ∈ ring) : ∃ j ∈ ring, t.nextAt i = some j ∧ t.prevAt j = some i := by
  rw [← List.map_fst_zip (List.length_rotate ring 1).ge, List.mem_map] at hi
  obtain ⟨p, hp, rfl⟩ := hi
  have hj := List.mem_rotate.mp (List.of_mem_zip hp).2
  exact ⟨p.2, hj, (adjacent_iff t p.1 p.2).mp (h.adjacent_rotate p hp)⟩

/-- A slot of a ring follows one of the ring. -/
theorem IsRing.exists_prev {t : Table K V} {ring : List Nat} {j : Nat} (h : t.IsRing ring)
    (hj : j ∈ ring) : ∃ i ∈ ring, t.nextAt i = some j ∧ t.prevAt j = some i := by
  rw [← List.mem_rotate (n := 1), ← List.map_snd_zip (List.length_rotate ring 1).le,
    List.mem_map] at hj
  obtain ⟨p, hp, rfl⟩ := hj
  exact ⟨p.1, (List.of_mem_zip hp).1, (adjacent_iff t p.1 p.2).mp (h.adjacent_rotate p hp)⟩

/-- Two rings with the same start and links have the same slots. -/
theorem IsRing.subset {t t' : Table K V} {ring ring' : List Nat} (h : t.IsRing ring)
    (h' : t'.IsRing ring') (ho : t'.oldest = t.oldest) (hn : ∀ i, t'.nextAt i = t.nextAt i) :
    ring ⊆ ring' := by
  by_cases hl : ring = []
  · simp [hl]
  · obtain ⟨-, -, hc⟩ := (isRing_iff t ring).mp h
    apply List.IsChain.induction (· ∈ ring') ring ((chain_iff _ hl).mp hc).1
    · -- The slot after a slot is the same in both.
      intro i j hij hi
      obtain ⟨k, hk, hnext, -⟩ := h'.exists_next hi
      rw [hn, ((adjacent_iff t i j).mp hij).1] at hnext
      rw [Option.some.inj hnext]
      exact hk
    · intro hne
      have hhead := h.oldest.trans (List.head?_eq_some_head hne)
      rw [← ho, h'.oldest] at hhead
      exact List.mem_of_head? hhead

/-- The links of a slot follow from the list that the ring runs through. -/
theorem IsRing.links_eq {t t' : Table K V} {ring : List Nat} (h : t.IsRing ring)
    (h' : t'.IsRing ring) {i : Nat} (hi : i ∈ ring) :
    ∃ n b, t.nextAt i = some n ∧ t'.nextAt i = some n ∧ t.prevAt i = some b ∧
      t'.prevAt i = some b := by
  obtain ⟨p, q, rfl⟩ := List.append_of_mem hi
  obtain ⟨-, -, hcases⟩ := h.cut
  obtain ⟨-, -, hcases'⟩ := h'.cut
  -- Whether the slot is alone is the same question for both tables.
  rcases hcases with ⟨rfl, rfl, hn, hb⟩ | ⟨hl, -, hn, hb, -, -⟩
  · rcases hcases' with ⟨-, -, hn', hb'⟩ | ⟨hl', -⟩
    · exact ⟨i, i, hn, hn', hb, hb'⟩
    · exact absurd rfl hl'
  · rcases hcases' with ⟨rfl, rfl, -⟩ | ⟨hl', -, hn', hb', -⟩
    · exact absurd rfl hl
    · exact ⟨_, _, hn, hn', hb, hb'⟩

/-- So a slot is the same in two tables if the ring and the entry are. -/
theorem IsRing.slots_eq {t t' : Table K V} {ring : List Nat} (h : t.IsRing ring)
    (h' : t'.IsRing ring) {i : Nat} (hi : i ∈ ring) (he : t'.entryAt i = t.entryAt i) :
    t'.slots[i]? = t.slots[i]? := by
  obtain ⟨n, b, hn, hn', hb, hb'⟩ := h.links_eq h' hi
  have hslot := (slot_eq_ok_iff t i _).mp (slot_of_views hn hb)
  have hslot' := (slot_eq_ok_iff t' i _).mp (slot_of_views hn' hb')
  rw [hslot, hslot', he]

/-- Nothing but the slots of the ring and its start decide what the ring is. -/
theorem IsRing.congr_slots {t t' : Table K V} {ring : List Nat} (h : t.IsRing ring)
    (ho : t'.oldest = t.oldest) (hs : ∀ i ∈ ring, t'.slots[i]? = t.slots[i]?) :
    t'.IsRing ring where
  nodup := h.nodup
  oldest := ho.trans h.oldest
  adjacent p hp := by
    obtain ⟨hfirst, hsecond⟩ := List.of_mem_zip hp
    have hin : p.2 ∈ ring := List.mem_rotate.mp (rotateLeft_eq_rotate ring 1 ▸ hsecond)
    obtain ⟨a, b, ha, hb, hnext, hprev⟩ := h.adjacent p hp
    exact ⟨a, b, (hs _ hfirst).trans ha, (hs _ hin).trans hb, hnext, hprev⟩

/-- Along a path the links lead from its first slot through the others. -/
theorem follow_of_isChain {t : Table K V} {i : Nat} {l : List Nat}
    (h : (i :: l).IsChain t.Adjacent) : t.follow (i :: l).length (some i) = i :: l := by
  induction l generalizing i with
  | nil => rfl
  | cons j l ih =>
    obtain ⟨hij, hchain⟩ := List.isChain_cons_cons.mp h
    obtain ⟨hn, -⟩ := (adjacent_iff t i j).mp hij
    show i :: t.follow (j :: l).length (t.nextAt i) = _
    rw [hn, ih hchain]

/-- The ring of a sound table is the list that its links spell out. -/
theorem IsSound.linked_eq {t : Table K V} {ring : List Nat} (h : t.IsSound ring) :
    t.linked = ring := by
  obtain ⟨-, ho, hc⟩ := (isRing_iff t ring).mp h.isRing
  unfold linked
  rw [h.size, ho]
  cases ring with
  | nil => rfl
  | cons i l =>
    have hpath := ((chain_iff t.Adjacent (List.cons_ne_nil i l)).mp hc).1
    exact follow_of_isChain hpath

end RecencyCache.Table
