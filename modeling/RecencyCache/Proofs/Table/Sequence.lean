import RecencyCache.Proofs.Table.Ring

/-! # The ring as a sequence of slots

  `unlink`, `linkYoungest` and `rejuvenate` as editing of a list, for every
  place in it. Whether the slot is the first one, the last one, next to
  either or alone, taking it out erases its place, and putting one in appends
  it.

  Each edit leaves a list again, with its first slot as the oldest one and its
  last slot before that (`IsRing.youngest`), and changes no link outside the
  list but those of the slot that is put in.
-/

namespace RecencyCache.Table

variable {K V : Type} [BEq K] {t : Table K V} {ring : List Nat}

/-- The slot before the oldest one is the last of the list. -/
theorem IsRing.youngest (h : t.IsRing ring) : t.oldest.bind t.prevAt = ring.getLast? := by
  obtain ⟨-, ho, hc⟩ := (isRing_iff t ring).mp h
  by_cases hl : ring = []
  · rw [ho, hl]
    rfl
  · obtain ⟨-, hclose⟩ := (chain_iff _ hl).mp hc
    obtain ⟨-, hp⟩ := (adjacent_iff t _ _).mp hclose
    rw [ho, List.head?_eq_some_head hl, List.getLast?_eq_some_getLast hl]
    exact hp

/-- A list around one of its places. -/
theorem cut_at {i : Nat} (hi : i < ring.length) :
    ring = ring.take i ++ ring[i] :: ring.drop (i + 1) := by
  rw [List.getElem_cons_drop, List.take_append_drop]

/-- What comes first once a place is erased. -/
theorem head?_eraseIdx (ring : List Nat) (i : Nat) :
    (ring.eraseIdx i).head? = if i = 0 then ring[1]? else ring.head? := by
  cases ring with
  | nil => simp
  | cons a l =>
    cases i with
    | zero => simp [List.head?_eq_getElem?]
    | succ i => rfl

/-- Both places at which the ring is closed are in the ring. -/
theorem ends_cut_subset (ring : List Nat) (i : Nat) :
    ends (ring.drop (i + 1) ++ ring.take i) ⊆ ring := by
  intro j hj
  rcases List.mem_append.mp (ends_subset _ hj) with hj | hj
  · exact List.mem_of_mem_drop hj
  · exact List.mem_of_mem_take hj

/-- Unlinking a slot erases its place. -/
theorem IsRing.unlink_getElem (h : t.IsRing ring) {i : Nat} (hi : i < ring.length) :
    ∃ t', unlink ring[i] t = .ok () t' ∧ t'.IsRing (ring.eraseIdx i) ∧ Relinked ring t t' := by
  rw [cut_at hi] at h
  obtain ⟨t', hrun, hring, hframe⟩ := unlink_isRing h
  rw [← List.eraseIdx_eq_take_drop_succ] at hring
  exact ⟨t', hrun, hring, hframe.mono (ends_cut_subset ring i)⟩

/-- Rejuvenating a slot erases its place and appends the slot. -/
theorem IsRing.rejuvenate_getElem (h : t.IsRing ring) {i : Nat} (hi : i < ring.length) :
    ∃ t', rejuvenate ring[i] t = .ok () t' ∧ t'.IsRing (ring.eraseIdx i ++ [ring[i]]) ∧
      Relinked ring t t' := by
  rw [cut_at hi] at h
  obtain ⟨t', hrun, hring, hframe⟩ := rejuvenate_isRing h
  rw [← List.eraseIdx_eq_take_drop_succ] at hring hframe
  refine ⟨t', hrun, hring, hframe.mono ?_⟩
  intro j hj
  rcases List.mem_append.mp hj with hj | hj
  · exact ends_cut_subset ring i hj
  · rcases List.mem_cons.mp hj with rfl | hj
    · exact List.getElem_mem hi
    · exact (List.eraseIdx_sublist ring i).subset (ends_subset _ hj)

/-- Linking a slot appends it. -/
theorem IsRing.linkYoungest_append (h : t.IsRing ring) {x : Nat} (hx : x < t.capacity)
    (hout : x ∉ ring) :
    ∃ t', linkYoungest x t = .ok () t' ∧ t'.IsRing (ring ++ [x]) ∧ Relinked (x :: ring) t t' := by
  obtain ⟨t', hrun, hring, hframe⟩ := linkYoungest_isRing h hout hx
  exact ⟨t', hrun, hring, hframe.mono (List.cons_subset_cons x (ends_subset ring))⟩

/-- On a table whose ring runs through a list, none of the three operations faults. Unlinking the
    slot at a place erases the place, so that the ring starts at the second slot, if there is one,
    after the first one has left. Linking a slot from outside appends it. Rejuvenating does one after
    the other.

    Afterwards the slot before the oldest one is the last of the list again. Entries, index and free
    stack stay, and links change in the slots of the list and in the linked slot only. -/
theorem ring_edits (h : t.IsRing ring) :
    (∀ i (hi : i < ring.length), ∃ t', unlink ring[i] t = .ok () t' ∧
      t'.IsRing (ring.eraseIdx i) ∧ t'.oldest = (if i = 0 then ring[1]? else t.oldest) ∧
      t'.oldest.bind t'.prevAt = (ring.eraseIdx i).getLast? ∧ Relinked ring t t') ∧
    (∀ x, x < t.capacity → x ∉ ring → ∃ t', linkYoungest x t = .ok () t' ∧
      t'.IsRing (ring ++ [x]) ∧ t'.oldest.bind t'.prevAt = some x ∧ Relinked (x :: ring) t t') ∧
    ∀ i (hi : i < ring.length), ∃ t', rejuvenate ring[i] t = .ok () t' ∧
      t'.IsRing (ring.eraseIdx i ++ [ring[i]]) ∧ t'.oldest.bind t'.prevAt = some ring[i] ∧
      Relinked ring t t' := by
  refine ⟨?_, ?_, ?_⟩
  · intro i hi
    obtain ⟨t', hrun, hring, hframe⟩ := h.unlink_getElem hi
    have hstart : t'.oldest = (if i = 0 then ring[1]? else t.oldest) := by
      rw [hring.oldest, head?_eraseIdx, h.oldest]
    exact ⟨t', hrun, hring, hstart, hring.youngest, hframe⟩
  · intro x hx hout
    obtain ⟨t', hrun, hring, hframe⟩ := h.linkYoungest_append hx hout
    exact ⟨t', hrun, hring, by simp [hring.youngest], hframe⟩
  · intro i hi
    obtain ⟨t', hrun, hring, hframe⟩ := h.rejuvenate_getElem hi
    exact ⟨t', hrun, hring, by simp [hring.youngest], hframe⟩

/-- Of two slots the oldest one leaves, and a third one, which still has links from before, joins
    them. -/
theorem ring_edits_two :
    ∃ t : Table Nat Nat,
      t = ⟨#[⟨some ⟨1, 10⟩, 2, 2⟩, ⟨none, 0, 2⟩, ⟨some ⟨3, 30⟩, 0, 0⟩],
        (Index.empty.insert 1 0).insert 3 2, [1], some 0⟩ ∧
      t.IsRing [0, 2] ∧
      (∃ t', unlink 0 t = .ok () t' ∧ t'.IsRing [2] ∧ t'.oldest = some 2) ∧
      ∃ t', linkYoungest 1 t = .ok () t' ∧ t'.IsRing [0, 2, 1] := by
  let t : Table Nat Nat :=
    ⟨#[⟨some ⟨1, 10⟩, 2, 2⟩, ⟨none, 0, 2⟩, ⟨some ⟨3, 30⟩, 0, 0⟩],
      (Index.empty.insert 1 0).insert 3 2, [1], some 0⟩
  have hring : t.IsRing [0, 2] := by
    refine ⟨by decide, rfl, ?_⟩
    rw [forall_zip_rotateLeft_iff, chain_iff _ (List.cons_ne_nil 0 [2])]
    refine ⟨List.isChain_pair.mpr ?_, ?_⟩
    · exact ⟨_, _, rfl, rfl, rfl, rfl⟩
    · exact ⟨_, _, rfl, rfl, rfl, rfl⟩
  obtain ⟨hunlink, hlink, -⟩ := ring_edits hring
  obtain ⟨t₁, hrun₁, hring₁, hstart₁, -⟩ := hunlink 0 (by decide)
  obtain ⟨t₂, hrun₂, hring₂, -⟩ := hlink 1 (by decide) (by decide)
  exact ⟨t, rfl, hring, ⟨t₁, hrun₁, hring₁, hstart₁⟩, t₂, hrun₂, hring₂⟩

end RecencyCache.Table
