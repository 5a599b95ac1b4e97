import RecencyCache.Proofs.Table.Stock
import RecencyCache.Table.Operations
import RecencyCache.Table.Verify

/-! # What a verdict means

  `verify` looks at one slot at a time, and its verdict is about the table as
  a whole: it accepts exactly the tables that are sound with some ring. This
  is about all tables, damaged in whatever way.

  - **Accepted, so sound**: a walk that comes back to its start has followed
    neighbours, and has marked each of them once (`path_of_walk`).
  - **Sound, so accepted**: along a ring every check passes, and the walk is
    back at its start before its budget is spent (`walk_of_path`).

  The keys of a sound table can be listed, and the list is the ring's.
-/

namespace RecencyCache.Table

variable {K V : Type} [BEq K] {t : Table K V}

/-! ### One slot -/

/-- Slot `i` passes its checks and hands the walk on to slot `j`. -/
def Passes (t : Table K V) (i j : Nat) : Prop :=
  (∃ e, t.entryAt i = some e ∧ t.index.find? e.key = some i) ∧ t.Adjacent i j

theorem inspect_of_passes {i j : Nat} (h : t.Passes i j) : t.inspect i = .ok (.ok j) := by
  obtain ⟨⟨e, he, hf⟩, a, b, ha, hb, rfl, hprev⟩ := h
  have hentry : a.entry = some e := by
    unfold entryAt at he
    rw [ha] at he
    exact he
  have hnext : ¬ t.capacity ≤ a.next := Nat.not_le.mpr (lt_capacity_of_slots hb)
  rw [← slot_eq_ok_iff] at ha hb
  simp [inspect, bind, Except.bind, pure, Except.pure, ha, hentry, hf, hnext, hb, hprev]

theorem passes_of_inspect {i j : Nat} (h : t.inspect i = .ok (.ok j)) : t.Passes i j := by
  unfold inspect at h
  obtain ⟨a, ha, h⟩ := ok_of_bind h
  have hat := (slot_eq_ok_iff t i a).mp ha
  split at h
  · cases h
  · rename_i e he
    split at h
    · cases h
    · rename_i hf
      split at h
      · cases h
      · obtain ⟨b, hb, h⟩ := ok_of_bind h
        split at h
        · cases h
        · rename_i hprev
          cases h
          refine ⟨⟨e, ?_, not_not.mp hf⟩, a, b, hat, (slot_eq_ok_iff t _ b).mp hb, rfl,
            not_not.mp hprev⟩
          unfold entryAt
          rw [hat]
          exact he

/-! ### The walk -/

/-- A walk that comes back has marked the slots of a path that leads to its start: each slot
    passes its checks and none is marked twice. -/
theorem path_of_walk {start budget : Nat} {marked : List Nat} {i : Nat} {w : Walk}
    (h : t.walk start budget marked i = .ok w) (hw : w.damage = none) :
    ∃ l, w.marked = (i :: l).reverse ++ marked ∧ (i :: l ++ [start]).IsChain t.Passes ∧
      (i :: l).Nodup ∧ ∀ j ∈ i :: l, j ∉ marked := by
  -- On the budget; each visited slot stands before those that the rest of the walk marks.
  induction budget generalizing marked i with
  | zero =>
    cases h
    cases hw
  | succ budget ih =>
    -- Slot `i` is new to the walk; it ends there or goes on at the next slot.
    unfold walk at h
    split at h
    · cases h
      cases hw
    · rename_i hi
      obtain ⟨r, hr, hgo⟩ := ok_of_bind h
      split at hgo
      · cases hgo
        cases hw
      · rename_i j
        have hpass := passes_of_inspect hr
        split at hgo
        · rename_i hj
          rw [hj] at hpass
          cases hgo
          exact ⟨[], rfl, List.isChain_pair.mpr hpass, List.nodup_singleton i, by simpa using hi⟩
        · obtain ⟨l, hmarked, hchain, hnd, hout⟩ := ih hgo
          refine ⟨j :: l, ?_, List.isChain_cons_cons.mpr ⟨hpass, hchain⟩, ?_, ?_⟩
          · rw [hmarked]
            simp
          · refine List.nodup_cons.mpr ⟨?_, hnd⟩
            intro hmem
            exact hout i hmem List.mem_cons_self
          · intro j hj
            rcases List.mem_cons.mp hj with rfl | hj
            · exact hi
            · exact fun hmem => hout j hj (List.mem_cons_of_mem i hmem)

/-- Along a path that leads to its start the walk comes back, if its budget covers the path. -/
theorem walk_of_path {start budget : Nat} {marked : List Nat} {i : Nat} {l : List Nat}
    (hchain : (i :: l ++ [start]).IsChain t.Passes) (hnd : (i :: l).Nodup) (hstart : start ∉ l)
    (hout : ∀ j ∈ i :: l, j ∉ marked) (hbudget : (i :: l).length ≤ budget) :
    t.walk start budget marked i = .ok ⟨(i :: l).reverse ++ marked, none⟩ := by
  -- Along the path. What is left of it stays clear of the marked slots, so no visit is a second one.
  induction l generalizing budget marked i with
  | nil =>
    obtain ⟨budget, rfl⟩ := Nat.exists_eq_succ_of_ne_zero (Nat.ne_of_gt hbudget)
    have hpass := inspect_of_passes (List.isChain_pair.mp hchain)
    have hi := hout i List.mem_cons_self
    simp [walk, bind, Except.bind, pure, Except.pure, hi, hpass]
  | cons j l ih =>
    obtain ⟨budget, rfl⟩ := Nat.exists_eq_succ_of_ne_zero
      (Nat.ne_of_gt (Nat.lt_of_lt_of_le (Nat.succ_pos _) hbudget))
    obtain ⟨hpass, hchain'⟩ := List.isChain_cons_cons.mp hchain
    obtain ⟨hi, hnd'⟩ := List.nodup_cons.mp hnd
    have hij := inspect_of_passes hpass
    have hmarked := hout i List.mem_cons_self
    have hj : j ≠ start := fun heq => hstart (heq ▸ List.mem_cons_self)
    have hout' : ∀ m ∈ j :: l, m ∉ i :: marked := by
      intro m hm hmem
      rcases List.mem_cons.mp hmem with rfl | hmem
      · exact hi hm
      · exact hout m (List.mem_cons_of_mem i hm) hmem
    have hrest : t.walk start budget (i :: marked) j =
        .ok ⟨(j :: l).reverse ++ i :: marked, none⟩ :=
      ih hchain' hnd' (fun hmem => hstart (List.mem_cons_of_mem j hmem)) hout'
        (Nat.le_of_succ_le_succ hbudget)
    simp [walk, bind, Except.bind, hmarked, hij, hj, hrest]

/-! ### The free stack -/

/-- A free slot passes if it is there, vacant and not marked. -/
theorem inspectFree_cons_iff (marked : List Nat) (i : Nat) (l : List Nat) :
    t.inspectFree marked (i :: l) = .ok .sound ↔
      (i < t.capacity ∧ t.entryAt i = none ∧ i ∉ marked) ∧
        t.inspectFree (i :: marked) l = .ok .sound := by
  rw [inspectFree]
  by_cases hi : t.capacity ≤ i
  · simp [hi, pure, Except.pure]
  · have hlt : i < t.capacity := Nat.not_le.mp hi
    by_cases hmem : i ∈ marked
    · simp [hi, hmem, pure, Except.pure]
    · obtain ⟨n, hn⟩ := exists_nextAt hlt
      obtain ⟨b, hb⟩ := exists_prevAt hlt
      cases he : t.entryAt i with
      | none => simp [hi, hmem, hlt, slot_of_views hn hb, he, bind, Except.bind]
      | some e => simp [hi, hmem, slot_of_views hn hb, he, bind, Except.bind, pure, Except.pure]

/-- The free stack passes if its slots are there, vacant, not marked and pairwise different. -/
theorem inspectFree_eq_sound_iff (marked l : List Nat) :
    t.inspectFree marked l = .ok .sound ↔
      l.Nodup ∧ ∀ i ∈ l, i < t.capacity ∧ t.entryAt i = none ∧ i ∉ marked := by
  induction l generalizing marked with
  | nil => simp [inspectFree]
  | cons i l ih =>
    rw [inspectFree_cons_iff, ih, List.nodup_cons, List.forall_mem_cons]
    constructor
    · rintro ⟨hi, hnd, hl⟩
      refine ⟨⟨?_, hnd⟩, hi, ?_⟩
      · intro hmem
        exact (hl i hmem).2.2 List.mem_cons_self
      · intro j hj
        obtain ⟨hlt, hnone, hout⟩ := hl j hj
        exact ⟨hlt, hnone, fun hmem => hout (List.mem_cons_of_mem i hmem)⟩
    · rintro ⟨⟨hil, hnd⟩, hi, hl⟩
      refine ⟨hi, hnd, ?_⟩
      intro j hj
      obtain ⟨hlt, hnone, hout⟩ := hl j hj
      refine ⟨hlt, hnone, ?_⟩
      intro hmem
      rcases List.mem_cons.mp hmem with rfl | hmem
      · exact hil hj
      · exact hout hmem

/-! ### The whole table -/

/-- Slots that pass one after the other, and back to the first, are a cycle of slots in use. -/
theorem isChain_passes_iff (start : Nat) (l : List Nat) :
    (start :: l ++ [start]).IsChain t.Passes ↔
      (∀ i ∈ start :: l, ∃ e, t.entryAt i = some e ∧ t.index.find? e.key = some i) ∧
        Cycle.Chain t.Adjacent (start :: l : List Nat) := by
  rw [List.isChain_cons_append_singleton_iff_forall₂, Cycle.chain_coe_cons, ← List.cons_append,
    List.isChain_cons_append_singleton_iff_forall₂]
  exact List.forall₂_and_left _ _

/-- A table has at least as many slots as a ring. -/
theorem IsStocked.length_le {used : List Nat} (h : t.IsStocked used) :
    used.length ≤ t.capacity :=
  length_le_of_nodup h.nodup fun _ hi => h.lt_capacity hi

/-- The checks on the free stack, which is read from the bottom. -/
theorem inspectFree_reverse_iff (marked : List Nat) :
    t.inspectFree marked t.free.reverse = .ok .sound ↔
      t.free.Nodup ∧ ∀ i ∈ t.free, i < t.capacity ∧ t.entryAt i = none ∧ i ∉ marked := by
  rw [inspectFree_eq_sound_iff, List.nodup_reverse]
  simp only [List.mem_reverse]

/-- Around the ring the walk passes every slot once. -/
theorem walk_of_isSound {start : Nat} {l : List Nat} (h : t.IsSound (start :: l)) :
    t.walk start t.capacity [] start = .ok ⟨(start :: l).reverse, none⟩ := by
  obtain ⟨hring, hs⟩ := (isSound_iff t _).mp h
  obtain ⟨hnd, -, hc⟩ := (isRing_iff t _).mp hring
  have hwalk := walk_of_path ((isChain_passes_iff start l).mpr ⟨hs.indexed, hc⟩) hnd
    (List.nodup_cons.mp hnd).1 (fun _ _ => List.not_mem_nil) hs.length_le
  rw [List.append_nil] at hwalk
  exact hwalk

/-- A sound table is accepted. -/
theorem verify_of_isSound {ring : List Nat} (h : t.IsSound ring) : t.verify = .ok .sound := by
  obtain ⟨hring, hs⟩ := (isSound_iff t ring).mp h
  have hsize : t.size = ring.length := hs.size
  have hroom : ¬ t.capacity < t.size := by
    rw [hsize]
    exact Nat.not_lt.mpr hs.length_le
  unfold verify
  rw [if_neg hroom, hring.oldest]
  cases ring with
  | nil =>
    have hzero : ¬ t.size ≠ 0 := not_not_intro hsize
    simp only [List.head?_nil]
    rw [if_neg hzero]
    exact (inspectFree_reverse_iff []).mpr ⟨hs.free_nodup, hs.free⟩
  | cons start l =>
    have hstart : ¬ t.capacity ≤ start := Nat.not_le.mpr (hs.lt_capacity List.mem_cons_self)
    have hlen : ¬ (start :: l).reverse.length ≠ t.size := by simp [hsize]
    simp only [List.head?_cons]
    rw [if_neg hstart, walk_of_isSound h]
    show (if (start :: l).reverse.length ≠ t.size then _ else _) = _
    rw [if_neg hlen, inspectFree_reverse_iff]
    refine ⟨hs.free_nodup, ?_⟩
    intro i hi
    rw [List.mem_reverse]
    exact hs.free i hi

/-- An accepted table is sound. -/
theorem isSound_of_verify (h : t.verify = .ok .sound) : ∃ ring, t.IsSound ring := by
  unfold verify at h
  split at h
  · cases h
  · split at h
    · -- No slot is the oldest, and no key is indexed.
      rename_i ho
      split at h
      · cases h
      · rename_i hsize
        obtain ⟨hnd, hfree⟩ := (inspectFree_reverse_iff []).mp h
        refine ⟨[], (isSound_iff t []).mpr ⟨(isRing_iff t []).mpr ⟨.nil, ho, .nil _⟩, ?_⟩⟩
        exact ⟨.nil, by simp, not_not.mp hsize, hnd, hfree⟩
    · rename_i start ho
      split at h
      · cases h
      · obtain ⟨w, hw, hrest⟩ := ok_of_bind h
        split at hrest
        · cases hrest
        · rename_i hdamage
          split at hrest
          · cases hrest
          · rename_i hsize
            -- The walk came back, so its slots are a ring, and they are as many as the keys.
            obtain ⟨l, hmarked, hchain, hnd, -⟩ := path_of_walk hw hdamage
            obtain ⟨hindexed, hc⟩ := (isChain_passes_iff start l).mp hchain
            obtain ⟨hfnd, hfree⟩ := (inspectFree_reverse_iff w.marked).mp hrest
            have hlen : t.size = (start :: l).length := by
              rw [← not_not.mp hsize, hmarked]
              simp
            refine ⟨start :: l, (isSound_iff t _).mpr ⟨(isRing_iff t _).mpr ⟨hnd, ho, hc⟩, ?_⟩⟩
            refine ⟨hnd, hindexed, hlen, hfnd, ?_⟩
            intro i hi
            have hi' := hfree i hi
            rw [hmarked, List.append_nil, List.mem_reverse] at hi'
            exact hi'

/-! ### The keys in order -/

/-- The keys from a slot that holds an entry: its own, and those from the next slot on unless that
    is the start. -/
theorem keysFrom_succ {start i j : Nat} {e : Entry K V} (hj : t.nextAt i = some j)
    (he : t.entryAt i = some e) (most : Nat) :
    t.keysFrom start (most + 1) i =
      if j = start then .ok [e.key] else (t.keysFrom start most j).map (e.key :: ·) := by
  obtain ⟨b, hb⟩ := exists_prevAt (lt_capacity_of_nextAt hj)
  have hentry := (entry_eq_ok_iff t i e).mpr he
  have hslot := slot_of_views hj hb
  rw [keysFrom]
  by_cases hstart : j = start
  · simp [hentry, hslot, hstart, bind, Except.bind, pure, Except.pure]
  · simp only [hentry, hslot, hstart, bind, Except.bind, pure, Except.pure, if_false]
    cases t.keysFrom start most j <;> rfl

/-- Along a path that leads to its start, the keys read are those of its slots. -/
theorem keysFrom_of_path {start most : Nat} {i : Nat} {l : List Nat}
    (hchain : (i :: l ++ [start]).IsChain t.Passes) (hstart : start ∉ l)
    (hmost : (i :: l).length ≤ most) :
    t.keysFrom start most i = .ok ((t.contents (i :: l)).map (·.key)) := by
  induction l generalizing most i with
  | nil =>
    obtain ⟨most, rfl⟩ := Nat.exists_eq_succ_of_ne_zero (Nat.ne_of_gt hmost)
    obtain ⟨⟨e, he, -⟩, hadj⟩ := List.isChain_pair.mp hchain
    have hnext := ((adjacent_iff t i start).mp hadj).1
    rw [keysFrom_succ hnext he, if_pos rfl, contents_cons he]
    rfl
  | cons j l ih =>
    obtain ⟨most, rfl⟩ := Nat.exists_eq_succ_of_ne_zero
      (Nat.ne_of_gt (Nat.lt_of_lt_of_le (Nat.succ_pos _) hmost))
    obtain ⟨⟨⟨e, he, -⟩, hadj⟩, hchain'⟩ := List.isChain_cons_cons.mp hchain
    have hnext := ((adjacent_iff t i j).mp hadj).1
    have hj : j ≠ start := fun heq => hstart (heq ▸ List.mem_cons_self)
    have hrest := ih hchain' (fun hmem => hstart (List.mem_cons_of_mem j hmem))
      (Nat.le_of_succ_le_succ hmost)
    rw [keysFrom_succ hnext he, if_neg hj, hrest, contents_cons he]
    rfl

/-- The keys of a sound table are those of its ring, from the oldest to the youngest. -/
theorem keysByRecency_of_isSound {ring : List Nat} (h : t.IsSound ring) :
    t.keysByRecency = .ok ((t.contents ring).map (·.key)) := by
  obtain ⟨hring, hs⟩ := (isSound_iff t ring).mp h
  obtain ⟨hnd, ho, hc⟩ := (isRing_iff t ring).mp hring
  unfold keysByRecency
  rw [ho]
  cases ring with
  | nil => rfl
  | cons start l =>
    exact keysFrom_of_path ((isChain_passes_iff start l).mpr ⟨hs.indexed, hc⟩)
      (List.nodup_cons.mp hnd).1 (Nat.le_succ_of_le hs.length_le)

/-- A verdict of soundness says that the ring, the index and the free stack fit together, no
    more and no less. The keys of such a table are listed without a fault: in the order of the
    ring, each indexed key once, and no other. -/
theorem verify_eq_sound_iff [EquivBEq K] (t : Table K V) :
    (t.verify = .ok .sound ↔ ∃ ring, t.IsSound ring) ∧
      ∀ ring, t.IsSound ring → ∃ keys, t.keysByRecency = .ok keys ∧
        List.Forall₂ (fun i k => ∃ v, t.Holds i ⟨k, v⟩) ring keys ∧
        ∀ k, keys.countP (· == k) = if t.contains k then 1 else 0 := by
  refine ⟨⟨isSound_of_verify, ?_⟩, ?_⟩
  · rintro ⟨ring, h⟩
    exact verify_of_isSound h
  · intro ring h
    obtain ⟨-, hs⟩ := (isSound_iff t ring).mp h
    refine ⟨_, keysByRecency_of_isSound h, ?_, ?_⟩
    · rw [List.forall₂_map_right_iff]
      exact hs.forall₂_holds.imp fun _ e he => ⟨e.value, he⟩
    · intro k
      rw [List.countP_map]
      exact hs.countP_contents k

/-- Two keys in slots 1 and 0, and slot 2 free. -/
theorem verify_eq_sound_iff_two :
    ∃ t : Table Nat Nat, ∃ ring keys,
      t = ⟨#[⟨some ⟨5, 50⟩, 1, 1⟩, ⟨some ⟨6, 60⟩, 0, 0⟩, {}],
        (Index.empty.insert 5 0).insert 6 1, [2], some 1⟩ ∧
      t.verify = .ok .sound ∧ t.IsSound ring ∧ t.keysByRecency = .ok keys ∧
      ∀ k, keys.countP (· == k) = if t.contains k then 1 else 0 := by
  obtain ⟨hiff, hkeys⟩ := verify_eq_sound_iff (⟨#[⟨some ⟨5, 50⟩, 1, 1⟩, ⟨some ⟨6, 60⟩, 0, 0⟩, {}],
    (Index.empty.insert 5 0).insert 6 1, [2], some 1⟩ : Table Nat Nat)
  obtain ⟨ring, hring⟩ := hiff.mp (by decide)
  obtain ⟨keys, hlist, -, hcount⟩ := hkeys ring hring
  exact ⟨_, ring, keys, rfl, hiff.mpr ⟨ring, hring⟩, hring, hlist, hcount⟩

end RecencyCache.Table
