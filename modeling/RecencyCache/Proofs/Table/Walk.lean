import RecencyCache.Proofs.Table.Verdict

/-! # Walks on damaged tables

  The check follows links that may lead anywhere: into a circle that leaves
  the start out, back to where they came from, or past the end of the array.
  It needs no measure for its walk, and its check for a slot that is linked
  twice never fires.

  - **Each slot once**: a slot that is entered from slot `i` links back to
    `i`. If it had been entered before, then from another slot, or it would
    be the start (`Trail.onward`). So a walk that turns back into its own
    trail fails at the link back, if it has not failed before.
  - **The walk ends**: all slots that it visits are in range and different,
    so a budget of one visit per slot is never spent, and a larger one makes
    no difference (`Trail.exists_walk`).
  - **Every table gets a verdict** for that reason (`exists_verdict`), and one
    that is not sound is reported (`exists_damage`).
-/

namespace RecencyCache.Table

variable {K V : Type} [BEq K] {t : Table K V} {start i j : Nat} {marked : List Nat}

/-! ### One slot -/

/-- A slot in range is inspected without a fault. -/
theorem exists_inspection (hi : i < t.capacity) : ∃ r, t.inspect i = .ok r := by
  obtain ⟨s, hs⟩ := exists_slot hi
  unfold inspect
  rw [hs]
  simp only [bind, Except.bind]
  split
  · exact ⟨_, rfl⟩
  · split
    · exact ⟨_, rfl⟩
    · split
      · exact ⟨_, rfl⟩
      · -- The link was found to be in range before the next slot is read.
        rename_i hnext
        obtain ⟨b, hb⟩ := exists_slot (Nat.not_le.mp hnext)
        rw [hb]
        dsimp only
        split <;> exact ⟨_, rfl⟩

/-- What can be wrong with a slot that is inspected. In a slot that holds an entry under its key,
    it is the forward link. -/
theorem damage_of_inspect {d : Damage} (h : t.inspect i = .ok (.error d)) :
    d = .vacantLinked i ∨ d = .notIndexed i ∨ ∃ n, t.nextAt i = some n ∧
      (d = .linkOutOfRange i n ∧ t.capacity ≤ n ∨ d = .noLinkBack i n) := by
  unfold inspect at h
  obtain ⟨s, hs, h⟩ := ok_of_bind h
  have hnext : t.nextAt i = some s.next := by
    simp [nextAt, (slot_eq_ok_iff t i s).mp hs]
  split at h
  · cases h
    exact .inl rfl
  · split at h
    · cases h
      exact .inr (.inl rfl)
    · split at h
      · rename_i hle
        cases h
        exact .inr (.inr ⟨s.next, hnext, .inl ⟨rfl, hle⟩⟩)
      · obtain ⟨b, -, h⟩ := ok_of_bind h
        split at h
        · cases h
          exact .inr (.inr ⟨s.next, hnext, .inr rfl⟩)
        · cases h

/-! ### One step of the walk -/

theorem walk_of_damage {d : Damage} (hi : i ∉ marked) (h : t.inspect i = .ok (.error d))
    (budget : Nat) :
    t.walk start (budget + 1) marked i = .ok ⟨i :: marked, some d⟩ := by
  simp [walk, hi, h, bind, Except.bind, pure, Except.pure]

theorem walk_of_start (hi : i ∉ marked) (h : t.inspect i = .ok (.ok start)) (budget : Nat) :
    t.walk start (budget + 1) marked i = .ok ⟨i :: marked, none⟩ := by
  simp [walk, hi, h, bind, Except.bind, pure, Except.pure]

theorem walk_of_next (hi : i ∉ marked) (h : t.inspect i = .ok (.ok j)) (hj : j ≠ start)
    (budget : Nat) :
    t.walk start (budget + 1) marked i = t.walk start budget (i :: marked) j := by
  simp [walk, hi, h, hj, bind, Except.bind]

/-! ### The trail behind a walk -/

/-- A walk from `start` stands at slot `i`, with the slots `marked` behind it. -/
structure Trail (t : Table K V) (start : Nat) (marked : List Nat) (i : Nat) : Prop where
  /-- No slot was visited twice, and slot `i` was not visited yet. -/
  nodup : (i :: marked).Nodup
  /-- All of them are there. -/
  lt_capacity : ∀ j ∈ i :: marked, j < t.capacity
  /-- Each of them but the start was entered from a visited slot, to which it links back. -/
  back : ∀ j ∈ i :: marked, j ≠ start → ∃ b ∈ marked, t.prevAt j = some b

namespace Trail

/-- A walk that has not begun has nothing behind it. -/
theorem of_start (h : start < t.capacity) : t.Trail start [] start where
  nodup := List.nodup_singleton start
  lt_capacity := by simpa using h
  back := by simp

/-- The walk goes on to a slot that it has not visited. -/
theorem onward (h : t.Trail start marked i) (hpass : t.Passes i j) (hj : j ≠ start) :
    t.Trail start (i :: marked) j := by
  obtain ⟨-, hadj⟩ := hpass
  have hprev : t.prevAt j = some i := ((adjacent_iff t i j).mp hadj).2
  refine ⟨List.nodup_cons.mpr ⟨?_, h.nodup⟩, ?_, ?_⟩
  · -- A visited slot links back to one that was visited before `i`, and `j` links back to `i`.
    intro hmem
    obtain ⟨b, hb, hbj⟩ := h.back j hmem hj
    have hbi : b = i := Option.some.inj (hbj.symm.trans hprev)
    exact (List.nodup_cons.mp h.nodup).1 (hbi ▸ hb)
  · intro k hk
    rcases List.mem_cons.mp hk with rfl | hk
    · exact lt_capacity_of_prevAt hprev
    · exact h.lt_capacity k hk
  · intro k hk hne
    rcases List.mem_cons.mp hk with rfl | hk
    · exact ⟨i, List.mem_cons_self, hprev⟩
    · obtain ⟨b, hb, hbk⟩ := h.back k hk hne
      exact ⟨b, List.mem_cons_of_mem i hb, hbk⟩

theorem length_lt (h : t.Trail start marked i) : marked.length < t.capacity :=
  length_le_of_nodup h.nodup h.lt_capacity

end Trail

/-! ### The whole walk -/

/-- A walk has visited slots that are there, none of them twice, and tells so. -/
structure VisitsOnce (t : Table K V) (start : Nat) (w : Walk) : Prop where
  /-- No slot was visited twice. -/
  nodup : w.marked.Nodup
  /-- All visited slots are there. -/
  lt_capacity : ∀ i ∈ w.marked, i < t.capacity
  /-- No slot is reported as linked twice. -/
  ne_linkedTwice : ∀ i, w.damage ≠ some (.linkedTwice i)
  /-- If the last slot links forward to a visited one other than the start, the walk has ended at
      this link, or at the slot. -/
  stopped : ∀ i j, w.marked.head? = some i → t.nextAt i = some j → j ∈ w.marked → j ≠ start →
    w.damage = some (.noLinkBack i j) ∨ w.damage = some (.vacantLinked i) ∨
      w.damage = some (.notIndexed i)

/-- A walk that ends at slot `i` with a report has visited each slot once. -/
theorem Trail.visitsOnce_of_damage (h : t.Trail start marked i) {d : Damage}
    (hd : t.inspect i = .ok (.error d)) : t.VisitsOnce start ⟨i :: marked, some d⟩ := by
  have hcases := damage_of_inspect hd
  refine ⟨h.nodup, h.lt_capacity, ?_, ?_⟩
  · rintro k hk
    obtain rfl : d = .linkedTwice k := Option.some.inj hk
    simp at hcases
  · intro k j hk hnext hj _
    obtain rfl : i = k := Option.some.inj hk
    have hlt := h.lt_capacity j hj
    rcases hcases with rfl | rfl | ⟨n, hn, hlink⟩
    · exact .inr (.inl rfl)
    · exact .inr (.inr rfl)
    · -- A visited slot is in range, so it is the link back that is missing.
      obtain rfl : n = j := Option.some.inj (hn.symm.trans hnext)
      rcases hlink with ⟨-, hle⟩ | rfl
      · omega
      · exact .inl rfl

/-- A walk that comes back to its start has visited each slot once. -/
theorem Trail.visitsOnce_of_start (h : t.Trail start marked i) (hpass : t.Passes i start) :
    t.VisitsOnce start ⟨i :: marked, none⟩ := by
  refine ⟨h.nodup, h.lt_capacity, by simp, ?_⟩
  intro k j hk hnext _ hj
  obtain rfl : i = k := Option.some.inj hk
  have hn := ((adjacent_iff t i start).mp hpass.2).1
  exact absurd (Option.some.inj (hnext.symm.trans hn)) hj

/-- Wherever a walk stands, it ends. Any budget that covers the slots that are not visited yet
    leads to the same end. -/
theorem Trail.exists_walk {marked : List Nat} {i : Nat} (h : t.Trail start marked i) :
    ∃ w, t.VisitsOnce start w ∧
      ∀ budget, t.capacity ≤ budget + marked.length → t.walk start budget marked i = .ok w := by
  have hlt := h.length_lt
  -- Slot `i` is not visited yet, so there is a visit left for it.
  suffices ∃ w, t.VisitsOnce start w ∧
      ∀ rest, t.capacity ≤ rest + 1 + marked.length →
        t.walk start (rest + 1) marked i = .ok w by
    obtain ⟨w, hw, hwalk⟩ := this
    refine ⟨w, hw, ?_⟩
    intro budget hbudget
    obtain ⟨rest, rfl⟩ := Nat.exists_eq_add_of_le' (show 1 ≤ budget by omega)
    exact hwalk rest hbudget
  have hi : i ∉ marked := (List.nodup_cons.mp h.nodup).1
  obtain ⟨r, hr⟩ := exists_inspection (h.lt_capacity i List.mem_cons_self)
  cases r with
  | error d => exact ⟨_, h.visitsOnce_of_damage hr, fun rest _ => walk_of_damage hi hr rest⟩
  | ok j =>
    have hpass := passes_of_inspect hr
    by_cases hj : j = start
    · subst hj
      exact ⟨_, h.visitsOnce_of_start hpass, fun rest _ => walk_of_start hi hr rest⟩
    · -- From slot `j` on the walk ends, with one slot less to visit.
      obtain ⟨w, hw, hwalk⟩ := (h.onward hpass hj).exists_walk
      refine ⟨w, hw, ?_⟩
      intro rest hrest
      rw [walk_of_next hi hr hj]
      apply hwalk
      rw [List.length_cons]
      omega
termination_by t.capacity - marked.length

/-- From a slot in range the walk ends, having visited each slot at most once. -/
theorem walk_visitsOnce (hstart : start < t.capacity) :
    ∃ w, t.VisitsOnce start w ∧ w.marked.length ≤ t.capacity ∧
      ∀ budget, t.capacity ≤ budget → t.walk start budget [] start = .ok w := by
  obtain ⟨w, hw, hwalk⟩ := (Trail.of_start hstart).exists_walk
  exact ⟨w, hw, length_le_of_nodup hw.nodup hw.lt_capacity, hwalk⟩

/-! ### The verdict -/

/-- Every free stack is inspected without a fault. The report is not about links. -/
theorem exists_inspectFree (marked l : List Nat) :
    ∃ v, t.inspectFree marked l = .ok v ∧ ∀ k, v ≠ .damaged (.linkedTwice k) := by
  induction l generalizing marked with
  | nil => exact ⟨.sound, rfl, by simp⟩
  | cons i l ih =>
    unfold inspectFree
    split
    · exact ⟨_, rfl, by simp⟩
    · rename_i hi
      obtain ⟨s, hs⟩ := exists_slot (Nat.not_le.mp hi)
      rw [hs]
      simp only [bind, Except.bind]
      split
      · exact ⟨_, rfl, by simp⟩
      · split
        · exact ⟨_, rfl, by simp⟩
        · exact ih _

/-- Every table gets a verdict, and none is that a slot is linked twice. -/
theorem exists_verdict (t : Table K V) :
    ∃ v, t.verify = .ok v ∧ ∀ k, v ≠ .damaged (.linkedTwice k) := by
  unfold verify
  split
  · exact ⟨_, rfl, by simp⟩
  · split
    · split
      · exact ⟨_, rfl, by simp⟩
      · exact exists_inspectFree _ _
    · split
      · exact ⟨_, rfl, by simp⟩
      · rename_i start _ hstart
        obtain ⟨w, hw, -, hwalk⟩ := walk_visitsOnce (Nat.not_le.mp hstart)
        rw [hwalk t.capacity (Nat.le_refl _)]
        simp only [bind, Except.bind]
        split
        · rename_i d hd
          have hd' := hw.ne_linkedTwice
          exact ⟨.damaged d, rfl, by simpa [hd] using hd'⟩
        · split
          · exact ⟨_, rfl, by simp⟩
          · exact exists_inspectFree _ _

/-- A table that is sound with no ring is reported as damaged. -/
theorem exists_damage (h : ∀ ring, ¬ t.IsSound ring) : ∃ d, t.verify = .ok (.damaged d) := by
  obtain ⟨v, hv, -⟩ := exists_verdict t
  cases v with
  | damaged d => exact ⟨d, hv⟩
  | sound =>
    obtain ⟨ring, hring⟩ := isSound_of_verify hv
    exact absurd hring (h ring)

/-- What stops the walk from the oldest slot is the verdict, if there are not too many keys. -/
theorem verify_of_walk {w : Walk} (hsize : t.size ≤ t.capacity) (ho : t.oldest = some start)
    (hstart : start < t.capacity) (hw : t.walk start t.capacity [] start = .ok w) {d : Damage}
    (hd : w.damage = some d) : t.verify = .ok (.damaged d) := by
  unfold verify
  rw [if_neg (Nat.not_lt.mpr hsize), ho]
  dsimp only
  rw [if_neg (Nat.not_le.mpr hstart), hw]
  simp [bind, Except.bind, hd, pure, Except.pure]

/-- Every table gets a verdict, and none is that a slot is linked twice. The walk behind the verdict
    ends from every start: it visits slots that are there, each of them once, so that with a visit
    for each slot its budget lasts, and a larger one changes nothing. A link that leads back into
    the trail is reported as such, unless its slot is at fault itself. From the oldest slot of a
    table without too many keys, that report is the verdict. -/
theorem verify_visits_once (t : Table K V) :
    (∃ v, t.verify = .ok v ∧ ∀ i, v ≠ .damaged (.linkedTwice i)) ∧
      ∀ start < t.capacity, ∃ w, t.VisitsOnce start w ∧ w.marked.length ≤ t.capacity ∧
        (∀ budget, t.capacity ≤ budget → t.walk start budget [] start = .ok w) ∧
        (t.size ≤ t.capacity → t.oldest = some start →
          ∀ d, w.damage = some d → t.verify = .ok (.damaged d)) := by
  refine ⟨exists_verdict t, ?_⟩
  intro start hstart
  obtain ⟨w, hw, hlen, hwalk⟩ := walk_visitsOnce hstart
  refine ⟨w, hw, hlen, hwalk, ?_⟩
  intro hsize ho d hd
  exact verify_of_walk hsize ho hstart (hwalk t.capacity (Nat.le_refl _)) hd

/-- Slots 1 and 2 link to each other, and slot 0 to slot 1. The link from slot 2 back to slot 1
    ends the walk, however long it might go on, and is the verdict. -/
theorem verify_visits_once_rho :
    ∃ t : Table Nat Nat, ∃ w,
      t = ⟨#[⟨some ⟨5, 50⟩, 1, 2⟩, ⟨some ⟨6, 60⟩, 2, 0⟩, ⟨some ⟨7, 70⟩, 1, 1⟩],
        ((Index.empty.insert 5 0).insert 6 1).insert 7 2, [], some 0⟩ ∧
      0 < t.capacity ∧ t.size ≤ t.capacity ∧ t.oldest = some 0 ∧ t.VisitsOnce 0 w ∧
      w.marked = [2, 1, 0] ∧ (∀ budget, 3 ≤ budget → t.walk 0 budget [] 0 = .ok w) ∧
      t.verify = .ok (.damaged (.noLinkBack 2 1)) := by
  let t : Table Nat Nat := ⟨#[⟨some ⟨5, 50⟩, 1, 2⟩, ⟨some ⟨6, 60⟩, 2, 0⟩, ⟨some ⟨7, 70⟩, 1, 1⟩],
    ((Index.empty.insert 5 0).insert 6 1).insert 7 2, [], some 0⟩
  have hstart : 0 < t.capacity := by decide
  have hsize : t.size ≤ t.capacity := by decide
  obtain ⟨w, hw, -, hwalk, hverdict⟩ := (verify_visits_once t).2 0 hstart
  have hmarked : t.walk 0 3 [] 0 = .ok ⟨[2, 1, 0], some (.noLinkBack 2 1)⟩ := rfl
  obtain rfl := Except.ok.inj ((hwalk 3 (Nat.le_refl 3)).symm.trans hmarked)
  exact ⟨t, _, rfl, hstart, hsize, rfl, hw, rfl, hwalk, hverdict hsize rfl _ rfl⟩

end RecencyCache.Table
