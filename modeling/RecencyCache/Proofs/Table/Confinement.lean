import RecencyCache.Proofs.Table.Accounting

/-! # What a call leaves alone

  A call for a key works on one slot: the one that the key has before the
  call or after it. Everything else stays where it is, up to a few links.

  - **Said of a table** (`Confined`): keys keep their slots and spellings,
    slots their entries, and the other keys their order. Links change next to
    the slot and at the ends of the ring (`Near`).
  - **Said of the ring** (`Exchange`): the slots of the ring are the same in
    the same order, but for the one slot, and so are their entries. Each
    operation is an exchange in each of its cases, and what an exchange leaves
    alone is worked out once (`Exchange.confined`).
-/

namespace RecencyCache.Table

variable {K V : Type} [BEq K] {t t' : Table K V} {ring ring' : List Nat} {k : K} {i j : Nat}

/-! ### Where a call works -/

/-- Slot `i` has the key `k` before a call or after it. -/
def WorksOn (t t' : Table K V) (k : K) (i : Nat) : Prop :=
  t.index.find? k = some i ∨ t'.index.find? k = some i

/-- The slots where links may change when slot `i` leaves the ring, joins it or moves. -/
inductive Near (t : Table K V) (ring : List Nat) (i : Nat) : Nat → Prop where
  /-- The slot itself. -/
  | self : t.Near ring i i
  /-- Its neighbour on one side, if it is in the ring. -/
  | next {j : Nat} (hi : i ∈ ring) (h : t.nextAt i = some j) : t.Near ring i j
  /-- Its neighbour on the other side. -/
  | prev {j : Nat} (hi : i ∈ ring) (h : t.prevAt i = some j) : t.Near ring i j
  /-- The slot that starts the ring. -/
  | oldest {j : Nat} (h : ring.head? = some j) : t.Near ring i j
  /-- The slot that ends it. -/
  | youngest {j : Nat} (h : ring.getLast? = some j) : t.Near ring i j

/-- What a call for key `k` leaves of a table with the given ring. -/
structure Confined (t t' : Table K V) (ring : List Nat) (k : K) : Prop where
  /-- The call works on one slot at most. -/
  unique : ∀ i j, WorksOn t t' k i → WorksOn t t' k j → i = j
  /-- A key that is there before and after has the slot that it had. -/
  slot : ∀ x s, t.index.find? x = some s → t'.contains x = true → t'.index.find? x = some s
  /-- Its slot spells it as before. -/
  spelling : ∀ x s e, t.index.find? x = some s → t'.contains x = true → t.Holds s e →
    ∃ v, t'.Holds s ⟨e.key, v⟩
  /-- So does the index. -/
  binding : ∀ x s, (x, s) ∈ t.index.bindings → t'.contains x = true → (x, s) ∈ t'.index.bindings
  /-- Every other slot holds what it held. -/
  entryAt : ∀ s, ¬ WorksOn t t' k s → t'.entryAt s = t.entryAt s
  /-- Links have changed near the slot only. -/
  links : ∀ s, t'.nextAt s ≠ t.nextAt s ∨ t'.prevAt s ≠ t.prevAt s →
    ∃ i, WorksOn t t' k i ∧ t.Near ring i s
  /-- Keys other than `k` that are still there are in the order in which they were. -/
  order : ∃ ks ks', t.keysByRecency = .ok ks ∧ t'.keysByRecency = .ok ks' ∧
    ks'.filter (fun x => !(x == k)) = ks.filter fun x => !(x == k) && t'.contains x

/-! ### Links near a slot -/

theorem mem_ends_iff {l : List Nat} : j ∈ ends l ↔ l.head? = some j ∨ l.getLast? = some j := by
  unfold ends
  rw [List.mem_append, Option.mem_toList, Option.mem_toList]

/-- The ring behind a slot that leaves is closed between its neighbours. -/
theorem IsRing.near_of_left {p q : List Nat} (h : t.IsRing (p ++ i :: q))
    (hj : j ∈ ends (q ++ p)) : t.Near (p ++ i :: q) i j := by
  obtain ⟨-, -, hcases⟩ := h.cut
  have hi : i ∈ p ++ i :: q := mem_cut p i q
  rcases hcases with ⟨rfl, rfl, -⟩ | ⟨hl, -, hn, hp, -⟩
  · cases hj
  · rw [mem_ends_iff, List.head?_eq_some_head hl, List.getLast?_eq_some_getLast hl] at hj
    rcases hj with hj | hj
    · exact .next hi (hn.trans hj)
    · exact .prev hi (hp.trans hj)

/-- The slot is put back between the ends of the ring, or next to a neighbour that is an end once it
    has left. -/
theorem IsRing.near_of_put {p q : List Nat} (h : t.IsRing (p ++ i :: q))
    (hj : j ∈ ends (p ++ q)) : t.Near (p ++ i :: q) i j := by
  rcases mem_ends_iff.mp hj with hhead | hlast
  · cases p with
    | nil =>
      apply h.near_of_left
      rw [List.append_nil]
      exact mem_ends_iff.mpr (.inl hhead)
    | cons a p => exact .oldest hhead
  · cases q with
    | nil =>
      apply h.near_of_left
      rw [List.append_nil] at hlast
      exact mem_ends_iff.mpr (.inr hlast)
    | cons b q =>
      refine .youngest ?_
      rw [List.getLast?_append_of_ne_nil _ (List.cons_ne_nil b q)] at hlast
      rw [List.getLast?_append_of_ne_nil _ (List.cons_ne_nil i _), List.getLast?_cons_cons]
      exact hlast

theorem IsRing.near_of_promoted {p q : List Nat} (h : t.IsRing (p ++ i :: q))
    (hj : j ∈ promoted p i q) : t.Near (p ++ i :: q) i j := by
  rcases List.mem_append.mp hj with hj | hj
  · exact h.near_of_left hj
  · rcases List.mem_cons.mp hj with rfl | hj
    · exact .self
    · exact h.near_of_put hj

/-- Slots that are not relinked keep their links, whatever else is written before. -/
theorem Relinked.links_eq {u : Table K V} {l : List Nat} (h : Relinked l u t')
    (hn : ∀ s, u.nextAt s = t.nextAt s) (hp : ∀ s, u.prevAt s = t.prevAt s) (hj : j ∉ l) :
    t'.nextAt j = t.nextAt j ∧ t'.prevAt j = t.prevAt j := by
  rw [← hn, ← hp]
  exact ⟨congrArg (Option.map _) (h.slots j hj), congrArg (Option.map _) (h.slots j hj)⟩

/-! ### Exchanges -/

/-- A call for key `k` that works on slot `i`, said of the rings before and after it. -/
structure Exchange (t t' : Table K V) (ring ring' : List Nat) (k : K) (i : Nat) : Prop where
  /-- The table is tidy before. -/
  before : t.IsTidy ring
  /-- It is tidy afterwards. -/
  after : t'.IsTidy ring'
  /-- The other slots of the ring are the same. -/
  others : ring'.filter (· ≠ i) = ring.filter (· ≠ i)
  /-- The key has the slot before or after. -/
  works : WorksOn t t' k i
  /-- If the slot is in the ring afterwards, it is the slot of the key. -/
  found : i ∈ ring' → t'.index.find? k = some i
  /-- The other slots hold what they held. -/
  entryAt : ∀ s, s ≠ i → t'.entryAt s = t.entryAt s
  /-- The slot does not change the spelling of a key that it keeps. -/
  spelling : i ∈ ring → ∀ e e', t.entryAt i = some e → t'.entryAt i = some e' →
    (e'.key == e.key) = true → e'.key = e.key
  /-- Links change near the slot only. -/
  links : ∀ s, ¬ t.Near ring i s → t'.nextAt s = t.nextAt s ∧ t'.prevAt s = t.prevAt s

/-- The entries of some slots but one, if they are told apart by a test. -/
theorem contents_filter {l : List Nat} {P : Entry K V → Bool}
    (h : ∀ s ∈ l, ∀ e, t.entryAt s = some e → (P e = true ↔ s ≠ i)) :
    (t.contents l).filter P = t.contents (l.filter (· ≠ i)) := by
  unfold contents
  rw [List.filter_filterMap, List.filterMap_filter]
  apply List.filterMap_congr
  intro s hs
  cases he : t.entryAt s with
  | none => simp
  | some e => by_cases hsi : s = i <;> simp [Option.filter, h s hs e he, hsi]

/-- Without a slot that is not there a list is the same. -/
theorem filter_ne_of_notMem {l : List Nat} (h : i ∉ l) : l.filter (· ≠ i) = l :=
  List.filter_eq_self.mpr fun _ hs => decide_eq_true fun heq => h (heq ▸ hs)

/-- Without the slot at some place a ring is what stands on both sides of it. -/
theorem filter_ne_cut {p q : List Nat} (hnd : (p ++ i :: q).Nodup) :
    (p ++ i :: q).filter (· ≠ i) = p ++ q := by
  have hout := (List.nodup_cons.mp (List.perm_middle.nodup_iff.mp hnd)).1
  rw [List.mem_append, not_or] at hout
  rw [List.filter_append, List.filter_cons_of_neg (by simp), filter_ne_of_notMem hout.1,
    filter_ne_of_notMem hout.2]

namespace Exchange

variable [EquivBEq K]

omit [EquivBEq K] in
theorem mem_iff (h : Exchange t t' ring ring' k i) (hj : j ≠ i) : j ∈ ring' ↔ j ∈ ring := by
  have hmem : j ∈ ring'.filter (· ≠ i) ↔ j ∈ ring.filter (· ≠ i) := by rw [h.others]
  simpa [hj] using hmem

/-- The index leads to another slot after the call exactly if it did before. -/
theorem find?_iff (h : Exchange t t' ring ring' k i) (hj : j ≠ i) (x : K) :
    t'.index.find? x = some j ↔ t.index.find? x = some j := by
  have hs := h.before.isPacked.stocked
  have hs' := h.after.isPacked.stocked
  constructor
  · intro hx
    obtain ⟨hmem, e, he, hex⟩ := hs'.of_find? hx
    exact hs.find?_of_beq ((h.mem_iff hj).mp hmem) ((h.entryAt j hj).symm.trans he) hex
  · intro hx
    obtain ⟨hmem, e, he, hex⟩ := hs.of_find? hx
    exact hs'.find?_of_beq ((h.mem_iff hj).mpr hmem) ((h.entryAt j hj).trans he) hex

/-- A key that is there before and after has the slot that it had. -/
theorem slot (h : Exchange t t' ring ring' k i) {x : K} {s : Nat}
    (hx : t.index.find? x = some s) (hx' : t'.contains x = true) :
    t'.index.find? x = some s := by
  unfold contains at hx'
  rw [Index.contains_eq, Option.isSome_iff_exists] at hx'
  obtain ⟨s', hs'⟩ := hx'
  by_cases hsi : s = i
  · by_cases hsi' : s' = i
    · rw [hs', hsi', hsi]
    · -- Another slot would have had the key before.
      have hbefore := (h.find?_iff hsi' x).mp hs'
      rw [hx] at hbefore
      rw [hs', ← hbefore]
  · exact (h.find?_iff hsi x).mpr hx

theorem spelling_slot (h : Exchange t t' ring ring' k i) {x : K} {s : Nat} {e : Entry K V}
    (hx : t.index.find? x = some s) (hx' : t'.contains x = true) (he : t.Holds s e) :
    ∃ v, t'.Holds s ⟨e.key, v⟩ := by
  rw [holds_iff] at he
  by_cases hsi : s = i
  · -- The slot has equal keys before and after, so it has the same.
    subst hsi
    obtain ⟨hmem, e₁, he₁, hex⟩ := h.before.isPacked.stocked.of_find? hx
    obtain ⟨-, e', he', hex'⟩ := h.after.isPacked.stocked.of_find? (h.slot hx hx')
    rw [he] at he₁
    cases he₁
    have hkey := h.spelling hmem e e' he he' (BEq.trans hex' (BEq.symm hex))
    rw [← hkey]
    exact ⟨e'.value, (holds_iff t' s e').mpr he'⟩
  · exact ⟨e.value, (holds_iff t' s e).mpr ((h.entryAt s hsi).trans he)⟩

theorem binding (h : Exchange t t' ring ring' k i) {x : K} {s : Nat}
    (hx : (x, s) ∈ t.index.bindings) (hx' : t'.contains x = true) :
    (x, s) ∈ t'.index.bindings := by
  obtain ⟨hmem, v, hv⟩ := (h.before.isPacked.mem_bindings_iff x s).mp hx
  have hf := h.before.isPacked.stocked.find?_key hmem ((holds_iff t s _).mp hv)
  obtain ⟨hmem', -⟩ := h.after.isPacked.stocked.of_find? (h.slot hf hx')
  exact (h.after.isPacked.mem_bindings_iff x s).mpr ⟨hmem', h.spelling_slot hf hx' hv⟩

/-- The call works on no other slot. -/
theorem eq_of_works (h : Exchange t t' ring ring' k i) (hj : WorksOn t t' k j) : j = i := by
  by_contra hji
  have hboth := h.find?_iff hji k
  have hj' : t.index.find? k = some j ∧ t'.index.find? k = some j := by
    rcases hj with hj | hj
    · exact ⟨hj, hboth.mpr hj⟩
    · exact ⟨hboth.mp hj, hj⟩
  rcases h.works with hi | hi
  · exact hji (Option.some.inj (hj'.1.symm.trans hi))
  · exact hji (Option.some.inj (hj'.2.symm.trans hi))

/-- In the ring after the call the slot is the one whose key is equal to `k`. -/
theorem key_after_iff (h : Exchange t t' ring ring' k i) {s : Nat} {e : Entry K V}
    (hs : s ∈ ring') (he : t'.entryAt s = some e) : (!(e.key == k)) = true ↔ s ≠ i := by
  have hstocked := h.after.isPacked.stocked
  rw [Bool.not_eq_true', ← Bool.not_eq_true, not_iff_not]
  constructor
  · intro hk
    exact h.eq_of_works (.inr (hstocked.find?_of_beq hs he hk))
  · rintro rfl
    obtain ⟨-, e', he', hk⟩ := hstocked.of_find? (h.found hs)
    rw [he] at he'
    cases he'
    exact hk

/-- In the ring before the call it is the one whose key is equal to `k`, or leaves. -/
theorem key_before_iff (h : Exchange t t' ring ring' k i) {s : Nat} {e : Entry K V}
    (hs : s ∈ ring) (he : t.entryAt s = some e) :
    (!(e.key == k) && t'.contains e.key) = true ↔ s ≠ i := by
  have hstocked := h.before.isPacked.stocked
  have hf := hstocked.find?_key hs he
  rw [Bool.and_eq_true, Bool.not_eq_true', ← Bool.not_eq_true]
  constructor
  · rintro ⟨hk, hstays⟩ rfl
    -- A key that stays keeps the slot, and the slot then has `k`.
    obtain ⟨hs', e', he', hek⟩ := h.after.isPacked.stocked.of_find? (h.slot hf hstays)
    have hfound := (h.key_after_iff hs' he').not.mpr (not_not_intro rfl)
    rw [Bool.not_eq_true', Bool.not_eq_false] at hfound
    exact hk (BEq.trans (BEq.symm hek) hfound)
  · intro hsi
    constructor
    · intro hk
      exact hsi (h.eq_of_works (.inl (hstocked.find?_of_beq hs he hk)))
    · unfold contains
      rw [Index.contains_eq, (h.find?_iff hsi e.key).mpr hf]
      rfl

/-- The keys besides `k` that are there before and after have the same order. -/
theorem order (h : Exchange t t' ring ring' k i) :
    ((t'.contents ring').map (·.key)).filter (fun x => !(x == k)) =
      ((t.contents ring).map (·.key)).filter fun x => !(x == k) && t'.contains x := by
  have hafter : (t'.contents ring').filter (fun e => !(e.key == k)) =
      t'.contents (ring'.filter (· ≠ i)) :=
    contents_filter fun s hs e he => h.key_after_iff hs he
  have hbefore : (t.contents ring).filter (fun e => !(e.key == k) && t'.contains e.key) =
      t.contents (ring.filter (· ≠ i)) :=
    contents_filter fun s hs e he => h.key_before_iff hs he
  have hsame : t'.contents (ring.filter (· ≠ i)) = t.contents (ring.filter (· ≠ i)) :=
    contents_congr fun s hs => h.entryAt s (of_decide_eq_true (List.mem_filter.mp hs).2)
  rw [List.filter_map, List.filter_map]
  exact congrArg (List.map _) ((hafter.trans (h.others ▸ hsame)).trans hbefore.symm)

/-- What an exchange leaves alone. -/
theorem confined (h : Exchange t t' ring ring' k i) : Confined t t' ring k where
  unique _ _ hs hs' := (h.eq_of_works hs).trans (h.eq_of_works hs').symm
  slot _ _ hx hx' := h.slot hx hx'
  spelling _ _ _ hx hx' he := h.spelling_slot hx hx' he
  binding _ _ hx hx' := h.binding hx hx'
  entryAt s hs := by
    apply h.entryAt s
    rintro rfl
    exact hs h.works
  links s hs := by
    refine ⟨i, h.works, ?_⟩
    by_contra hnear
    obtain ⟨hn, hp⟩ := h.links s hnear
    exact hs.elim (fun hne => hne hn) fun hne => hne hp
  order :=
    ⟨_, _, keysByRecency_of_isSound h.before.isSound, keysByRecency_of_isSound h.after.isSound,
      h.order⟩

end Exchange

/-! ### Operations -/

/-- A call that changes nothing leaves everything alone. -/
theorem IsTidy.confined_refl (h : t.IsTidy ring) (k : K) : Confined t t ring k where
  unique i j hi hj := by
    unfold WorksOn at hi hj
    rw [or_self] at hi hj
    exact Option.some.inj (hi.symm.trans hj)
  slot _ _ hx _ := hx
  spelling _ _ e _ _ he := ⟨e.value, he⟩
  binding _ _ hx _ := hx
  entryAt _ _ := rfl
  links _ hs := (hs.elim (· rfl) (· rfl)).elim
  order := by
    refine ⟨_, _, keysByRecency_of_isSound h.isSound, keysByRecency_of_isSound h.isSound, ?_⟩
    apply List.filter_congr
    intro x hx
    obtain ⟨e, he, rfl⟩ := List.mem_map.mp hx
    obtain ⟨s, hs, he⟩ := mem_contents.mp he
    have hf := h.isPacked.stocked.find?_key hs he
    unfold contains
    rw [Index.contains_eq, hf]
    simp

variable [EquivBEq K]

/-- Moving a slot to the young end, with or without another value in it. -/
theorem IsTidy.exchange_promoted {u : Table K V} {p q : List Nat} {e e' : Entry K V}
    (h : t.IsTidy (p ++ i :: q)) (h' : t'.IsTidy (p ++ q ++ [i]))
    (hframe : Relinked (promoted p i q) u t') (he : t.entryAt i = some e)
    (he' : u.entryAt i = some e') (hk : (e.key == k) = true) (hkey : e'.key = e.key)
    (hentry : ∀ s, s ≠ i → u.entryAt s = t.entryAt s) (hn : ∀ s, u.nextAt s = t.nextAt s)
    (hp : ∀ s, u.prevAt s = t.prevAt s) :
    Exchange t t' (p ++ i :: q) (p ++ q ++ [i]) k i where
  before := h
  after := h'
  others := by
    rw [filter_ne_cut h.isRing.nodup]
    exact (filter_ne_cut h'.isRing.nodup).trans (List.append_nil _)
  works := .inl (h.isPacked.stocked.find?_of_beq (mem_cut p i q) he hk)
  found hi :=
    h'.isPacked.stocked.find?_of_beq hi ((hframe.entryAt i).trans he') (hkey ▸ hk)
  entryAt s hs := (hframe.entryAt s).trans (hentry s hs)
  spelling _ x y hx hy _ := by
    rw [he] at hx
    rw [hframe.entryAt, he'] at hy
    cases hx
    cases hy
    exact hkey
  links s hs := hframe.links_eq hn hp fun hmem => hs (h.isRing.near_of_promoted hmem)

/-- A slot that is given up. -/
theorem IsTidy.exchange_vacated {p q : List Nat} {e : Entry K V} (h : t.IsTidy (p ++ i :: q))
    (h' : t'.IsTidy (p ++ q)) (hframe : Relinked (ends (q ++ p)) (t.vacated i k) t')
    (he : t.entryAt i = some e) (hk : (e.key == k) = true) :
    Exchange t t' (p ++ i :: q) (p ++ q) k i := by
  have hout : i ∉ p ++ q := h.isRing.cut.1 ∘ List.perm_append_comm.mem_iff.mp
  have hvacant : t'.entryAt i = none :=
    (hframe.entryAt i).trans (entryAt_vacated_self (h.lt_capacity (mem_cut p i q)) k)
  refine ⟨h, h', ?_, ?_, fun hi => absurd hi hout, ?_, ?_, ?_⟩
  · rw [filter_ne_cut h.isRing.nodup, filter_ne_of_notMem hout]
  · exact .inl (h.isPacked.stocked.find?_of_beq (mem_cut p i q) he hk)
  · intro s hs
    exact (hframe.entryAt s).trans (entryAt_vacated_ne hs k)
  · intro _ x y _ hy _
    rw [hvacant] at hy
    cases hy
  · intro s hs
    exact hframe.links_eq (fun s => nextAt_putEntry _ i s none)
      (fun s => prevAt_putEntry _ i s none) fun hmem => hs (h.isRing.near_of_left hmem)

/-- An entry that makes room for one under another key. -/
theorem IsTidy.exchange_displaced {q : List Nat} {e : Entry K V} {v : V} (h : t.IsTidy (i :: q))
    (h' : t'.IsTidy (q ++ [i])) (hframe : Relinked (promoted [] i q) (t.displaced i e k v) t')
    (he : t.entryAt i = some e) (hk : t.index.find? k = none) :
    t'.entryAt i = some ⟨k, v⟩ ∧ Exchange t t' (i :: q) (q ++ [i]) k i := by
  have hi : i ∈ i :: q := List.mem_cons_self
  have hnew : t'.entryAt i = some ⟨k, v⟩ :=
    (hframe.entryAt i).trans (entryAt_displaced_self (h.lt_capacity hi) e k v)
  have hfound : i ∈ q ++ [i] → t'.index.find? k = some i := fun hi' =>
    h'.isPacked.stocked.find?_of_beq hi' hnew BEq.rfl
  refine ⟨hnew, h, h', ?_, ?_, hfound, ?_, ?_, ?_⟩
  · have hbefore := filter_ne_cut (p := []) h.isRing.nodup
    have hafter := filter_ne_cut (q := []) h'.isRing.nodup
    rw [List.append_nil] at hafter
    exact hafter.trans hbefore.symm
  · exact .inr (hfound (List.mem_append_right q List.mem_cons_self))
  · intro s hs
    exact (hframe.entryAt s).trans (entryAt_displaced_ne hs e k v)
  · -- The old key and the new one are unequal, so the slot keeps no key.
    intro _ x y hx hy hxy
    rw [he] at hx
    rw [hnew] at hy
    cases hx
    cases hy
    rw [h.isPacked.stocked.beq_eq_false_of_none hk hi he] at hxy
    cases hxy
  · intro s hs
    exact hframe.links_eq (fun s => nextAt_putEntry t i s _) (fun s => prevAt_putEntry t i s _)
      fun hmem => hs (IsRing.near_of_promoted (p := []) h.isRing hmem)

/-- A slot that was not in use. -/
theorem IsTidy.exchange_stocked {v : V} (h : t.IsTidy ring) (h' : t'.IsTidy (ring ++ [t.newSlot]))
    (hframe : Relinked (t.newSlot :: ends ring) (t.stocked k v) t')
    (hroom : t.size < t.capacity) (hout : t.newSlot ∉ ring) :
    Exchange t t' ring (ring ++ [t.newSlot]) k t.newSlot := by
  have hnew : t'.entryAt t.newSlot = some ⟨k, v⟩ :=
    (hframe.entryAt _).trans (entryAt_stocked_self (h.isPacked.stocked.newSlot_lt hroom) k v)
  have hfound : t.newSlot ∈ ring ++ [t.newSlot] → t'.index.find? k = some t.newSlot := fun hi =>
    h'.isPacked.stocked.find?_of_beq hi hnew BEq.rfl
  refine ⟨h, h', ?_, ?_, hfound, ?_, fun hi => absurd hi hout, ?_⟩
  · rw [filter_ne_cut h'.isRing.nodup, List.append_nil, filter_ne_of_notMem hout]
  · exact .inr (hfound (List.mem_append_right ring List.mem_cons_self))
  · intro s hs
    exact (hframe.entryAt s).trans (entryAt_stocked_ne hs k v)
  · intro s hs
    apply hframe.links_eq (fun s => nextAt_putEntry (t.putFree _) _ s _)
      fun s => prevAt_putEntry (t.putFree _) _ s _
    intro hmem
    rcases List.mem_cons.mp hmem with rfl | hmem
    · exact hs .self
    · exact hs ((mem_ends_iff.mp hmem).elim .oldest .youngest)

theorem IsTidy.lookup_confined (h : t.IsTidy ring) (k : K) :
    ∃ a t', lookup k t = .ok a t' ∧ Confined t t' ring k := by
  rcases h.lookup_cases k with ⟨-, hrun⟩ | ⟨p, i, q, e, t', rfl, he, hk, hrun, htidy, hframe⟩
  · exact ⟨none, t, hrun, h.confined_refl k⟩
  · have hexchange := h.exchange_promoted htidy hframe he he hk rfl (fun _ _ => rfl)
      (fun _ => rfl) fun _ => rfl
    exact ⟨_, t', hrun, hexchange.confined⟩

theorem IsTidy.remove_confined (h : t.IsTidy ring) (k : K) :
    ∃ a t', remove k t = .ok a t' ∧ Confined t t' ring k := by
  rcases h.remove_cases k with ⟨-, hrun⟩ | ⟨p, i, q, e, t', rfl, he, hk, hrun, htidy, hframe⟩
  · exact ⟨none, t, hrun, h.confined_refl k⟩
  · exact ⟨_, t', hrun, (h.exchange_vacated htidy hframe he hk).confined⟩

/-- An entry that makes room leaves its slot to the new one. -/
def HandsOver (t t' : Table K V) (k : K) (v : V) (old : Entry K V) : Prop :=
  ∃ i, t.index.find? old.key = some i ∧ t.Holds i old ∧ t'.index.find? k = some i ∧
    t'.Holds i ⟨k, v⟩

theorem IsTidy.insert_confined (h : t.IsTidy ring) (k : K) (v : V) :
    ∃ a t', insert k v t = .ok a t' ∧ Confined t t' ring k ∧
      ∀ x y, a = .evicted x y → HandsOver t t' k v ⟨x, y⟩ := by
  rcases h.insert_cases k v with
    ⟨p, i, q, e, t', rfl, he, hk, hrun, htidy, hframe⟩ |
    ⟨i, q, e, t', rfl, he, hk, -, hrun, htidy, hframe⟩ |
    ⟨t', hk, hroom, hout, hrun, htidy, hframe⟩
  · have hexchange := h.exchange_promoted htidy hframe he
      (entryAt_putEntry_self (h.lt_capacity (mem_cut p i q)) _) hk rfl
      (fun s hs => entryAt_putEntry_ne t hs _) (fun s => nextAt_putEntry t i s _)
      fun s => prevAt_putEntry t i s _
    refine ⟨_, t', hrun, hexchange.confined, ?_⟩
    intro x y hxy
    cases hxy
  · obtain ⟨hnew, hexchange⟩ := h.exchange_displaced htidy hframe he hk
    refine ⟨_, t', hrun, hexchange.confined, ?_⟩
    intro x y hxy
    cases hxy
    have hold := h.isPacked.stocked.find?_key List.mem_cons_self he
    have hfound := hexchange.found (List.mem_append_right q List.mem_cons_self)
    exact ⟨i, hold, (holds_iff t i e).mpr he, hfound, (holds_iff t' i _).mpr hnew⟩
  · refine ⟨_, t', hrun, (h.exchange_stocked htidy hframe hroom hout).confined, ?_⟩
    intro x y hxy
    cases hxy

/-! ### After every history -/

/-- Whatever history a new table has, a further call for a key is served and confined to one slot:
    no other key moves to another slot or is spelled otherwise, no other slot holds anything else,
    links change next to the slot and at the ends of the ring, and the other keys keep their order.
    Storing with an eviction puts the new key where the old one was. A key that is not there is
    looked up and removed without any change. -/
theorem calls_are_confined [OwnsMemory V] {capacity indexSize : Nat} {t₀ : Table K V}
    (h : ofSizes capacity indexSize = .ok t₀) (rs : List (Request K V)) :
    ∃ answers t ring, run rs t₀ = .ok answers t ∧ t.IsRing ring ∧ ∀ k : K,
      (∀ v, ∃ a t', insert k v t = .ok a t' ∧ Confined t t' ring k ∧
        ∀ x y, a = .evicted x y → HandsOver t t' k v ⟨x, y⟩) ∧
      (∃ a t', lookup k t = .ok a t' ∧ Confined t t' ring k) ∧
      (∃ a t', remove k t = .ok a t' ∧ Confined t t' ring k) ∧
      (t.contains k = false → lookup k t = .ok none t ∧ remove k t = .ok none t) := by
  obtain ⟨answers, t, ring, hrun, ht⟩ := (ofSizes_isAccounted h).run rs
  have htidy := ht.isTidy
  refine ⟨answers, t, ring, hrun, htidy.isRing, ?_⟩
  intro k
  refine ⟨htidy.insert_confined k, htidy.lookup_confined k, htidy.remove_confined k, ?_⟩
  intro hk
  have hnone := (contains_eq_false_iff t k).mp hk
  exact ⟨lookup_none hnone, remove_none hnone⟩

/-- A third key comes to a full table: it takes the slot of the first one, and the second one keeps its
    own. -/
theorem calls_are_confined_full :
    ofSizes 2 1 = .ok (fresh 2 : Table Nat Nat) ∧
      ∃ answers t t', run [.insert 1 10, .insert 2 20] (fresh 2) = .ok answers t ∧
        insert 3 30 t = .ok (.evicted 1 10) t' ∧
        HandsOver t t' 3 30 (⟨1, 10⟩ : Entry Nat Nat) ∧ t'.index.find? 2 = some 1 := by
  have hnew : ofSizes 2 1 = .ok (fresh 2 : Table Nat Nat) := rfl
  have hfirst : handle (.insert 1 10) (fresh 2) = .ok (.stored .inserted)
      (⟨#[⟨some ⟨1, 10⟩, 0, 0⟩, {}], Index.empty.insert 1 0, [], some 0⟩ : Table Nat Nat) := rfl
  have hserved : run [.insert 1 10, .insert 2 20] (fresh 2) =
      .ok [.stored .inserted, .stored .inserted]
        (⟨#[⟨some ⟨1, 10⟩, 1, 1⟩, ⟨some ⟨2, 20⟩, 0, 0⟩],
          (Index.empty.insert 1 0).insert 2 1, [], some 0⟩ : Table Nat Nat) :=
    run_cons hfirst (run_cons rfl rfl)
  have hevicted : insert 3 30 (⟨#[⟨some ⟨1, 10⟩, 1, 1⟩, ⟨some ⟨2, 20⟩, 0, 0⟩],
      (Index.empty.insert 1 0).insert 2 1, [], some 0⟩ : Table Nat Nat) =
      .ok (.evicted 1 10) ⟨#[⟨some ⟨3, 30⟩, 1, 1⟩, ⟨some ⟨2, 20⟩, 0, 0⟩],
        (((Index.empty.insert 1 0).insert 2 1).erase 1).insert 3 0, [], some 1⟩ := rfl
  obtain ⟨answers, t, ring, hrun, -, hcalls⟩ :=
    calls_are_confined hnew [.insert 1 10, .insert 2 20]
  rw [hserved] at hrun
  cases hrun
  obtain ⟨a, t', hinsert, hconfined, hhands⟩ := (hcalls 3).1 30
  rw [hevicted] at hinsert
  cases hinsert
  exact ⟨hnew, _, _, _, hserved, hevicted, hhands 1 10 rfl, hconfined.slot 2 1 rfl rfl⟩

end RecencyCache.Table
