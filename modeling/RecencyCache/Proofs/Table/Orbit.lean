import Mathlib.Dynamics.PeriodicPts.Defs
import RecencyCache.Proofs.Table.Verdict

/-! # Listing the keys of a damaged table

  The listing follows the forward links alone, wherever they lead, until it
  is back at the slot where it started. What it meets is the orbit of that
  slot (`visit`): it closes to a circle, or it runs into a circle that leaves
  the start out, or it breaks off at a number that is no slot.

  - **What is read** on the way is said once for a listing from any slot
    (`Lists`): its keys are those of the first slots of the orbit, and it has
    not met the start again before its end.
  - **The cut-off** at one key more than there are slots is never too early:
    before the orbit is back at its start, its slots are different, so there
    are at most as many as slots in the array. It is not too late either: a
    listing of that many keys has met a slot twice, and the start only once.
-/

namespace RecencyCache.Table

variable {K V : Type} [BEq K] {t : Table K V} {start most i : Nat} {keys : List K}

/-! ### Orbits -/

/-- The number that a slot links forward to, if there is such a slot. -/
def ahead (t : Table K V) (slot : Option Nat) : Option Nat := slot.bind t.nextAt

/-- The number that the links lead to from the oldest slot in `n` steps, if they lead so far. -/
def visit (t : Table K V) (n : Nat) : Option Nat := t.ahead^[n] t.oldest

/-- Before the first return to its start an orbit does not meet a slot twice. -/
theorem isLeast_minimalPeriod {n : Nat} (hpos : 0 < n) (hn : t.visit n = t.oldest) :
    IsLeast {n | 0 < n ∧ t.visit n = t.oldest} (Function.minimalPeriod t.ahead t.oldest) := by
  have hperiodic : Function.IsPeriodicPt t.ahead n t.oldest := hn
  constructor
  · exact ⟨hperiodic.minimalPeriod_pos hpos, Function.isPeriodicPt_minimalPeriod _ _⟩
  · intro m hm
    have hm' : Function.IsPeriodicPt t.ahead m t.oldest := hm.2
    exact hm'.minimalPeriod_le hm.1

theorem injOn_visit {p : Nat} (hp : IsLeast {n | 0 < n ∧ t.visit n = t.oldest} p) :
    Set.InjOn t.visit (Set.Iio p) := by
  rw [hp.unique (isLeast_minimalPeriod hp.1.1 hp.1.2)]
  exact Function.iterate_injOn_Iio_minimalPeriod

/-! ### What is read -/

/-- The listing from slot `i` on has read `keys`: of `most` keys at most, and not past `start`. -/
structure Lists (t : Table K V) (start most i : Nat) (keys : List K) : Prop where
  /-- Each key is that of the slot to which as many links lead. -/
  held : ∀ n k, keys[n]? = some k → ∃ j v, t.ahead^[n] (some i) = some j ∧ t.Holds j ⟨k, v⟩
  /-- There are not too many. -/
  length_le : keys.length ≤ most
  /-- The links have not led to the start before the last key. -/
  away : ∀ n, 0 < n → n < keys.length → t.ahead^[n] (some i) ≠ some start
  /-- They do so after it, unless there are enough keys. -/
  stopped : keys.length = most ∨ 0 < keys.length ∧ t.ahead^[keys.length] (some i) = some start

/-- One step of an orbit that is followed from a slot on. -/
theorem iterate_ahead_succ {j : Nat} (hj : t.nextAt i = some j) (n : Nat) :
    t.ahead^[n + 1] (some i) = t.ahead^[n] (some j) := by
  rw [Function.iterate_succ_apply, ← hj]
  rfl

/-- Without any key read, nothing was met. -/
theorem lists_nil (t : Table K V) (start i : Nat) : t.Lists start 0 i [] := by
  constructor <;> simp

/-- A slot that links to the start is the last one. -/
theorem lists_last {e : Entry K V} (hj : t.nextAt i = some start) (he : t.entryAt i = some e)
    (most : Nat) : t.Lists start (most + 1) i [e.key] where
  held n k hk := by
    have hn : n = 0 := by
      have hlt := (List.getElem?_eq_some_iff.mp hk).1
      simpa using hlt
    subst hn
    obtain rfl : e.key = k := Option.some.inj hk
    exact ⟨i, e.value, rfl, (holds_iff t i e).mpr he⟩
  length_le := by simp
  away n hpos hn := by
    simp only [List.length_singleton] at hn
    omega
  stopped := .inr ⟨by simp, iterate_ahead_succ hj 0⟩

/-- Before the keys from the next slot on comes the one of the slot itself. -/
theorem Lists.cons {j : Nat} {e : Entry K V} (h : t.Lists start most j keys)
    (hj : t.nextAt i = some j) (hne : j ≠ start) (he : t.entryAt i = some e) :
    t.Lists start (most + 1) i (e.key :: keys) where
  held n k hk := by
    cases n with
    | zero =>
      obtain rfl : e.key = k := Option.some.inj hk
      exact ⟨i, e.value, rfl, (holds_iff t i e).mpr he⟩
    | succ n =>
      rw [iterate_ahead_succ hj]
      exact h.held n k hk
  length_le := by simpa using h.length_le
  away n hpos hn := by
    obtain ⟨m, rfl⟩ := Nat.exists_eq_add_of_le' hpos
    rw [iterate_ahead_succ hj]
    by_cases hm : m = 0
    · subst hm
      simpa using hne
    · apply h.away m (by omega)
      simpa using hn
  stopped := by
    simp only [List.length_cons, iterate_ahead_succ hj]
    rcases h.stopped with hfull | ⟨-, hback⟩
    · exact .inl (by omega)
    · exact .inr ⟨by omega, hback⟩

/-- A listing that ends well has read the keys on its way. -/
theorem lists_of_keysFrom (h : t.keysFrom start most i = .ok keys) :
    t.Lists start most i keys := by
  induction most generalizing i keys with
  | zero =>
    cases h
    exact lists_nil t start i
  | succ most ih =>
    have hfirst := h
    unfold keysFrom at hfirst
    obtain ⟨e, hentry, -⟩ := ok_of_bind hfirst
    have he := (entry_eq_ok_iff t i e).mp hentry
    obtain ⟨j, hj⟩ := exists_nextAt (lt_capacity_of_entryAt he)
    rw [keysFrom_succ hj he] at h
    by_cases hstart : j = start
    · subst hstart
      rw [if_pos rfl] at h
      cases h
      exact lists_last hj he most
    · rw [if_neg hstart] at h
      cases hrest : t.keysFrom start most j with
      | error fault =>
        rw [hrest] at h
        cases h
      | ok rest =>
        rw [hrest] at h
        cases h
        exact (ih hrest).cons hj hstart he

/-- A listing that faults has come to a number without an entry, not past the start. -/
theorem orbit_of_fault {fault : Fault} (h : t.keysFrom start most i = .error fault) :
    ∃ n < most, ∃ j, t.ahead^[n] (some i) = some j ∧ t.entryAt j = none ∧
      ∀ m, 0 < m → m ≤ n → t.ahead^[m] (some i) ≠ some start := by
  induction most generalizing i with
  | zero => cases h
  | succ most ih =>
    cases he : t.entryAt i with
    | none =>
      refine ⟨0, by omega, i, rfl, he, ?_⟩
      intro m hpos hm
      omega
    | some e =>
      obtain ⟨j, hj⟩ := exists_nextAt (lt_capacity_of_entryAt he)
      rw [keysFrom_succ hj he] at h
      by_cases hstart : j = start
      · rw [if_pos hstart] at h
        cases h
      · rw [if_neg hstart] at h
        cases hrest : t.keysFrom start most j with
        | ok rest =>
          rw [hrest] at h
          cases h
        | error fault' =>
          rw [hrest] at h
          cases h
          obtain ⟨n, hn, k, hk, hnone, haway⟩ := ih hrest
          refine ⟨n + 1, by omega, k, (iterate_ahead_succ hj n).trans hk, hnone, ?_⟩
          intro m hpos hm
          obtain ⟨m, rfl⟩ := Nat.exists_eq_add_of_le' hpos
          rw [iterate_ahead_succ hj]
          by_cases hzero : m = 0
          · subst hzero
            simpa using hstart
          · exact haway m (by omega) (by omega)

/-! ### From the oldest slot on -/

/-- The listing of a table reads slot `i` after `n` steps, unless it has faulted before. -/
structure Reads (t : Table K V) (n i : Nat) : Prop where
  /-- The links lead there. -/
  visit : t.visit n = some i
  /-- It is not past the cut-off. -/
  within : n ≤ t.capacity
  /-- The links have not led back to the start before. -/
  away : ∀ m, 0 < m → m ≤ n → t.visit m ≠ t.oldest

theorem visit_eq (ho : t.oldest = some start) :
    t.visit = fun n => t.ahead^[n] (some start) := by
  funext n
  unfold visit
  rw [ho]

theorem keysByRecency_eq (ho : t.oldest = some start) :
    t.keysByRecency = t.keysFrom start (t.capacity + 1) start := by
  unfold keysByRecency
  rw [ho]

/-- Slots that are all different and hold entries are at most as many as there are slots. -/
theorem Lists.length_le_capacity (h : t.Lists start most i keys)
    (hinj : Set.InjOn (fun n => t.ahead^[n] (some i)) (Set.Iio keys.length)) :
    keys.length ≤ t.capacity := by
  have hmaps : Set.MapsTo (fun n => t.ahead^[n] (some i)) (Finset.range keys.length)
      ((Finset.range t.capacity).image some) := by
    intro n hn
    simp only [Finset.coe_range, Set.mem_Iio] at hn
    obtain ⟨j, v, hj, hheld⟩ := h.held n _ (List.getElem?_eq_getElem hn)
    have hlt := lt_capacity_of_entryAt ((holds_iff t j _).mp hheld)
    simp [hj, hlt]
  have hcard := Finset.card_le_card_of_injOn _ hmaps (by simpa using hinj)
  have himage := Finset.card_image_le (s := Finset.range t.capacity) (f := some)
  simp only [Finset.card_range] at hcard himage
  omega

/-- If the links lead back to the start, the listing ends there, before the cut-off. -/
theorem Lists.length_of_return (h : t.Lists start (t.capacity + 1) start keys)
    (ho : t.oldest = some start) {p : Nat}
    (hp : IsLeast {n | 0 < n ∧ t.visit n = t.oldest} p) :
    keys.length = p ∧ p ≤ t.capacity := by
  obtain ⟨hpos, hback⟩ := hp.1
  rw [visit_eq ho, ho] at hback
  have hle : keys.length ≤ p := by
    by_contra hgt
    exact h.away p hpos (by omega) hback
  -- The start is not met again before, so all slots that were read are different.
  have hinj := (injOn_visit hp).mono (Set.Iio_subset_Iio hle)
  rw [visit_eq ho] at hinj
  have hcap := h.length_le_capacity hinj
  rcases h.stopped with hfull | ⟨hkeys, hreturn⟩
  · omega
  · have hp' : p ≤ keys.length := by
      apply hp.2
      show 0 < keys.length ∧ t.visit keys.length = t.oldest
      rw [visit_eq ho, ho]
      exact ⟨hkeys, hreturn⟩
    omega

/-- The cut-off is reached only by a listing that would never end. -/
theorem Lists.length_eq_iff (h : t.Lists start (t.capacity + 1) start keys)
    (ho : t.oldest = some start) :
    keys.length = t.capacity + 1 ↔ ∀ n, 0 < n → t.visit n ≠ t.oldest := by
  constructor
  · intro hfull n hpos hn
    obtain ⟨hlen, hcap⟩ := h.length_of_return ho (isLeast_minimalPeriod hpos hn)
    omega
  · intro hnever
    rcases h.stopped with hfull | ⟨hkeys, hreturn⟩
    · exact hfull
    · rw [visit_eq ho, ho] at hnever
      exact absurd hreturn (hnever _ hkeys)

/-- A number has no entry if it is past the end of the array, or that of a vacant slot. -/
theorem entryAt_eq_none_iff (t : Table K V) (i : Nat) :
    t.entryAt i = none ↔ t.capacity ≤ i ∨ t.Vacant i := by
  rw [vacant_iff]
  by_cases hi : i < t.capacity
  · simp [hi]
  · simp [Nat.not_lt.mp hi, entryAt_of_le]

/-- A listing faults if it comes to a slot that is not there or vacant, and only then. -/
theorem fault_iff_reads (ho : t.oldest = some start) :
    (∃ fault, t.keysByRecency = .error fault) ↔ ∃ n i, t.Reads n i ∧ t.entryAt i = none := by
  rw [keysByRecency_eq ho]
  constructor
  · rintro ⟨fault, h⟩
    obtain ⟨n, hn, i, hi, hnone, haway⟩ := orbit_of_fault h
    refine ⟨n, i, ⟨?_, by omega, ?_⟩, hnone⟩
    · rw [visit_eq ho]
      exact hi
    · rw [visit_eq ho, ho]
      exact haway
  · rintro ⟨n, i, hreads, hnone⟩
    have hvisit := hreads.visit
    have haway := hreads.away
    have hwithin := hreads.within
    rw [visit_eq ho] at hvisit haway
    cases h : t.keysFrom start (t.capacity + 1) start with
    | error fault => exact ⟨fault, rfl⟩
    | ok keys =>
      exfalso
      have hlists := lists_of_keysFrom h
      by_cases hn : n < keys.length
      · -- A key was read there, so there is an entry.
        obtain ⟨j, v, hj, hheld⟩ := hlists.held n _ (List.getElem?_eq_getElem hn)
        obtain rfl : i = j := Option.some.inj (hvisit.symm.trans hj)
        rw [holds_iff, hnone] at hheld
        cases hheld
      · -- The listing has ended before, but neither at the start nor at the cut-off.
        rcases hlists.stopped with hfull | ⟨hkeys, hreturn⟩
        · omega
        · rw [ho] at haway
          exact haway _ hkeys (by omega) hreturn

/-- On every table that has an oldest slot, the listing reads one slot more than there are at the
    most. It faults if it comes to a slot that is not there or vacant, and only then. Otherwise its
    keys are those of the slots that the links lead to, one after the other. If the links lead back
    to the start, then for the first time after as many steps as there are keys, and the keys are
    those of different slots. If they never do, and only then, there is one key more than slots. -/
theorem keysByRecency_of_links (ho : t.oldest = some start) :
    ((∃ fault, t.keysByRecency = .error fault) ↔
      ∃ n i, t.Reads n i ∧ (t.capacity ≤ i ∨ t.Vacant i)) ∧
    ∀ keys, t.keysByRecency = .ok keys →
      keys.length ≤ t.capacity + 1 ∧
      (∀ n k, keys[n]? = some k → ∃ i v, t.visit n = some i ∧ t.Holds i ⟨k, v⟩) ∧
      (∀ p, IsLeast {n | 0 < n ∧ t.visit n = t.oldest} p →
        keys.length = p ∧ p ≤ t.capacity ∧ Set.InjOn t.visit (Set.Iio p)) ∧
      (keys.length = t.capacity + 1 ↔ ∀ n, 0 < n → t.visit n ≠ t.oldest) := by
  constructor
  · simp only [fault_iff_reads ho, entryAt_eq_none_iff]
  · intro keys h
    rw [keysByRecency_eq ho] at h
    have hlists := lists_of_keysFrom h
    refine ⟨hlists.length_le, ?_, ?_, hlists.length_eq_iff ho⟩
    · rw [visit_eq ho]
      exact hlists.held
    · intro p hp
      obtain ⟨hlen, hcap⟩ := hlists.length_of_return ho hp
      exact ⟨hlen, hcap, injOn_visit hp⟩

/-- Slots 1 and 2 link to each other, and slot 0 to slot 1: with three slots the listing ends after
    four keys. -/
theorem keysByRecency_of_links_rho :
    ∃ t : Table Nat Nat,
      t = ⟨#[⟨some ⟨5, 50⟩, 1, 2⟩, ⟨some ⟨6, 60⟩, 2, 0⟩, ⟨some ⟨7, 70⟩, 1, 1⟩],
        ((Index.empty.insert 5 0).insert 6 1).insert 7 2, [], some 0⟩ ∧
      t.oldest = some 0 ∧ t.keysByRecency = .ok [5, 6, 7, 6] ∧
      (∀ n i, t.Reads n i → ¬ t.Vacant i) ∧ ∀ n, 0 < n → t.visit n ≠ t.oldest := by
  let t : Table Nat Nat := ⟨#[⟨some ⟨5, 50⟩, 1, 2⟩, ⟨some ⟨6, 60⟩, 2, 0⟩, ⟨some ⟨7, 70⟩, 1, 1⟩],
    ((Index.empty.insert 5 0).insert 6 1).insert 7 2, [], some 0⟩
  have hkeys : t.keysByRecency = .ok [5, 6, 7, 6] := rfl
  obtain ⟨hfault, hread⟩ := keysByRecency_of_links (t := t) rfl
  obtain ⟨-, -, -, hnever⟩ := hread _ hkeys
  refine ⟨t, rfl, rfl, hkeys, ?_, hnever.mp rfl⟩
  intro n i hreads hvacant
  obtain ⟨fault, herror⟩ := hfault.mpr ⟨n, i, hreads, .inr hvacant⟩
  rw [hkeys] at herror
  cases herror

end RecencyCache.Table
