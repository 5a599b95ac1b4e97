import RecencyCache.Proofs.Cache.Steps
import RecencyCache.Proofs.Queue

/-! # What requests do to a queue

  Requests with the same action (`Cache.Action`) differ in their answers
  only.

  - A queue that came about by actions is `Proper`: its keys are distinct,
    and its entries fit.
  - An entry that is looked up or stored goes to the end, and what then does
    not fit leaves from the front. One equation says so for both
    (`act_find_of_some`, `act_store`).
  - What an action adds to the counters of a cache follows from the queue that
    it meets (`counts`). `tally` is where the counters are after a history.
-/

namespace RecencyCache.Queue

open Cache (Action Request)

variable {K V : Type} [BEq K] {q : Queue K V} {k : K} {e : Entry K V}

/-- The queue after an action. -/
def act (q : Queue K V) : Action K V → Queue K V
  | .find k => (q.lookup k).2
  | .store k v => (q.store k v).2
  | .drop k => (q.remove k).2
  | .dropAll => q.clear
  | .recount | .read => q

theorem handle_eq_act [Inhabited V] (r : Request K V) (q : Queue K V) :
    (q.handle r).2 = q.act r.action := by
  cases r with
  | setOrDelete k o => cases o <;> rfl
  | _ => rfl

/-- The queue after one action after the other. -/
def after (q : Queue K V) (as : List (Action K V)) : Queue K V := as.foldl act q

theorem after_concat (q : Queue K V) (as : List (Action K V)) (a : Action K V) :
    q.after (as ++ [a]) = (q.after as).act a := by
  unfold after
  rw [List.foldl_append]
  rfl

theorem after_append (q : Queue K V) (as bs : List (Action K V)) :
    q.after (as ++ bs) = (q.after as).after bs :=
  List.foldl_append

theorem run_eq_after [Inhabited V] (rs : List (Request K V)) (q : Queue K V) :
    (q.run rs).2 = q.after (rs.map (·.action)) := by
  induction rs generalizing q with
  | nil => rfl
  | cons r rs ih =>
    show ((q.handle r).2.run rs).2 = (q.act r.action).after _
    rw [ih, handle_eq_act]

theorem capacity_act (q : Queue K V) (a : Action K V) : (q.act a).capacity = q.capacity := by
  cases a with
  | find k => exact capacity_lookup q k
  | store k v => exact capacity_store q k v
  | drop k => exact capacity_remove q k
  | _ => rfl

theorem capacity_after (q : Queue K V) (as : List (Action K V)) :
    (q.after as).capacity = q.capacity := by
  induction as generalizing q with
  | nil => rfl
  | cons a as ih => exact (ih _).trans (capacity_act q a)

/-! ### Queues that come about -/

/-- A queue with distinct keys, which has room and does not exceed it. -/
structure Proper (q : Queue K V) : Prop where
  /-- No two entries are under equal keys. -/
  distinct : q.entries.Pairwise fun x y => (x.key == y.key) = false
  /-- There are no more entries than fit. -/
  fits : q.entries.length ≤ q.capacity
  /-- At least one entry fits. -/
  room : 1 ≤ q.capacity

theorem proper_empty {capacity : Nat} (h : 1 ≤ capacity) :
    (empty capacity : Queue K V).Proper :=
  ⟨.nil, Nat.zero_le _, h⟩

/-- The queue with an entry at its end that takes the place of the one under `k`. From the front
    leaves what does not fit. -/
def raise (q : Queue K V) (k : K) (e : Entry K V) : Queue K V :=
  { q with entries := (q.without k).drop ((q.without k).length + 1 - q.capacity) ++ [e] }

theorem mem_of_find? (h : q.find? k = some e) : e ∈ q.entries := List.mem_of_find?_eq_some h

theorem key_of_find? (h : q.find? k = some e) : (e.key == k) = true := by
  unfold find? at h
  have hkey := List.find?_some h
  exact hkey

theorem without_of_none (h : q.find? k = none) : q.without k = q.entries := by
  apply List.filter_eq_self.mpr
  intro x hx
  have hne := List.find?_eq_none.mp h x hx
  rw [Bool.eq_false_iff.mpr hne]
  rfl

theorem length_without_lt (h : q.find? k = some e) : (q.without k).length < q.entries.length := by
  apply List.length_filter_lt_length_iff_exists.mpr
  refine ⟨e, mem_of_find? h, ?_⟩
  rw [key_of_find? h]
  decide

theorem mem_without {x : Entry K V} : x ∈ q.without k ↔ x ∈ q.entries ∧ (x.key == k) = false := by
  unfold without
  rw [List.mem_filter, Bool.not_eq_true']

namespace Proper

/-- Nothing has to leave for an entry that was there. -/
theorem drop_without (h : q.Proper) (hk : q.find? k = some e) :
    (q.without k).drop ((q.without k).length + 1 - q.capacity) = q.without k := by
  have hlt := length_without_lt hk
  have hfits := h.fits
  have hzero : (q.without k).length + 1 - q.capacity = 0 := by omega
  rw [hzero, List.drop_zero]

theorem act_find_of_some (h : q.Proper) (hk : q.find? k = some e) :
    q.act (.find k) = q.raise k e := by
  show (q.lookup k).2 = _
  unfold lookup raise
  rw [hk, h.drop_without hk]

theorem act_store (h : q.Proper) (k : K) (v : V) :
    q.act (.store k v) = q.raise k ⟨((q.find? k).map (·.key)).getD k, v⟩ := by
  show (q.store k v).2 = _
  unfold store raise
  cases hk : q.find? k with
  | some e =>
    rw [h.drop_without hk]
    rfl
  | none =>
    -- Nothing is under `k`, so the front loses one entry or none, by whether the queue is full.
    rw [without_of_none hk]
    have hfits := h.fits
    by_cases hroom : q.entries.length < q.capacity
    · have hzero : q.entries.length + 1 - q.capacity = 0 := by omega
      simp only [hroom, hzero, if_true, List.drop_zero]
      rfl
    · have hone : q.entries.length + 1 - q.capacity = 1 := by omega
      simp only [hroom, hone, if_false, List.drop_one]
      rfl

end Proper

theorem act_find_of_none (h : q.find? k = none) : q.act (.find k) = q := by
  show (q.lookup k).2 = q
  unfold lookup
  rw [h]

theorem act_drop (q : Queue K V) (k : K) : q.act (.drop k) = { q with entries := q.without k } := by
  show (q.remove k).2 = _
  unfold remove
  cases hk : q.find? k with
  | some e => rfl
  | none => rw [without_of_none hk]

/-- The key that a value is stored under is equal to the given one. -/
theorem key_stored [ReflBEq K] (q : Queue K V) (k : K) :
    (((q.find? k).map (·.key)).getD k == k) = true := by
  cases hk : q.find? k with
  | some e => exact key_of_find? hk
  | none => exact BEq.rfl

namespace Proper

variable [EquivBEq K]

theorem raise (h : q.Proper) (he : (e.key == k) = true) : (q.raise k e).Proper where
  distinct := by
    have hrest := h.distinct.filter fun x => !(x.key == k)
    unfold Queue.raise
    rw [List.pairwise_append]
    refine ⟨hrest.sublist (List.drop_sublist _ _), List.pairwise_singleton _ _, ?_⟩
    intro x hx y hy
    -- An entry under the key of `e` would be under `k`, and those are gone.
    rw [List.mem_singleton.mp hy, Bool.eq_false_iff]
    intro hxe
    have hne := (mem_without.mp (List.mem_of_mem_drop hx)).2
    rw [BEq.trans hxe he] at hne
    cases hne
  fits := by
    have hroom := h.room
    unfold Queue.raise
    rw [List.length_append, List.length_drop, List.length_singleton]
    dsimp only
    omega
  room := h.room

/-- Every action keeps a queue proper. -/
theorem act (h : q.Proper) (a : Action K V) : (q.act a).Proper := by
  cases a with
  | find k =>
    cases hk : q.find? k with
    | none =>
      rw [act_find_of_none hk]
      exact h
    | some e =>
      rw [h.act_find_of_some hk]
      exact h.raise (key_of_find? hk)
  | store k v =>
    rw [h.act_store]
    exact h.raise (key_stored q k)
  | drop k =>
    rw [act_drop]
    refine ⟨h.distinct.sublist List.filter_sublist, ?_, h.room⟩
    exact Nat.le_trans (List.length_filter_le _ _) h.fits
  | dropAll => exact ⟨.nil, Nat.zero_le _, h.room⟩
  | recount => exact h
  | read => exact h

theorem after (h : q.Proper) (as : List (Action K V)) : (q.after as).Proper := by
  induction as generalizing q with
  | nil => exact h
  | cons a as ih => exact ih (h.act a)

/-- An entry under `k` is the only one. -/
theorem has_of_mem (h : q.Proper) (he : e ∈ q.entries) (hk : (e.key == k) = true) :
    ∃ a b, q.Has k a e b := by
  obtain ⟨a, b, hcut⟩ := List.append_of_mem he
  have hdistinct := h.distinct
  rw [hcut, List.pairwise_append, List.pairwise_cons] at hdistinct
  obtain ⟨-, ⟨hb, -⟩, ha⟩ := hdistinct
  refine ⟨a, b, hcut, hk, fun x hx => ?_⟩
  rw [Bool.eq_false_iff]
  intro hxk
  -- An entry beside `e` under `k` would be under the key of `e`.
  rcases List.mem_append.mp hx with hx | hx
  · have hne := ha x hx e List.mem_cons_self
    rw [BEq.trans hxk (BEq.symm hk)] at hne
    cases hne
  · have hne := hb x hx
    rw [BEq.trans hk (BEq.symm hxk)] at hne
    cases hne

/-- An entry is what is found under its key. -/
theorem find?_of_mem (h : q.Proper) (he : e ∈ q.entries) (hk : (e.key == k) = true) :
    q.find? k = some e := by
  obtain ⟨a, b, hhas⟩ := h.has_of_mem he hk
  exact find?_of_has hhas

/-- A key is under one entry, or under none. -/
theorem has_or_lacks (h : q.Proper) (k : K) : (∃ a e b, q.Has k a e b) ∨ q.Lacks k := by
  cases hk : q.find? k with
  | some e =>
    obtain ⟨a, b, hhas⟩ := h.has_of_mem (mem_of_find? hk) (key_of_find? hk)
    exact .inl ⟨a, e, b, hhas⟩
  | none =>
    refine .inr fun x hx => ?_
    exact Bool.eq_false_iff.mpr (List.find?_eq_none.mp hk x hx)

/-- Without the entry that is found there is one less. -/
theorem length_without (h : q.Proper) (hk : q.find? k = some e) :
    (q.without k).length + 1 = q.entries.length := by
  obtain ⟨a, b, hhas⟩ := h.has_of_mem (mem_of_find? hk) (key_of_find? hk)
  rw [without_of_has hhas, hhas.entries, List.perm_middle.length_eq]
  rfl

end Proper

/-! ### Counters -/

/-- What an action adds to each counter. -/
def counts (q : Queue K V) : Action K V → Counter → Nat
  | .find _, .lookups => 1
  | .find k, .hits => (q.find? k).isSome.toNat
  | .find k, .misses => (q.find? k).isNone.toNat
  | .store k _, .insertions => (q.find? k).isNone.toNat
  | .store k _, .updates => (q.find? k).isSome.toNat
  | .store k _, .evictions =>
    ((q.find? k).isNone && decide (q.capacity ≤ q.entries.length)).toNat
  | .drop k, .deletions => (q.find? k).isSome.toNat
  | _, _ => 0

/-- Where the counters are after an action, from where they were before. -/
def counted (q : Queue K V) (n : Counter → Nat) : Action K V → Counter → Nat
  | .recount => fun _ => 0
  | a => fun x => n x + q.counts a x

/-- Where the counters are after one action after the other. -/
def tally (q : Queue K V) (n : Counter → Nat) : List (Action K V) → Counter → Nat
  | [] => n
  | a :: as => (q.act a).tally (q.counted n a) as

/-- An action adds at most one to a counter. -/
theorem counts_le (q : Queue K V) (a : Action K V) (x : Counter) : q.counts a x ≤ 1 := by
  unfold counts
  split <;> first | exact Bool.toNat_le _ | decide

theorem tally_le (q : Queue K V) (n : Counter → Nat) (as : List (Action K V)) (x : Counter) :
    q.tally n as x ≤ n x + as.length := by
  induction as generalizing q n with
  | nil => exact Nat.le_refl _
  | cons a as ih =>
    have hrest := ih (q.act a) (q.counted n a)
    have hstep : q.counted n a x ≤ n x + 1 := by
      cases a with
      | recount => exact Nat.zero_le _
      | _ => exact Nat.add_le_add_left (counts_le q _ x) _
    show (q.act a).tally (q.counted n a) as x ≤ n x + (as.length + 1)
    omega

end RecencyCache.Queue
