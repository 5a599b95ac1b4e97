import RecencyCache.Proofs.Cache.Actions
import RecencyCache.Proofs.Queue.Residency

/-! # Which keys a cache keeps

  A request touches a key if it stores it, or looks it up and finds it.
  Whether a lookup finds its key depends on what happened before, so the
  touches of a history are those of the cache that serves it (`touches`).

  What `Queue.Residency` says of queues is said here of caches: a key stays
  while fewer distinct other keys are touched than there is room for, and if
  nothing is dropped, no other key is there.
-/

namespace RecencyCache.Cache

variable {K V : Type} [BEq K]

/-! ### Touches -/

/-- Whether a lookup of `k` would find a value. -/
def hits (c : Cache K V) (k : K) : Bool :=
  match Cache.get k c with
  | .ok (some _) _ => true
  | _ => false

/-- The key that a request touches. -/
def touched (c : Cache K V) (r : Request K V) : Option K :=
  match r.action with
  | .find k => if c.hits k then some k else none
  | .store k _ => some k
  | _ => none

section

variable [OwnsMemory V] [Inhabited V]

/-- The cache after a history. -/
def after (c : Cache K V) (rs : List (Request K V)) : Cache K V :=
  match run rs c with
  | .ok _ c' | .error _ c' => c'

/-- The keys that a history touches, the last one first. -/
def touches (c : Cache K V) : List (Request K V) → List K
  | [] => []
  | r :: rs => (c.after [r]).touches rs ++ (c.touched r).toList

/-- In the history `early`, `r`, `late` the request `r` is the last one that touches `x`. -/
structure LastTouch (c : Cache K V) (x : K) (early : List (Request K V)) (r : Request K V)
    (late : List (Request K V)) : Prop where
  /-- The request touches `x`. -/
  touched : ∃ k, (c.after early).touched r = some k ∧ (k == x) = true
  /-- No later one does. -/
  last : ∀ k ∈ (c.after (early ++ [r])).touches late, (k == x) = false

end

/-! ### Touches of a queue -/

namespace Represents

variable [EquivBEq K] {c : Cache K V} {q : Queue K V}

theorem hits_eq (h : c.Represents q) (k : K) : c.hits k = (q.find? k).isSome := by
  obtain ⟨c', hget, -⟩ := h.get k
  unfold Queue.lookup at hget
  unfold hits
  cases hk : q.find? k with
  | none =>
    rw [hk] at hget
    simp only [hget, Option.isSome_none]
  | some e =>
    rw [hk] at hget
    simp only [hget, Option.isSome_some]

theorem touched_eq (h : c.Represents q) (r : Request K V) : c.touched r = q.touched r.action := by
  unfold Cache.touched Queue.touched
  cases r.action with
  | find k =>
    dsimp only
    rw [h.hits_eq k]
  | _ => rfl

variable [OwnsMemory V] [Inhabited V]

theorem after (h : c.Represents q) (rs : List (Request K V)) :
    (c.after rs).Represents (q.after (rs.map (·.action))) := by
  obtain ⟨answers, c', hrun, h'⟩ := h.serve rs
  unfold Cache.after
  rw [hrun]
  exact h'

theorem touches_eq (h : c.Represents q) (rs : List (Request K V)) :
    c.touches rs = q.touches (rs.map (·.action)) := by
  induction rs generalizing c q with
  | nil => rfl
  | cons r rs ih =>
    show (c.after [r]).touches rs ++ _ = (q.act r.action).touches _ ++ _
    rw [ih (h.after [r]), h.touched_eq r]
    rfl

/-- The keys touched after a part of a history. -/
theorem touches_after_eq (h : c.Represents q) (early : List (Request K V)) (r : Request K V)
    (late : List (Request K V)) :
    (c.after (early ++ [r])).touches late =
      (q.after (early.map (·.action) ++ [r.action])).touches (late.map (·.action)) := by
  rw [(h.after (early ++ [r])).touches_eq late, List.map_append]
  rfl

theorem lastTouch_iff (h : c.Represents q) {x : K} {early late : List (Request K V)}
    {r : Request K V} :
    c.LastTouch x early r late ↔
      q.LastTouch x (early.map (·.action)) r.action (late.map (·.action)) := by
  have htouched := (h.after early).touched_eq r
  have hlate := h.touches_after_eq early r late
  constructor
  · intro htouch
    exact ⟨htouched ▸ htouch.touched, hlate ▸ htouch.last⟩
  · intro htouch
    exact ⟨htouched ▸ htouch.touched, hlate ▸ htouch.last⟩

end Represents

/-! ### Residents -/

namespace Represents

section

variable [EquivBEq K] {c : Cache K V} {q : Queue K V}

theorem contains_iff (h : c.Represents q) (x : K) :
    Cache.contains x c = .ok true c ↔ ∃ k ∈ q.latest, (k == x) = true := by
  rw [h.contains x, ← Queue.find?_isSome_iff]
  cases (q.find? x).isSome with
  | true => exact iff_of_true rfl rfl
  | false =>
    constructor
    · intro heq
      cases heq
    · intro heq
      cases heq

/-- What is there is found, with the value stored last. -/
theorem exists_lastStored {n : Nat} (hn : 1 ≤ n) {as : List (Action K V)}
    (h : c.Represents ((Queue.empty n).after as)) {x : K} (hx : Cache.contains x c = .ok true c) :
    ∃ v, lastStored x as = some v ∧ c.Finds x v := by
  have hsome := Queue.find?_isSome_iff.mpr ((h.contains_iff x).mp hx)
  obtain ⟨e, he⟩ := Option.isSome_iff_exists.mp hsome
  refine ⟨e.value, ?_, h.finds_iff.mpr ⟨e, he, rfl⟩⟩
  rw [← lastStored_congr (Queue.key_of_find? he)]
  exact Queue.value_after hn as e (Queue.mem_of_find? he)

end

section

variable [EquivBEq K] [OwnsMemory V] [Inhabited V] {c c' : Cache K V} {n : Nat}
  {rs : List (Request K V)}

/-- A key that was stored was touched a last time. -/
theorem exists_lastTouch {q : Queue K V} (h : c.Represents q) {x : K}
    (hx : (lastStored x (rs.map (·.action))).isSome = true) :
    ∃ early r late, rs = early ++ r :: late ∧ c.LastTouch x early r late := by
  obtain ⟨k, hk, hkx⟩ := q.exists_touch_of_stored hx
  obtain ⟨early, a, late, hcut, htouch⟩ := Queue.exists_lastTouch hk hkx
  -- The requests are cut where the actions are.
  obtain ⟨early, rest, rfl, rfl, hrest⟩ := List.map_eq_append_iff.mp hcut
  obtain ⟨r, late, rfl, rfl, rfl⟩ := List.map_eq_cons_iff.mp hrest
  exact ⟨early, r, late, rfl, h.lastTouch_iff.mpr htouch⟩

/-- A key is there if fewer distinct keys were touched after it than there is room for, and it was
    not dropped. -/
theorem stays (hn : 1 ≤ n) (h : c.Represents (.empty n))
    (h' : c'.Represents ((Queue.empty n).after (rs.map (·.action)))) {x : K}
    {early late : List (Request K V)} {r : Request K V} (hcut : rs = early ++ r :: late)
    (htouch : c.LastTouch x early r late) (hkeep : ∀ r' ∈ late, ¬ r'.action.Drops x)
    (hfew : ((c.after (early ++ [r])).touches late).eraseDups.length < n) :
    Cache.contains x c' = .ok true c' := by
  have hkept : ∀ a ∈ late.map (·.action), ¬ a.Drops x := List.forall_mem_map.mpr hkeep
  rw [h.touches_after_eq] at hfew
  rw [h'.contains_iff, hcut, List.map_append, List.map_cons]
  exact (h.lastTouch_iff.mp htouch).stays (Queue.proper_empty hn) hkept hfew

variable (hn : 1 ≤ n) (h : c.Represents (.empty n))
  (h' : c'.Represents ((Queue.empty n).after (rs.map (·.action))))
  (hkeep : ∀ r ∈ rs, ¬ r.action.IsDrop)

include hn h h' hkeep

/-- If nothing is dropped, a key is there exactly if it was stored and fewer distinct keys were
    touched after it than there is room for. -/
theorem contains_iff_of_kept (x : K) :
    Cache.contains x c' = .ok true c' ↔
      (lastStored x (rs.map (·.action))).isSome = true ∧
        ∃ early r late, rs = early ++ r :: late ∧ c.LastTouch x early r late ∧
          ((c.after (early ++ [r])).touches late).eraseDups.length < n := by
  constructor
  · -- What is there was stored, so it was touched, and of the touches after that no more fit.
    intro hx
    obtain ⟨v, hv, -⟩ := h'.exists_lastStored hn hx
    have hsome : (lastStored x (rs.map (·.action))).isSome = true := by
      rw [hv]
      rfl
    obtain ⟨early, r, late, hcut, htouch⟩ := h.exists_lastTouch hsome
    refine ⟨hsome, early, r, late, hcut, htouch, ?_⟩
    obtain ⟨k, hk, hkx⟩ := (h'.contains_iff x).mp hx
    have hkept : ∀ a ∈ rs.map (·.action), ¬ a.IsDrop := List.forall_mem_map.mpr hkeep
    rw [hcut, List.map_append, List.map_cons] at hk hkept
    rw [h.touches_after_eq]
    exact (h.lastTouch_iff.mp htouch).length_lt hn hkept hk hkx
  · rintro ⟨-, early, r, late, hcut, htouch, hfew⟩
    refine stays hn h h' hcut htouch (fun r' hr' => ?_) hfew
    apply Action.not_drops
    apply hkeep r'
    rw [hcut]
    exact List.mem_append_right _ (List.mem_cons_of_mem r hr')

/-- If nothing is dropped, the keys are the distinct ones touched last. -/
theorem keys_of_kept :
    ∃ ks, Cache.keysByRecency c' = .ok ks c' ∧
      SameKeys ks ((c.touches rs).eraseDups.take n).reverse := by
  refine ⟨_, h'.keysByRecency, ?_⟩
  unfold SameKeys
  rw [h.touches_eq, ← List.forall₂_reverse_iff, List.reverse_reverse]
  exact Queue.latest_after hn (List.forall_mem_map.mpr hkeep)

end

end Represents

/-- What the touches of a history say about the cache that has served it.

    - A key that was stored was touched a last time. If since then it was not dropped, and fewer
      distinct keys were touched than there is room for, it is there, and a lookup finds the value
      stored last.
    - If nothing was dropped at all, no other key is there, and the keys are the distinct ones
      touched last, in the order of their last touches. -/
theorem touches_decide_residency [EquivBEq K] [OwnsMemory V] [Inhabited V] {o : Options}
    (h : o.check = .ok ()) (rs : List (Request K V)) :
    ∃ c answers c', ofOptions o = .ok (.ok c) ∧ run rs c = .ok answers c' ∧
      (∀ x, (lastStored x (rs.map (·.action))).isSome = true →
        ∃ early r late, rs = early ++ r :: late ∧ c.LastTouch x early r late) ∧
      (∀ x early r late, rs = early ++ r :: late → c.LastTouch x early r late →
        (∀ r' ∈ late, ¬ r'.action.Drops x) →
        ((c.after (early ++ [r])).touches late).eraseDups.length < o.capacity →
        contains x c' = .ok true c' ∧
          ∃ v, lastStored x (rs.map (·.action)) = some v ∧ c'.Finds x v) ∧
      ((∀ r ∈ rs, ¬ r.action.IsDrop) →
        (∀ x, contains x c' = .ok true c' ↔
          (lastStored x (rs.map (·.action))).isSome = true ∧
            ∃ early r late, rs = early ++ r :: late ∧ c.LastTouch x early r late ∧
              ((c.after (early ++ [r])).touches late).eraseDups.length < o.capacity) ∧
        ∃ ks, keysByRecency c' = .ok ks c' ∧
          SameKeys ks ((c.touches rs).eraseDups.take o.capacity).reverse) := by
  have hn := ((Options.check_eq_ok_iff o).mp h).1
  have hc := represents_built (K := K) (V := V) h
  obtain ⟨answers, c', hrun, hc'⟩ := hc.serve rs
  refine ⟨_, answers, c', ofOptions_of_ok h, hrun, fun x hx => hc.exists_lastTouch hx, ?_, ?_⟩
  · intro x early r late hcut htouch hkeep hfew
    have hx := Represents.stays hn hc hc' hcut htouch hkeep hfew
    exact ⟨hx, hc'.exists_lastStored hn hx⟩
  · intro hkeep
    exact ⟨Represents.contains_iff_of_kept hn hc hc' hkeep,
      Represents.keys_of_kept hn hc hc' hkeep⟩

/-- With room for two entries a lookup saves the first one from the third. -/
theorem touches_decide_residency_two :
    (Options.ofCapacity 2).check = .ok () ∧
      ∃ c answers c', ofOptions (.ofCapacity 2) = .ok (.ok (c : Cache Nat Nat)) ∧
        run [.set 1 10, .set 2 20, .get 1, .set 3 30] c = .ok answers c' ∧
        contains 1 c' = .ok true c' ∧ c'.Finds 1 10 := by
  have hcheck : (Options.ofCapacity 2).check = .ok () := rfl
  have hbuilt := ofOptions_of_ok (K := Nat) (V := Nat) hcheck
  have hrep := represents_built (K := Nat) (V := Nat) hcheck
  let early : List (Request Nat Nat) := [.set 1 10, .set 2 20]
  let late : List (Request Nat Nat) := [.set 3 30]
  obtain ⟨c, answers, c', hc, hrun, -, hstays, -⟩ :=
    touches_decide_residency hcheck (early ++ .get 1 :: late)
  rw [hbuilt] at hc
  cases hc
  -- What the requests touch is worked out on the queue.
  have htouch : (built (.ofCapacity 2)).LastTouch 1 early (.get 1) late := by
    refine hrep.lastTouch_iff.mpr ⟨⟨1, rfl, rfl⟩, fun k hk => ?_⟩
    obtain rfl : k = 3 := List.mem_singleton.mp hk
    rfl
  have hkeep : ∀ r' ∈ late, ¬ r'.action.Drops 1 := by
    intro r' hr'
    obtain rfl := List.mem_singleton.mp hr'
    exact not_false
  have hfew : (((built (.ofCapacity 2)).after (early ++ [.get 1])).touches late).eraseDups.length <
      (Options.ofCapacity 2).capacity := by
    rw [hrep.touches_after_eq]
    show [3].eraseDups.length < 2
    decide
  obtain ⟨hcontains, v, hv, hfinds⟩ := hstays 1 early _ late rfl htouch hkeep hfew
  obtain rfl : 10 = v := Option.some.inj hv
  exact ⟨hcheck, _, answers, c', hbuilt, hrun, hcontains, hfinds⟩

end RecencyCache.Cache
