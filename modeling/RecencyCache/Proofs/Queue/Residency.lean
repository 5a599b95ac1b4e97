import Mathlib.Data.List.Induction
import RecencyCache.Proofs.KeyLists
import RecencyCache.Proofs.Queue.Actions

/-! # Which keys stay

  An action touches a key if it stores it, or looks it up and finds it. The
  order of the entries is the order of the last touches, so the touches of a
  history say which keys are in the queue.

  - **Survival**: the keys younger than `x` are among the distinct ones
    touched since `x` was (`Behind`). For as long as these are fewer than
    there is room for, `x` is not the one to leave.
  - **The whole queue**: if nothing is dropped, the keys are the distinct
    ones touched last, as many as fit (`latest_after`).
  - **Values**: an entry has the value stored last under its key
    (`value_after`).

  All three are about lists of keys with the youngest one first (`latest`).
-/

namespace RecencyCache

/-! ### What histories say about a key -/

namespace Cache

variable {K V : Type} [BEq K]

/-- The action drops `x`. -/
def Action.Drops (x : K) : Action K V → Prop
  | .drop k => (k == x) = true
  | .dropAll => True
  | _ => False

/-- The action drops some key or all of them. -/
def Action.IsDrop : Action K V → Prop
  | .drop _ | .dropAll => True
  | _ => False

/-- The value that an action stores under `x`. -/
def Action.stored (x : K) : Action K V → Option V
  | .store k v => if k == x then some v else none
  | _ => none

theorem Action.not_drops {a : Action K V} (h : ¬ a.IsDrop) (x : K) : ¬ a.Drops x := by
  cases a with
  | drop k => exact absurd trivial h
  | dropAll => exact absurd trivial h
  | _ => exact not_false

/-- The value stored last under `x`. -/
def lastStored (x : K) (as : List (Action K V)) : Option V := as.reverse.findSome? (·.stored x)

theorem lastStored_concat (x : K) (as : List (Action K V)) (a : Action K V) :
    lastStored x (as ++ [a]) = (a.stored x).or (lastStored x as) := by
  unfold lastStored
  rw [List.reverse_append, List.reverse_singleton, List.singleton_append, List.findSome?_cons]
  cases a.stored x <;> rfl

/-- Under equal keys the same was stored last. -/
theorem lastStored_congr [EquivBEq K] {x y : K} (h : (x == y) = true) (as : List (Action K V)) :
    lastStored x as = lastStored y as := by
  have hstored : (fun a : Action K V => a.stored x) = fun a => a.stored y := by
    funext a
    cases a with
    | store k v =>
      have hk : (k == x) = (k == y) := by rw [BEq.comm, beq_congr_left h, BEq.comm]
      simp only [Action.stored, hk]
    | _ => rfl
  unfold lastStored
  rw [hstored]

end Cache

namespace Queue

open Cache (Action lastStored lastStored_concat)

variable {K V : Type} [BEq K] {q : Queue K V}

/-- The key that an action touches. -/
def touched (q : Queue K V) : Action K V → Option K
  | .find k => if (q.find? k).isSome then some k else none
  | .store k _ => some k
  | _ => none

/-- The keys that actions touch, the last one first. -/
def touches (q : Queue K V) : List (Action K V) → List K
  | [] => []
  | a :: as => (q.act a).touches as ++ (q.touched a).toList

theorem touches_append (q : Queue K V) (as bs : List (Action K V)) :
    q.touches (as ++ bs) = (q.after as).touches bs ++ q.touches as := by
  induction as generalizing q with
  | nil => exact (List.append_nil _).symm
  | cons a as ih =>
    show (q.act a).touches (as ++ bs) ++ _ = ((q.act a).after as).touches bs ++ (_ ++ _)
    rw [ih, List.append_assoc]

theorem touches_concat (q : Queue K V) (as : List (Action K V)) (a : Action K V) :
    q.touches (as ++ [a]) = ((q.after as).touched a).toList ++ q.touches as := by
  rw [touches_append]
  rfl

/-- A key under which a value was stored was touched. -/
theorem exists_touch_of_stored (q : Queue K V) {x : K} {as : List (Action K V)}
    (h : (lastStored x as).isSome = true) : ∃ k ∈ q.touches as, (k == x) = true := by
  induction as using List.reverseRecOn with
  | nil => cases h
  | append_singleton as a ih =>
    rw [touches_concat]
    cases hstored : a.stored x with
    | none =>
      rw [lastStored_concat, hstored] at h
      obtain ⟨k, hk, hkx⟩ := ih h
      exact ⟨k, List.mem_append_right _ hk, hkx⟩
    | some v =>
      cases a with
      | store k w =>
        refine ⟨k, List.mem_append_left _ List.mem_cons_self, ?_⟩
        cases hkx : k == x with
        | true => rfl
        | false =>
          simp only [Action.stored, hkx, Bool.false_eq_true, if_false] at hstored
          cases hstored
      | _ => cases hstored

/-- The keys, the youngest one first. -/
def latest (q : Queue K V) : List K := q.keys.reverse

omit [BEq K] in
theorem mem_latest {k : K} : k ∈ q.latest ↔ ∃ e ∈ q.entries, e.key = k := by
  unfold latest keys
  rw [List.mem_reverse, List.mem_map]

theorem find?_isSome_iff {x : K} :
    (q.find? x).isSome = true ↔ ∃ k ∈ q.latest, (k == x) = true := by
  unfold find?
  rw [List.find?_isSome]
  constructor
  · rintro ⟨e, he, hx⟩
    exact ⟨e.key, mem_latest.mpr ⟨e, he, rfl⟩, hx⟩
  · rintro ⟨k, hk, hx⟩
    obtain ⟨e, he, rfl⟩ := mem_latest.mp hk
    exact ⟨e, he, hx⟩

/-! ### What actions do to the keys -/

/-- An entry of a queue with a raised one is that one, or was there under another key. -/
theorem mem_raise {k : K} {e x : Entry K V} (h : x ∈ (q.raise k e).entries) :
    (x ∈ q.entries ∧ (x.key == k) = false) ∨ x = e := by
  rcases List.mem_append.mp h with h | h
  · exact .inl (mem_without.mp (List.mem_of_mem_drop h))
  · exact .inr (List.mem_singleton.mp h)

theorem latest_without (q : Queue K V) (k : K) :
    ((q.without k).map (·.key)).reverse = q.latest.filter fun j => !(j == k) := by
  unfold latest keys without
  rw [List.filter_reverse, List.filter_map]
  rfl

/-- An entry that is raised becomes the youngest one, and the others keep their order. -/
theorem latest_raise (h : 1 ≤ q.capacity) (k : K) (e : Entry K V) :
    (q.raise k e).latest =
      (e.key :: q.latest.filter fun j => !(j == k)).take q.capacity := by
  obtain ⟨room, hroom⟩ : ∃ room, q.capacity = room + 1 := ⟨q.capacity - 1, by omega⟩
  rw [← latest_without, hroom, List.take_succ_cons]
  unfold latest keys raise
  rw [List.map_append, List.reverse_append, List.map_drop, hroom, Nat.add_sub_add_right,
    ← List.length_map (f := fun x : Entry K V => x.key), ← List.take_reverse]
  rfl

/-- An action raises the entry under the key that it touches, or it touches none and drops one, all
    or nothing. -/
theorem Proper.act_cases [ReflBEq K] (h : q.Proper) (a : Action K V) :
    (∃ k e, q.touched a = some k ∧ (e.key == k) = true ∧ q.act a = q.raise k e) ∨
      (q.touched a = none ∧
        ((∃ k, a = .drop k ∧ (q.act a).latest = q.latest.filter fun j => !(j == k)) ∨
          a = .dropAll ∨ ¬ a.IsDrop ∧ q.act a = q)) := by
  cases a with
  | find k =>
    cases hk : q.find? k with
    | none =>
      refine .inr ⟨?_, .inr (.inr ⟨not_false, act_find_of_none hk⟩)⟩
      simp [touched, hk]
    | some e =>
      refine .inl ⟨k, e, ?_, key_of_find? hk, h.act_find_of_some hk⟩
      simp [touched, hk]
  | store k v => exact .inl ⟨k, _, rfl, key_stored q k, h.act_store k v⟩
  | drop k =>
    refine .inr ⟨rfl, .inl ⟨k, rfl, ?_⟩⟩
    rw [act_drop, ← latest_without]
    rfl
  | dropAll => exact .inr ⟨rfl, .inr (.inl rfl)⟩
  | recount => exact .inr ⟨rfl, .inr (.inr ⟨not_false, rfl⟩)⟩
  | read => exact .inr ⟨rfl, .inr (.inr ⟨not_false, rfl⟩)⟩

/-! ### Survival -/

/-- In the history `early`, `a`, `late` the action `a` is the last one that touches `x`. -/
structure LastTouch (q : Queue K V) (x : K) (early : List (Action K V)) (a : Action K V)
    (late : List (Action K V)) : Prop where
  /-- The action touches `x`. -/
  touched : ∃ k, (q.after early).touched a = some k ∧ (k == x) = true
  /-- No later one does. -/
  last : ∀ k ∈ (q.after (early ++ [a])).touches late, (k == x) = false

/-- A key that was touched was touched a last time. -/
theorem exists_lastTouch {x : K} {as : List (Action K V)} {k : K} (hk : k ∈ q.touches as)
    (hkx : (k == x) = true) :
    ∃ early a late, as = early ++ a :: late ∧ q.LastTouch x early a late := by
  -- From the end: either the last action touches `x`, or the last touch is further back.
  induction as using List.reverseRecOn with
  | nil => cases hk
  | append_singleton as a ih =>
    rw [touches_concat] at hk
    by_cases hlast : ∃ j, (q.after as).touched a = some j ∧ (j == x) = true
    · exact ⟨as, a, [], rfl, hlast, fun j hj => nomatch hj⟩
    · have hnot : ∀ j ∈ ((q.after as).touched a).toList, (j == x) = false := by
        intro j hj
        rw [Option.mem_toList] at hj
        exact Bool.eq_false_iff.mpr fun hjx => hlast ⟨j, hj, hjx⟩
      have hin : k ∈ q.touches as := by
        rcases List.mem_append.mp hk with hk | hk
        · rw [hnot k hk] at hkx
          cases hkx
        · exact hk
      obtain ⟨early, b, late, rfl, htouch⟩ := ih hin
      refine ⟨early, b, late ++ [a], by simp, htouch.touched, ?_⟩
      intro j hj
      rw [touches_concat, ← after_append, List.append_assoc, List.singleton_append] at hj
      rcases List.mem_append.mp hj with hj | hj
      · exact hnot j hj
      · exact htouch.last j hj

/-- The keys younger than `x` are among the distinct ones of `since`. -/
def Behind (q : Queue K V) (x : K) (since : List K) : Prop :=
  ∃ front i rest, q.latest = front ++ i :: rest ∧ (i == x) = true ∧
    Subkeys front since.eraseDups

section

variable [EquivBEq K] {x : K} {since : List K}

theorem behind_of_touched (h : q.Proper) {a : Action K V} {k : K} (ha : q.touched a = some k)
    (hk : (k == x) = true) : (q.act a).Behind x [] := by
  rcases h.act_cases a with ⟨j, e, hj, he, hact⟩ | ⟨hnone, -⟩
  · rw [ha] at hj
    cases hj
    have hlatest := latest_raise h.room k e
    rw [← hact, List.take_cons h.room] at hlatest
    exact ⟨[], e.key, _, hlatest, BEq.trans he hk, .nil⟩
  · rw [ha] at hnone
    cases hnone

/-- Keys that leave from in front of `x` bring it forward. -/
theorem Behind.drop (h : q.Behind x since) {q' : Queue K V} {k : K} (hk : (k == x) = false)
    (hdrop : q'.latest = q.latest.filter fun j => !(j == k)) : q'.Behind x since := by
  obtain ⟨front, i, rest, hlatest, hi, hfront⟩ := h
  rw [hlatest, filter_cut hi hk] at hdrop
  refine ⟨_, i, _, hdrop, hi, ?_⟩
  exact sublistForall₂_mono (Subkeys.without hfront k) List.filter_sublist

/-- Another key that is touched goes in front of `x`. If the distinct keys are still fewer than
    there is room for, `x` does not leave. -/
theorem Behind.raise (h : q.Behind x since) {k : K} {e : Entry K V} (he : (e.key == k) = true)
    (hk : (k == x) = false) (hfew : (k :: since).eraseDups.length < q.capacity) :
    (q.raise k e).Behind x (k :: since) := by
  obtain ⟨front, i, rest, hlatest, hi, hfront⟩ := h
  have hfront' : Subkeys (e.key :: front.filter fun j => !(j == k)) (k :: since).eraseDups := by
    rw [eraseDups_cons_eq]
    exact .cons he (Subkeys.without hfront k)
  -- The new front is shorter than the queue may be, so there is a place for `x` behind it.
  have hlength := sublistForall₂_length_le hfront'
  obtain ⟨room, hroom⟩ : ∃ room,
      q.capacity = (e.key :: front.filter fun j => !(j == k)).length + (room + 1) :=
    ⟨q.capacity - (e.key :: front.filter fun j => !(j == k)).length - 1, by omega⟩
  refine ⟨_, i, (rest.filter fun j => !(j == k)).take room, ?_, hi, hfront'⟩
  rw [latest_raise (by omega), hlatest, filter_cut hi hk, ← List.cons_append, hroom,
    List.take_append, List.take_of_length_le (by omega)]
  congr 1
  rw [Nat.add_sub_cancel_left, List.take_succ_cons]

theorem Behind.act (h : q.Behind x since) (hq : q.Proper) {a : Action K V}
    (hne : ∀ k, q.touched a = some k → (k == x) = false) (hkeep : ¬ a.Drops x)
    (hfew : ((q.touched a).toList ++ since).eraseDups.length < q.capacity) :
    (q.act a).Behind x ((q.touched a).toList ++ since) := by
  rcases hq.act_cases a with
    ⟨k, e, hk, he, hact⟩ | ⟨hnone, ⟨k, rfl, hdrop⟩ | rfl | ⟨-, hact⟩⟩
  · rw [hk] at hfew ⊢
    rw [hact]
    exact h.raise he (hne k hk) hfew
  · exact h.drop (Bool.eq_false_iff.mpr hkeep) hdrop
  · exact absurd trivial hkeep
  · rw [hnone, hact]
    exact h

/-- A key stays while fewer distinct other keys are touched than there is room for. -/
theorem Behind.after (h : q.Behind x []) (hq : q.Proper) {as : List (Action K V)}
    (hne : ∀ k ∈ q.touches as, (k == x) = false) (hkeep : ∀ a ∈ as, ¬ a.Drops x)
    (hfew : (q.touches as).eraseDups.length < q.capacity) :
    (q.after as).Behind x (q.touches as) := by
  induction as using List.reverseRecOn with
  | nil => exact h
  | append_singleton as a ih =>
    rw [touches_concat] at hne hfew ⊢
    rw [after_concat]
    obtain ⟨hlast, hne⟩ := List.forall_mem_append.mp hne
    obtain ⟨hkeep, hkept⟩ := List.forall_mem_append.mp hkeep
    -- What are few keys now were no more before the last action.
    have hbefore : (q.touches as).eraseDups.length ≤
        (((q.after as).touched a).toList ++ q.touches as).eraseDups.length := by
      cases (q.after as).touched a with
      | none => exact Nat.le_refl _
      | some k => exact length_eraseDups_le_cons k _
    have hbehind := ih hne hkeep (Nat.lt_of_le_of_lt hbefore hfew)
    apply hbehind.act (hq.after as)
    · intro k hk
      exact hlast k (Option.mem_toList.mpr hk)
    · exact hkept a List.mem_cons_self
    · rw [capacity_after]
      exact hfew

/-- A key is there if fewer distinct keys were touched after it than there is room for, and it was
    not dropped. -/
theorem LastTouch.stays (hq : q.Proper) {early late : List (Action K V)} {a : Action K V}
    (h : q.LastTouch x early a late) (hkeep : ∀ b ∈ late, ¬ b.Drops x)
    (hfew : ((q.after (early ++ [a])).touches late).eraseDups.length < q.capacity) :
    ∃ k ∈ (q.after (early ++ a :: late)).latest, (k == x) = true := by
  obtain ⟨k, hk, hkx⟩ := h.touched
  have hbehind := behind_of_touched (hq.after early) hk hkx
  rw [← after_concat] at hbehind
  have hcap : (q.after (early ++ [a])).capacity = q.capacity := capacity_after q _
  rw [← hcap] at hfew
  obtain ⟨front, i, rest, hlatest, hi, -⟩ := hbehind.after (hq.after _) h.last hkeep hfew
  rw [List.append_cons, after_append]
  refine ⟨i, ?_, hi⟩
  rw [hlatest]
  exact List.mem_append_right _ List.mem_cons_self

/-! ### The whole queue -/

theorem latest_act (h : q.Proper) {n : Nat} (hcap : q.capacity = n) {a : Action K V}
    (hkeep : ¬ a.IsDrop) {ks : List K}
    (hks : SameKeys q.latest (ks.eraseDups.take n)) :
    SameKeys (q.act a).latest ((((q.touched a).toList ++ ks).eraseDups).take n) := by
  rcases h.act_cases a with ⟨k, e, hk, he, hact⟩ | ⟨hnone, ⟨k, rfl, -⟩ | rfl | ⟨-, hact⟩⟩
  · rw [hk, hact, latest_raise h.room]
    -- The key goes in front of both lists, and what does not fit is cut off at the same place.
    show SameKeys _ ((k :: ks).eraseDups.take n)
    rw [eraseDups_cons_eq, ← take_cons_filter_take (pairwise_eraseDups ks), hcap]
    exact List.forall₂_take _ (.cons he (SameKeys.without hks k))
  · exact absurd trivial hkeep
  · exact absurd trivial hkeep
  · rw [hnone, hact]
    exact hks

/-- If nothing is dropped, the keys are the distinct ones touched last. -/
theorem latest_after {n : Nat} (hn : 1 ≤ n) {as : List (Action K V)}
    (hkeep : ∀ a ∈ as, ¬ a.IsDrop) :
    SameKeys ((empty n).after as).latest (((empty n).touches as).eraseDups.take n) := by
  induction as using List.reverseRecOn with
  | nil =>
    show SameKeys [] ((([] : List K).eraseDups).take n)
    rw [List.eraseDups_nil, List.take_nil]
    exact .nil
  | append_singleton as a ih =>
    obtain ⟨hkeep, hlast⟩ := List.forall_mem_append.mp hkeep
    rw [after_concat, touches_concat]
    exact latest_act ((proper_empty hn).after as) (capacity_after _ as) (hlast a List.mem_cons_self)
      (ih hkeep)

/-- If nothing is dropped and `x` is there, fewer distinct keys were touched after it than there is
    room for. -/
theorem LastTouch.length_lt {n : Nat} (hn : 1 ≤ n) {early late : List (Action K V)}
    {a : Action K V} (h : (empty n : Queue K V).LastTouch x early a late)
    (hkeep : ∀ b ∈ early ++ a :: late, ¬ b.IsDrop) {k : K}
    (hk : k ∈ ((empty n).after (early ++ a :: late)).latest) (hkx : (k == x) = true) :
    (((empty n).after (early ++ [a])).touches late).eraseDups.length < n := by
  have hkeys := latest_after hn hkeep
  rw [List.append_cons, touches_append] at hkeys
  rw [List.append_cons] at hk
  obtain ⟨j, hj, hkj⟩ := sublistForall₂_exists_mem (SameKeys.subkeys hkeys) hk
  -- The key that stands for `x` among those that fit was not touched in `late`.
  apply length_eraseDups_lt hj
  intro hlate
  have hne := h.last j hlate
  rw [BEq.trans (BEq.symm hkj) hkx] at hne
  cases hne

/-! ### Values -/

theorem value_act (h : q.Proper) {as : List (Action K V)}
    (hvalue : ∀ e ∈ q.entries, lastStored e.key as = some e.value) (a : Action K V) :
    ∀ e ∈ (q.act a).entries, lastStored e.key (as ++ [a]) = some e.value := by
  intro e he
  rw [lastStored_concat]
  cases a with
  | find k =>
    cases hk : q.find? k with
    | none =>
      rw [act_find_of_none hk] at he
      exact hvalue e he
    | some e' =>
      rw [h.act_find_of_some hk] at he
      rcases mem_raise he with ⟨he, -⟩ | rfl
      · exact hvalue e he
      · exact hvalue e (mem_of_find? hk)
  | store k v =>
    rw [h.act_store] at he
    rcases mem_raise he with ⟨he, hne⟩ | rfl
    · -- The value is stored under another key.
      have hstored : (Action.store k v).stored e.key = none := by
        rw [BEq.comm] at hne
        simp [Action.stored, hne]
      rw [hstored]
      exact hvalue e he
    · have hkey := BEq.symm (key_stored q k)
      simp [Action.stored, hkey]
  | drop k =>
    rw [act_drop] at he
    exact hvalue e (mem_without.mp he).1
  | dropAll => cases he
  | recount => exact hvalue e he
  | read => exact hvalue e he

/-- An entry has the value stored last under its key. -/
theorem value_after {n : Nat} (hn : 1 ≤ n) (as : List (Action K V)) :
    ∀ e ∈ ((empty n).after as).entries, lastStored e.key as = some e.value := by
  induction as using List.reverseRecOn with
  | nil =>
    intro e he
    cases he
  | append_singleton as a ih =>
    rw [after_concat]
    exact value_act ((proper_empty hn).after as) ih a

end

end Queue

end RecencyCache
