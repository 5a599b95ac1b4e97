import RecencyCache.Cache.Requests
import RecencyCache.Queue

/-! # The queue as a reference

  The queue finds entries by searching, and moves them by filtering. What
  that does to an entry whose place is known is said here once.

  - `Has q k a e b`: entry `e`, between the entries `a` and `b`, is the one
    under key `k`.
  - `Lacks q k`: there is none.

  `handle` is what the queue does and answers when a cache is asked for
  something. It has no answer to what is not about entries: names, counters
  and descriptions.
-/

namespace RecencyCache.Queue

variable {K V : Type} [BEq K] {q : Queue K V} {k : K} {a b : List (Entry K V)} {e : Entry K V}

/-! ### Places of entries -/

/-- The entry under `k` is `e`, which stands between `a` and `b`. -/
structure Has (q : Queue K V) (k : K) (a : List (Entry K V)) (e : Entry K V)
    (b : List (Entry K V)) : Prop where
  /-- The entries, cut at `e`. -/
  entries : q.entries = a ++ e :: b
  /-- The key of `e` is equal to `k`. -/
  key : (e.key == k) = true
  /-- No other key is. -/
  others : ∀ x ∈ a ++ b, (x.key == k) = false

/-- No entry is under `k`. -/
def Lacks (q : Queue K V) (k : K) : Prop := ∀ x ∈ q.entries, (x.key == k) = false

theorem find?_of_has (h : q.Has k a e b) : q.find? k = some e := by
  -- The search passes over `a` and stops at `e`.
  have hnone : a.find? (fun x => x.key == k) = none := by
    rw [List.find?_eq_none]
    intro x hx
    rw [h.others x (List.mem_append_left b hx)]
    exact Bool.false_ne_true
  unfold find?
  rw [h.entries, List.find?_append, hnone, List.find?_cons, h.key]
  rfl

theorem without_of_has (h : q.Has k a e b) : q.without k = a ++ b := by
  have hrest : (a ++ b).filter (fun x => !(x.key == k)) = a ++ b := by
    rw [List.filter_eq_self]
    intro x hx
    rw [h.others x hx]
    rfl
  unfold without
  rw [h.entries, ← hrest, List.filter_append, List.filter_append, List.filter_cons, h.key]
  rfl

theorem find?_of_lacks (h : q.Lacks k) : q.find? k = none := by
  unfold find?
  rw [List.find?_eq_none]
  intro x hx
  rw [h x hx]
  exact Bool.false_ne_true

theorem lookup_of_has (h : q.Has k a e b) :
    q.lookup k = (some e.value, { q with entries := a ++ b ++ [e] }) := by
  unfold lookup
  rw [find?_of_has h, without_of_has h]

theorem lookup_of_lacks (h : q.Lacks k) : q.lookup k = (none, q) := by
  unfold lookup
  rw [find?_of_lacks h]

theorem store_of_has (h : q.Has k a e b) (v : V) :
    q.store k v = (false, { q with entries := a ++ b ++ [{ e with value := v }] }) := by
  unfold store
  rw [find?_of_has h, without_of_has h]

/-- A new entry joins at the end of a queue that is not full. -/
theorem store_of_lacks_of_lt (h : q.Lacks k) (hroom : q.entries.length < q.capacity) (v : V) :
    q.store k v = (true, { q with entries := q.entries ++ [⟨k, v⟩] }) := by
  unfold store
  rw [find?_of_lacks h]
  dsimp only
  rw [if_pos hroom]

/-- A new entry costs a full queue its first one. -/
theorem store_of_lacks_of_le (h : q.Lacks k) (hfull : q.capacity ≤ q.entries.length) (v : V) :
    q.store k v = (true, { q with entries := q.entries.tail ++ [⟨k, v⟩] }) := by
  unfold store
  rw [find?_of_lacks h]
  dsimp only
  rw [if_neg (Nat.not_lt.mpr hfull)]

theorem remove_of_has (h : q.Has k a e b) :
    q.remove k = (some e.value, { q with entries := a ++ b }) := by
  unfold remove
  rw [find?_of_has h, without_of_has h]

theorem remove_of_lacks (h : q.Lacks k) : q.remove k = (none, q) := by
  unfold remove
  rw [find?_of_lacks h]

/-! ### What a table answers

  A table tells more about storing than a queue does: which value was
  replaced, or which entry had to leave. -/

/-- What a table answers that has the entries of the queue and is to store a value under `k`. -/
def outcome (q : Queue K V) (k : K) : Insertion K V :=
  match q.find? k with
  | some e => .updated e.value
  | none =>
    if q.entries.length < q.capacity then .inserted
    else match q.entries.head? with
      | some e => .evicted e.key e.value
      | none => .inserted

theorem outcome_of_has (h : q.Has k a e b) : q.outcome k = .updated e.value := by
  unfold outcome
  rw [find?_of_has h]

theorem outcome_of_lacks_of_lt (h : q.Lacks k) (hroom : q.entries.length < q.capacity) :
    q.outcome k = .inserted := by
  unfold outcome
  rw [find?_of_lacks h]
  dsimp only
  rw [if_pos hroom]

theorem outcome_of_lacks_of_le (h : q.Lacks k) (hfull : q.capacity ≤ q.entries.length)
    (hfirst : q.entries.head? = some e) : q.outcome k = .evicted e.key e.value := by
  unfold outcome
  rw [find?_of_lacks h, hfirst]
  dsimp only
  rw [if_neg (Nat.not_lt.mpr hfull)]

/-! ### Room -/

theorem capacity_lookup (q : Queue K V) (k : K) : (q.lookup k).2.capacity = q.capacity := by
  unfold lookup
  cases q.find? k <;> rfl

theorem capacity_store (q : Queue K V) (k : K) (v : V) :
    (q.store k v).2.capacity = q.capacity := by
  unfold store
  cases q.find? k <;> rfl

theorem capacity_remove (q : Queue K V) (k : K) : (q.remove k).2.capacity = q.capacity := by
  unfold remove
  cases q.find? k <;> rfl

/-! ### Requests -/

open Cache (Request Response)

/-- What a queue answers to a cache's request, as far as it can tell, and the queue afterwards. -/
def handle [Inhabited V] : Request K V → Queue K V → Option (Response K V) × Queue K V
  | .get k, q => (some (.value (q.lookup k).1), (q.lookup k).2)
  | .tryGet k before, q =>
    (some (.attempt (q.lookup k).1.isSome ((q.lookup k).1.getD before)), (q.lookup k).2)
  | .getOrDefault k, q => (some (.plain ((q.lookup k).1.getD default)), (q.lookup k).2)
  | .set k v, q => (some (.flag (q.store k v).1), (q.store k v).2)
  | .setOrDelete k (some v), q => (some (.flag (q.store k v).1), (q.store k v).2)
  | .setOrDelete k none, q => (some (.flag (q.remove k).1.isSome), (q.remove k).2)
  | .delete k, q => (some (.flag (q.remove k).1.isSome), (q.remove k).2)
  | .remove k, q => (some (.value (q.remove k).1), (q.remove k).2)
  | .contains k, q => (some (.flag (q.find? k).isSome), q)
  | .count, q => (some (.number q.entries.length), q)
  | .isEmpty, q => (some (.flag q.entries.isEmpty), q)
  | .capacity, q => (some (.number q.capacity), q)
  | .clear, q => (some .done, q.clear)
  | .resetStats, q => (some .done, q)
  | .keys, q => (some (.keys q.keys), q)
  | .verify, q => (some (.verdict .sound), q)
  | .name, q | .stats, q | .hitRate, q | .describe, q | .describeLong, q => (none, q)

/-- One request after the other. -/
def run [Inhabited V] : List (Request K V) → Queue K V → List (Option (Response K V)) × Queue K V
  | [], q => ([], q)
  | r :: rs, q => ((q.handle r).1 :: ((q.handle r).2.run rs).1, ((q.handle r).2.run rs).2)

/-- No request changes how much fits. -/
theorem capacity_handle [Inhabited V] (r : Request K V) (q : Queue K V) :
    (q.handle r).2.capacity = q.capacity := by
  cases r with
  | get k => exact capacity_lookup q k
  | tryGet k before => exact capacity_lookup q k
  | getOrDefault k => exact capacity_lookup q k
  | set k v => exact capacity_store q k v
  | setOrDelete k o =>
    cases o with
    | none => exact capacity_remove q k
    | some v => exact capacity_store q k v
  | delete k => exact capacity_remove q k
  | remove k => exact capacity_remove q k
  | _ => rfl

theorem capacity_run [Inhabited V] (rs : List (Request K V)) (q : Queue K V) :
    (q.run rs).2.capacity = q.capacity := by
  induction rs generalizing q with
  | nil => rfl
  | cons r rs ih => exact (ih _).trans (capacity_handle r q)

/-- An answer is the one that the queue gives, if it gives one. -/
def Agrees (expected : Option (Response K V)) (answer : Response K V) : Prop :=
  ∀ a, expected = some a → answer = a

omit [BEq K] in
theorem agrees_some (a : Response K V) : Agrees (some a) a := fun _ h => Option.some.inj h

omit [BEq K] in
theorem agrees_none (a : Response K V) : Agrees none a := fun _ h => nomatch h

end RecencyCache.Queue
