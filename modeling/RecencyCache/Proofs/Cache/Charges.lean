import RecencyCache.Proofs.Cache.Steps
import RecencyCache.Proofs.Table.Refinement

/-! # What a call is charged

  What a call adds to the counters follows from its action and from what it
  returns (`charge`), on any table. A lookup that faults is charged as a
  lookup; any other fault is not charged at all (`Charging`).

  What a call returns, if it does, says whether its key was in the index,
  whatever the table is like otherwise (`verdict`). So does the answer to a
  request, as far as it matters for the counters (`charge_tells`).
-/

namespace RecencyCache

/-! ### Answers of a damaged table -/

namespace Table

variable {K V : Type} [BEq K] {t t' : Table K V} {k : K}

/-- A lookup that does not fault finds the keys that are indexed. -/
theorem isSome_of_lookup {o : Option V} (h : lookup k t = .ok o t') : o.isSome = t.contains k := by
  unfold contains
  rw [Index.contains_eq]
  cases hf : t.index.find? k with
  | none =>
    rw [lookup_none hf] at h
    cases h
    rfl
  | some i =>
    unfold lookup at h
    rw [get_bind, hf] at h
    obtain ⟨-, t₁, -, h⟩ := steps_of_bind h
    obtain ⟨e, t₂, -, h⟩ := steps_of_bind h
    cases h
    rfl

/-- A removal that does not fault hands back what is indexed. -/
theorem isSome_of_remove {o : Option V} (h : remove k t = .ok o t') : o.isSome = t.contains k := by
  unfold contains
  rw [Index.contains_eq]
  cases hf : t.index.find? k with
  | none =>
    rw [remove_none hf] at h
    cases h
    rfl
  | some i =>
    unfold remove at h
    rw [get_bind, hf] at h
    obtain ⟨-, t₁, -, h⟩ := steps_of_bind h
    obtain ⟨-, t₂, -, h⟩ := steps_of_bind h
    obtain ⟨s, t₃, -, h⟩ := steps_of_bind h
    cases he : s.entry with
    | none =>
      rw [he] at h
      cases h
    | some e =>
      rw [he] at h
      obtain ⟨-, t₄, -, h⟩ := steps_of_bind h
      obtain ⟨-, t₅, -, h⟩ := steps_of_bind h
      cases h
      rfl

/-- Storing that does not fault makes a new entry of a key that is not indexed. -/
theorem isNew_of_insert {v : V} {a : Insertion K V} (h : insert k v t = .ok a t') :
    a.isNew = !t.contains k := by
  unfold contains
  rw [Index.contains_eq]
  unfold insert at h
  rw [get_bind] at h
  cases hf : t.index.find? k with
  | some i =>
    rw [hf] at h
    obtain ⟨old, t₁, -, h⟩ := steps_of_bind h
    obtain ⟨-, t₂, -, h⟩ := steps_of_bind h
    cases h
    rfl
  | none =>
    rw [hf] at h
    by_cases hfull : t.capacity ≤ t.size
    · simp only [hfull, if_true] at h
      obtain ⟨old, t₁, -, h⟩ := steps_of_bind h
      cases h
      rfl
    · simp only [hfull, if_false] at h
      obtain ⟨i, t₁, -, h⟩ := steps_of_bind h
      obtain ⟨-, t₂, -, h⟩ := steps_of_bind h
      obtain ⟨-, t₃, -, h⟩ := steps_of_bind h
      obtain ⟨-, t₄, -, h⟩ := steps_of_bind h
      cases h
      rfl

end Table

namespace Cache

variable {K V : Type} [BEq K]

/-! ### Actions -/

namespace Action

variable {K V : Type}

/-- The action looks a key up. -/
@[simp] def isFind : Action K V → Bool
  | .find _ => true
  | _ => false

/-- The action stores a value. -/
@[simp] def isStore : Action K V → Bool
  | .store _ _ => true
  | _ => false

/-- The action drops a key. -/
@[simp] def isDrop : Action K V → Bool
  | .drop _ => true
  | _ => false

/-- The action sets the counters to zero. -/
@[simp] def isRecount : Action K V → Bool
  | .recount => true
  | _ => false

end Action

/-! ### What calls return -/

theorem isSome_of_get {k : K} {c c' : Cache K V} {o : Option V} (h : Cache.get k c = .ok o c') :
    o.isSome = c.table.contains k := by
  rw [get_eq] at h
  split at h <;> cases h
  all_goals
    rename_i hlookup
    exact Table.isSome_of_lookup hlookup

theorem eq_of_set {k : K} {v : V} {c c' : Cache K V} {b : Bool} (h : Cache.set k v c = .ok b c') :
    b = !c.table.contains k := by
  rw [set_eq] at h
  split at h <;> cases h
  all_goals
    rename_i hinsert
    exact Table.isNew_of_insert hinsert

theorem isSome_of_remove {k : K} {c c' : Cache K V} {o : Option V} (h : remove k c = .ok o c') :
    o.isSome = c.table.contains k := by
  rw [remove_eq] at h
  split at h <;> cases h
  all_goals
    rename_i hremove
    exact Table.isSome_of_remove hremove

theorem eq_of_delete {k : K} {c c' : Cache K V} {b : Bool} (h : delete k c = .ok b c') :
    b = c.table.contains k := by
  obtain ⟨o, c₁, hremove, h⟩ := Table.steps_of_bind h
  cases h
  exact isSome_of_remove hremove

/-! ### Charges -/

/-- What a request adds to the counters, by what it has returned and noted. -/
def charge (a : Action K V) (returned : Option Bool) (noted : List Event) : Counter → Nat
  | .lookups => a.isFind.toNat
  | .hits => (a.isFind && returned == some true).toNat
  | .misses => (a.isFind && returned == some false).toNat
  | .insertions => (a.isStore && returned == some true).toNat
  | .updates => (a.isStore && returned == some false).toNat
  | .evictions => noted.count .evicted
  | .deletions => (a.isDrop && returned == some true).toNat

/-- What a call returns that does not fault. -/
def verdict (t : Table K V) : Action K V → Bool
  | .find k | .drop k => t.contains k
  | .store k _ => !t.contains k
  | _ => false

/-- The counters and the journal after a call. -/
structure Charged (c c' : Cache K V) (a : Action K V) (returned : Option Bool)
    (noted : List Event) : Prop where
  /-- The journal has got what the call noted. -/
  journal : c'.journal = c.journal ++ noted
  /-- The counters start over, or they have got what the call is charged. -/
  stats : ∀ n, c'.stats.count n =
    if a.isRecount then 0 else c.stats.count n + UInt64.ofNat (charge a returned noted n)

/-- A computation that is charged for an action, with or without a fault. -/
structure Charging {α : Type} (a : Action K V) (x : CacheM K V α) : Prop where
  /-- It is charged for what it returns, and notes one event at most. -/
  ok : ∀ ⦃c b c'⦄, x c = .ok b c' →
    ∃ noted, noted.length ≤ 1 ∧ Charged c c' a (some (verdict c.table a)) noted
  /-- It is charged for a fault, which notes nothing and is not that of a reset. -/
  error : ∀ ⦃c fault c'⦄, x c = .error fault c' →
    a.isRecount = false ∧ Charged c c' a none []

/-- What is worked out from an answer is not charged. -/
theorem Charging.bind_pure {α β : Type} {a : Action K V} {x : CacheM K V α} (hx : Charging a x)
    {f : α → CacheM K V β} (hf : ∀ b, ∃ d, f b = pure d) : Charging a (x >>= f) where
  ok := by
    intro c d c' h
    obtain ⟨b, c₁, hb, h⟩ := Table.steps_of_bind h
    obtain ⟨d', hd⟩ := hf b
    rw [hd] at h
    cases h
    exact hx.ok hb
  error := by
    intro c fault c' h
    rcases Table.fault_of_bind h with h | ⟨b, c₁, -, h⟩
    · exact hx.error h
    · obtain ⟨d', hd⟩ := hf b
      rw [hd] at h
      cases h

/-- A call that leaves the journal alone notes nothing. -/
theorem Charged.of_count {c c' : Cache K V} {a : Action K V} {returned : Option Bool}
    (hjournal : c'.journal = c.journal) (ha : a.isRecount = false)
    (hstats : ∀ n, c'.stats.count n = c.stats.count n + UInt64.ofNat (charge a returned [] n)) :
    Charged c c' a returned [] where
  journal := by rw [hjournal, List.append_nil]
  stats n := by
    rw [ha]
    exact hstats n

theorem charging_get (k : K) : Charging (.find k) (Cache.get k : CacheM K V (Option V)) where
  ok := by
    intro c o c' h
    have hsome := isSome_of_get h
    rw [get_eq] at h
    split at h <;> cases h
    all_goals
      refine ⟨[], Nat.zero_le 1, .of_count rfl rfl fun n => ?_⟩
      cases n <;> simp [Stats.count, charge, verdict, ← hsome]
  error := by
    intro c fault c' h
    rw [get_eq] at h
    split at h <;> cases h
    refine ⟨rfl, .of_count rfl rfl fun n => ?_⟩
    cases n <;> simp [Stats.count, charge]

theorem charging_set (k : K) (v : V) : Charging (.store k v) (Cache.set k v) where
  ok := by
    intro c b c' h
    have hnew := eq_of_set h
    rw [set_eq] at h
    split at h <;> cases h
    · refine ⟨[], Nat.zero_le 1, .of_count rfl rfl fun n => ?_⟩
      cases n <;> simp [Stats.count, charge, verdict, ← hnew]
    · refine ⟨[], Nat.zero_le 1, .of_count rfl rfl fun n => ?_⟩
      cases n <;> simp [Stats.count, charge, verdict, ← hnew]
    · -- The one call whose line in the journal is counted.
      refine ⟨[.evicted], Nat.le_refl 1, rfl, fun n => ?_⟩
      cases n <;> simp [Stats.count, charge, verdict, ← hnew]
  error := by
    intro c fault c' h
    rw [set_eq] at h
    split at h <;> cases h
    refine ⟨rfl, .of_count rfl rfl fun n => ?_⟩
    cases n <;> simp [Stats.count, charge]

theorem charging_remove (k : K) : Charging (.drop k) (remove k : CacheM K V (Option V)) where
  ok := by
    intro c o c' h
    have hsome := isSome_of_remove h
    rw [remove_eq] at h
    split at h <;> cases h
    all_goals
      refine ⟨[], Nat.zero_le 1, .of_count rfl rfl fun n => ?_⟩
      cases n <;> simp [Stats.count, charge, verdict, ← hsome]
  error := by
    intro c fault c' h
    rw [remove_eq] at h
    split at h <;> cases h
    refine ⟨rfl, .of_count rfl rfl fun n => ?_⟩
    cases n <;> simp [Stats.count, charge]

/-- Nothing is charged for reading, and reading notes nothing. -/
theorem charged_read (c : Cache K V) (returned : Option Bool) : Charged c c .read returned [] := by
  refine .of_count rfl rfl fun n => ?_
  cases n <;> simp [charge]

theorem charging_reading {α : Type} (f : Table K V → Except Fault α) :
    Charging .read (onTable (Table.reading f)) where
  ok := by
    intro c b c' h
    rw [onTable_reading_eq] at h
    split at h <;> cases h
    exact ⟨[], Nat.zero_le 1, charged_read c _⟩
  error := by
    intro c fault c' h
    rw [onTable_reading_eq] at h
    split at h <;> cases h
    exact ⟨rfl, charged_read c none⟩

section

variable [OwnsMemory V] [Inhabited V]

omit [Inhabited V] in
theorem charging_clear : Charging .dropAll (clear : CacheM K V Unit) where
  ok := by
    intro c b c' h
    cases h
    refine ⟨[.cleared], Nat.le_refl 1, rfl, fun n => ?_⟩
    cases n <;> simp [charge, Stats.count]
  error := by
    intro c fault c' h
    cases h

/-- A request is charged for its action. -/
theorem charging_handle (r : Request K V) : Charging r.action (handle r) := by
  apply handle_induction (P := fun a x => Charging a x)
  case answer =>
    intro α β a x f hx hf
    exact hx.bind_pure hf
  case find => exact charging_get
  case store => exact charging_set
  case drop => exact charging_remove
  case dropAll => exact charging_clear
  case recount =>
    refine ⟨?_, ?_⟩
    · intro c b c' h
      cases h
      refine ⟨[], Nat.zero_le 1, (List.append_nil _).symm, fun n => ?_⟩
      cases n <;> rfl
    · intro c fault c' h
      cases h
  case ask => exact charging_reading
  case look =>
    intro f
    refine ⟨?_, ?_⟩
    · intro c b c' h
      cases h
      exact ⟨[], Nat.zero_le 1, charged_read c _⟩
    · intro c fault c' h
      cases h

end

/-! ### What answers tell -/

/-- What an answer tells of a key: that it was found, removed or new. The answer of a lookup with a
    default value does not tell whether it is the default; `present` tells it instead. -/
def Response.tells {K V : Type} (present : Bool) : Response K V → Bool
  | .value o => o.isSome
  | .attempt found _ => found
  | .flag b => b
  | _ => present

/-- Whether a table has the key of a lookup in its index. -/
def present (t : Table K V) : Action K V → Bool
  | .find k => t.contains k
  | _ => false

section

variable [OwnsMemory V] [Inhabited V]

/-- As far as it is charged, the answer to a request tells what its call has returned. -/
theorem charge_tells {r : Request K V} {a : Response K V} {c c' : Cache K V}
    (h : handle r c = .ok a c') (noted : List Event) (n : Counter) :
    charge r.action (some (a.tells (present c.table r.action))) noted n =
      charge r.action (some (verdict c.table r.action)) noted n := by
  have htells : ∀ {b b' : Bool}, b = b' →
      charge r.action (some b) noted n = charge r.action (some b') noted n := fun h => by rw [h]
  cases r with
  | get k =>
    obtain ⟨o, c₁, hget, h⟩ := Table.steps_of_bind h
    cases h
    exact htells (isSome_of_get hget)
  | tryGet k before =>
    obtain ⟨out, c₁, htry, h⟩ := Table.steps_of_bind h
    obtain ⟨o, c₂, hget, htry⟩ := Table.steps_of_bind htry
    have hsome := isSome_of_get hget
    cases o <;> cases htry <;> cases h
    · exact htells hsome
    · exact htells hsome
  | getOrDefault k =>
    obtain ⟨v, c₁, -, h⟩ := Table.steps_of_bind h
    cases h
    rfl
  | set k v =>
    obtain ⟨b, c₁, hset, h⟩ := Table.steps_of_bind h
    cases h
    exact htells (eq_of_set hset)
  | setOrDelete k o =>
    obtain ⟨b, c₁, hrun, h⟩ := Table.steps_of_bind h
    cases h
    cases o with
    | some v => exact htells (eq_of_set hrun)
    | none => exact htells (eq_of_delete hrun)
  | delete k =>
    obtain ⟨b, c₁, hdelete, h⟩ := Table.steps_of_bind h
    cases h
    exact htells (eq_of_delete hdelete)
  | remove k =>
    obtain ⟨o, c₁, hremove, h⟩ := Table.steps_of_bind h
    cases h
    exact htells (isSome_of_remove hremove)
  | _ => cases n <;> rfl

end

end Cache

end RecencyCache
