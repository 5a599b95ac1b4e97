import RecencyCache.Error

/-! # Options of a cache

  What a caller fixes before a cache is built: how many entries it may
  hold, its name, and how large the key index should be at the start.

  - **Check before building**: `check` accepts the options exactly when the
    capacity is at least one and the hint, if there is one, is at most the
    capacity (`check_eq_ok_iff`).
  - **First fault wins**: a zero capacity is reported before a large hint.
-/

namespace RecencyCache

/-- The options a cache is built from. -/
structure Options where
  /-- The number of slots, and so the most entries held at once. -/
  capacity : Nat := 1024
  /-- The name in log lines and error texts. -/
  name : String := "lru"
  /-- How many keys the index should have room for at the start. -/
  tableSizeHint : Option Nat := none
deriving DecidableEq

namespace Options

/-! ### Building -/

/-- The default options with another capacity. -/
def ofCapacity (capacity : Nat) : Options := { capacity }

/-- The same options with another capacity. -/
def withCapacity (o : Options) (capacity : Nat) : Options := { o with capacity }

/-- The same options with another name. -/
def withName (o : Options) (name : String) : Options := { o with name }

/-- The same options with a size for the index. -/
def withTableSizeHint (o : Options) (hint : Nat) : Options := { o with tableSizeHint := some hint }

/-- The size the index starts with: the hint, or half the capacity and at least one. -/
def effectiveTableSize (o : Options) : Nat := o.tableSizeHint.getD (max (o.capacity / 2) 1)

/-! ### Checking -/

/-- Why options are refused. -/
inductive Invalid where
  /-- The cache called `name` would have no slot. -/
  | zeroCapacity (name : String)
  /-- The index of the cache called `name` would be larger than the cache. -/
  | hintAboveCapacity (name : String) (hint capacity : Nat)
deriving DecidableEq

/-- The wording of a refusal, which opens with the cache's name. -/
def Invalid.toError : Invalid → Error
  | .zeroCapacity name =>
    .invalidArgument (name ++ ": capacity must be >= 1, got 0")
  | .hintAboveCapacity name hint capacity =>
    .invalidArgument
      (name ++ ": table_size_hint (" ++ toString hint ++ ") must not exceed capacity ("
        ++ toString capacity ++ ")")

/-- The first fault of the options, or nothing. -/
def check (o : Options) : Except Invalid Unit :=
  if o.capacity < 1 then .error (.zeroCapacity o.name)
  else match o.tableSizeHint with
    | none => .ok ()
    | some hint =>
      if o.capacity < hint then .error (.hintAboveCapacity o.name hint o.capacity)
      else .ok ()

/-- Options pass exactly when there is a slot and the hint stays within the capacity. -/
theorem check_eq_ok_iff (o : Options) :
    o.check = .ok () ↔ 1 ≤ o.capacity ∧ ∀ hint, o.tableSizeHint = some hint → hint ≤ o.capacity := by
  unfold check
  by_cases hcap : o.capacity < 1
  · rw [if_pos hcap]
    constructor
    · intro h
      cases h
    · intro h
      exact absurd hcap (Nat.not_lt.mpr h.1)
  · rw [if_neg hcap]
    have hpos : 1 ≤ o.capacity := Nat.not_lt.mp hcap
    cases hhint : o.tableSizeHint with
    | none =>
      constructor
      · intro _
        refine ⟨hpos, fun _ h => ?_⟩
        cases h
      · intro _
        rfl
    | some hint =>
      show (if o.capacity < hint then _ else _) = _ ↔ _
      by_cases habove : o.capacity < hint
      · rw [if_pos habove]
        constructor
        · intro h
          cases h
        · intro h
          exact absurd habove (Nat.not_lt.mpr (h.2 hint rfl))
      · rw [if_neg habove]
        constructor
        · intro _
          refine ⟨hpos, fun n hn => ?_⟩
          cases hn
          exact Nat.not_lt.mp habove
        · intro _
          rfl

end Options

end RecencyCache
