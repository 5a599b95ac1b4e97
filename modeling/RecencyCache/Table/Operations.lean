import RecencyCache.Table.Ring

/-! # Operations of the slot table

  Looking up, storing and removing entries. A table of `n` slots holds at
  most `n` entries; storing one more evicts the least recently used entry
  and takes over its slot.

  - **Recency**: `lookup` of a key that is there and `insert` make its entry
    the youngest. Nothing else changes the order of the entries that stay.
  - **Slots**: an update keeps the slot and the key's first spelling, an
    eviction reuses the victim's slot, and any other new entry takes the
    slot emptied last, or the first one never used.
-/

namespace RecencyCache

/-- What became of an entry given to `Table.insert`. -/
inductive Insertion (K V : Type) where
  /-- The entry took a slot that was not in use. -/
  | inserted
  /-- The key was there; its value was `old`. -/
  | updated (old : V)
  /-- The table was full; the least recently used entry had to leave. -/
  | evicted (key : K) (value : V)
deriving DecidableEq

/-- Tells whether values of a type hold on to something besides their own bits, which a table
    that drops them has to let go of at once. -/
class OwnsMemory (V : Type) where
  /-- True of types whose values must not stay behind in a slot that is given up. -/
  owns : Bool

instance : OwnsMemory Nat := ⟨false⟩
instance : OwnsMemory Int := ⟨false⟩
instance : OwnsMemory String := ⟨true⟩
instance {α : Type} : OwnsMemory (List α) := ⟨true⟩
instance {α : Type} [OwnsMemory α] : OwnsMemory (Option α) := ⟨OwnsMemory.owns α⟩

namespace Table

variable {K V : Type} [BEq K]

/-! ### Looking up -/

/-- The value stored under a key, whose entry becomes the youngest. -/
def lookup (k : K) : TableM K V (Option V) := do
  match (← get).index.find? k with
  | none => return none
  | some i =>
    rejuvenate i
    return some (← reading (entry · i)).value

/-! ### Storing -/

/-- Gives the entry of slot `i` another value and returns the one it had. -/
def replaceValue (i : Nat) (v : V) : TableM K V V := do
  let e ← reading (entry · i)
  setEntry i (some { e with value := v })
  return e.value

/-- Stores a new entry in the oldest slot, which becomes the youngest. Returns the entry that
    was there. -/
def replaceOldest (k : K) (v : V) : TableM K V (Entry K V) := do
  match (← get).oldest with
  | none => breach .evictionFromEmpty
  | some i =>
    let s ← reading (slot · i)
    -- The new entry is in its place before the old one is looked at.
    setEntry i (some ⟨k, v⟩)
    match s.entry with
    | none => breach .vacantOldest
    | some old =>
      unbindKey old.key
      rejuvenate i
      bindKey k i
      return old

/-- The slot for a new entry: the one emptied last, or else the first one never used. With
    nothing on the free stack, the slots in use are those below the number of keys. -/
def takeSlot : TableM K V Nat := do
  match ← popFree with
  | some i => return i
  | none => return (← get).size

/-- Stores a value under a key and makes its entry the youngest. -/
def insert (k : K) (v : V) : TableM K V (Insertion K V) := do
  let t ← get
  match t.index.find? k with
  | some i =>
    -- The value changes first, so that a fault in the ring keeps the new one.
    let old ← replaceValue i v
    rejuvenate i
    return .updated old
  | none =>
    if t.capacity ≤ t.size then
      let old ← replaceOldest k v
      return .evicted old.key old.value
    else
      let i ← takeSlot
      setEntry i (some ⟨k, v⟩)
      linkYoungest i
      bindKey k i
      return .inserted

/-! ### Removing -/

/-- Drops a key and returns its value. The slot goes onto the free stack. -/
def remove (k : K) : TableM K V (Option V) := do
  match (← get).index.find? k with
  | none => return none
  | some i =>
    -- The key goes before the slot is looked at, so that no later step can bring it back.
    unbindKey k
    unlink i
    match (← reading (slot · i)).entry with
    | none => breach .vacantIndexed
    | some e =>
      setEntry i none
      pushFree i
      return some e.value

/-- The table without entries. Slots are emptied only if `wipe` is set; otherwise old entries
    stay where no key leads to them, until their slot is used again. -/
def cleared (wipe : Bool) (t : Table K V) : Table K V where
  slots := if wipe then t.slots.map fun s => { s with entry := none } else t.slots
  index := Index.empty
  free := []
  oldest := none

/-- Drops every entry, and empties the slots if values own memory. -/
def clear [OwnsMemory V] : TableM K V Unit := modify (cleared (OwnsMemory.owns V))

/-! ### Listing -/

/-- The keys met from slot `i` on, until the ring is back at `start` or `most` keys are read. -/
def keysFrom (t : Table K V) (start : Nat) : (most : Nat) → (i : Nat) → Except Fault (List K)
  | 0, _ => .ok []
  | most + 1, i => do
    let e ← t.entry i
    let s ← t.slot i
    -- Back at the start, the ring is complete.
    if s.next = start then return [e.key]
    return e.key :: (← t.keysFrom start most s.next)

/-- The keys, least recently used first. A ring of a sound table has at most as many slots as
    the table, so a walk that has read one key more is given up. -/
def keysByRecency (t : Table K V) : Except Fault (List K) :=
  match t.oldest with
  | none => .ok []
  | some start => t.keysFrom start (t.capacity + 1) start

end Table

end RecencyCache
