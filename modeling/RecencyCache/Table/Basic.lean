import RecencyCache.Fault
import RecencyCache.Index
import RecencyCache.Slot

/-! # Slot table

  The state of a cache and the accesses every operation is made of. A table
  couples four structures:

  - the **slot array**, of fixed size;
  - the **key index**, from keys to slot numbers;
  - the **free stack**, of slots that were emptied and may be used again;
  - the **oldest** slot, where the ring of links through the occupied slots
    starts. From it `next` runs towards younger entries, and the slot before
    it holds the youngest one.

  Nothing in the type ties the four together: a table value may be damaged
  in any way. `Table.verify` tells sound tables from damaged ones.

  An operation is a `TableM` computation. It reads and writes single slots,
  may stop with a `Fault`, and then leaves the table as it was at that
  point.
-/

namespace RecencyCache

/-- The slots of a cache with the structures that find them. -/
structure Table (K V : Type) [BEq K] where
  /-- All slots, numbered from 0. Their number is the capacity. -/
  slots : Array (Slot K V)
  /-- Where the entry of each key is. -/
  index : Index K
  /-- Emptied slots, the one to use first at the front. -/
  free : List Nat
  /-- The slot with the least recently used entry, if there is an entry. -/
  oldest : Option Nat

/-- A computation on a table that may fault; a fault keeps the changes made before it. -/
abbrev TableM (K V : Type) [BEq K] := EStateM Fault (Table K V)

namespace Table

variable {K V : Type} [BEq K]

/-! ### Building and measuring -/

/-- A table of vacant slots. -/
def fresh (capacity : Nat) : Table K V where
  slots := Array.replicate capacity {}
  index := Index.empty
  free := []
  oldest := none

/-- A table of vacant slots, of which there has to be at least one. -/
def ofCapacity (capacity : Nat) : Except Fault (Table K V) :=
  if capacity < 1 then .error .zeroCapacity else .ok (fresh capacity)

/-- A table of vacant slots whose index has room for `indexSize` keys from the start. The index
    grows when it has to, so the room given to it never shows later. -/
def ofSizes (capacity indexSize : Nat) : Except Fault (Table K V) := do
  let table ← ofCapacity capacity
  if Index.maxSize < indexSize then throw .indexTooLarge
  return table

/-- The number of slots. -/
def capacity (t : Table K V) : Nat := t.slots.size

/-- The number of indexed keys. -/
def size (t : Table K V) : Nat := t.index.size

/-- Whether a key is indexed. -/
def contains (t : Table K V) (k : K) : Bool := t.index.contains k

/-! ### Reading a slot -/

/-- The slot with number `i`. -/
def slot (t : Table K V) (i : Nat) : Except Fault (Slot K V) :=
  match t.slots[i]? with
  | some s => .ok s
  | none => .error (.outOfRange t.slots.size i)

/-- The entry of the slot with number `i`, which must not be vacant. -/
def entry (t : Table K V) (i : Nat) : Except Fault (Entry K V) := do
  match (← t.slot i).entry with
  | some e => .ok e
  | none => .error (.breach .vacantLinked)

/-! ### Steps on a table -/

/-- Reads the table without changing it. -/
def reading {α : Type} (f : Table K V → Except Fault α) : TableM K V α := fun t =>
  match f t with
  | .ok a => .ok a t
  | .error fault => .error fault t

/-- Stops with a failed check. -/
def breach {α : Type} (b : Breach) : TableM K V α := throw (.breach b)

/-- Changes slot `i`. -/
def modifySlot (i : Nat) (f : Slot K V → Slot K V) : TableM K V Unit := fun t =>
  if i < t.slots.size then .ok () { t with slots := t.slots.modify i f }
  else .error (.outOfRange t.slots.size i) t

/-- Points slot `i` to the slot used next after it. -/
def setNext (i next : Nat) : TableM K V Unit := modifySlot i fun s => { s with next }

/-- Points slot `i` to the slot used last before it. -/
def setPrev (i prev : Nat) : TableM K V Unit := modifySlot i fun s => { s with prev }

/-- Fills or empties slot `i` and leaves its links alone. -/
def setEntry (i : Nat) (entry : Option (Entry K V)) : TableM K V Unit :=
  modifySlot i fun s => { s with entry }

/-- Names the slot at which the ring starts. -/
def setOldest (oldest : Option Nat) : TableM K V Unit := modify fun t => { t with oldest }

/-- Binds a key in the index. -/
def bindKey (k : K) (i : Nat) : TableM K V Unit := modify fun t => { t with index := t.index.insert k i }

/-- Drops a key from the index. -/
def unbindKey (k : K) : TableM K V Unit := modify fun t => { t with index := t.index.erase k }

/-- Puts a slot on the free stack. -/
def pushFree (i : Nat) : TableM K V Unit := modify fun t => { t with free := i :: t.free }

/-- Takes the top of the free stack, if there is one. -/
def popFree : TableM K V (Option Nat) := modifyGet fun t => (t.free.head?, { t with free := t.free.tail })

/-! ### Laws

    What the accesses do, in terms of the slot array. -/

/-- A slot is read exactly when its number is in range. -/
theorem slot_eq_ok_iff (t : Table K V) (i : Nat) (s : Slot K V) :
    t.slot i = .ok s ↔ t.slots[i]? = some s := by
  unfold slot
  cases h : t.slots[i]? with
  | none =>
    constructor
    · intro hok
      cases hok
    · intro hsome
      cases hsome
  | some s' =>
    constructor
    · intro hok
      cases hok
      rfl
    · intro hsome
      cases hsome
      rfl

/-- Changing a slot in range always succeeds. -/
theorem modifySlot_of_lt {t : Table K V} {i : Nat} (h : i < t.capacity) (f : Slot K V → Slot K V) :
    modifySlot i f t = .ok () { t with slots := t.slots.modify i f } :=
  if_pos h

/-- No change of a slot changes their number. -/
theorem capacity_modify (t : Table K V) (i : Nat) (f : Slot K V → Slot K V) :
    capacity { t with slots := t.slots.modify i f } = t.capacity :=
  Array.size_modify

end Table

end RecencyCache
