import RecencyCache.Table.Basic

/-! # The shape of a sound table

  What it means for a table to be sound, said of the table as a whole: there
  is a list of slots, without repetition, that the ring runs through from
  the oldest slot to the youngest, and everything else agrees with it.

  - `IsRing t ring` is about the links and the start of the ring alone.
  - `IsSound t ring` adds the index and the free stack.
  - `Table.linked` is the list, read off the links. It is a list for any
    table, and the one meant above if the table is sound.

  `Table.verify` looks at one slot at a time and knows none of this.
-/

namespace RecencyCache.Table

variable {K V : Type} [BEq K]

/-- Slots `i` and `j` are neighbours: `i` links forward to `j`, and `j` back to `i`. -/
def Adjacent (t : Table K V) (i j : Nat) : Prop :=
  ∃ a b, t.slots[i]? = some a ∧ t.slots[j]? = some b ∧ a.next = j ∧ b.prev = i

/-- The ring of a table runs through the slots of a list, in their order and back to the first. -/
structure IsRing (t : Table K V) (ring : List Nat) : Prop where
  /-- No slot is there twice. -/
  nodup : ring.Nodup
  /-- The ring starts at the first slot of the list. -/
  oldest : t.oldest = ring.head?
  /-- Each slot is a neighbour of the one after it, and the last one of the first. -/
  adjacent : ∀ p ∈ ring.zip (ring.rotateLeft 1), t.Adjacent p.1 p.2

/-- Slot `i` holds an entry. -/
def Holds (t : Table K V) (i : Nat) (e : Entry K V) : Prop :=
  ∃ s, t.slots[i]? = some s ∧ s.entry = some e

/-- Slot `i` exists and holds no entry. -/
def Vacant (t : Table K V) (i : Nat) : Prop :=
  ∃ s, t.slots[i]? = some s ∧ s.entry = none

/-- A table whose ring, index and free stack agree. -/
structure IsSound (t : Table K V) (ring : List Nat) : Prop where
  /-- The ring runs through the list. -/
  isRing : t.IsRing ring
  /-- Every slot of the ring holds an entry, and the index leads from its key to the slot. -/
  indexed : ∀ i ∈ ring, ∃ e, t.Holds i e ∧ t.index.find? e.key = some i
  /-- There are no keys besides those in the ring. -/
  size : t.size = ring.length
  /-- No slot is on the free stack twice. -/
  free_nodup : t.free.Nodup
  /-- Every slot on the free stack is vacant and not in the ring. -/
  free_vacant : ∀ i ∈ t.free, t.Vacant i ∧ i ∉ ring

/-- At most `n` slots, from slot `i` on, each one followed by the one that it links forward to. -/
def follow (t : Table K V) : (n : Nat) → (i : Option Nat) → List Nat
  | 0, _ => []
  | _ + 1, none => []
  | n + 1, some i => i :: t.follow n (t.slots[i]?.map (·.next))

/-- The slots met on the way from the oldest one, as many as there are keys. -/
def linked (t : Table K V) : List Nat := t.follow t.size t.oldest

/-- A table without entries is sound, with the empty ring. -/
theorem isSound_fresh (capacity : Nat) : (fresh capacity : Table K V).IsSound [] where
  isRing :=
    { nodup := .nil
      oldest := rfl
      adjacent := by
        intro p hp
        cases hp }
  indexed := by
    intro i hi
    cases hi
  size := rfl
  free_nodup := .nil
  free_vacant := by
    intro i hi
    cases hi

end RecencyCache.Table
