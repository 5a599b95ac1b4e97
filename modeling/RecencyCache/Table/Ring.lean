import RecencyCache.Table.Basic

/-! # Recency ring

  The links of the occupied slots form a ring. It starts at the oldest slot,
  `next` runs towards younger entries, and the slot before the oldest one is
  the youngest, from which `next` leads back to the start.

  The three operations act on this sequence of slots:

  - `unlink` takes a slot out of the ring;
  - `linkYoungest` puts a slot in at the young end;
  - `rejuvenate` moves a slot to the young end.

  None of them touches an entry, the index or the free stack. They follow
  the links they find, so on a damaged table the order of their reads and
  writes decides what is left behind.
-/

namespace RecencyCache.Table

variable {K V : Type} [BEq K]

/-- Takes slot `i` out of the ring. The slot keeps its own links. The ring starts at the next
    slot if it started at `i`, and nowhere if `i` was alone. -/
def unlink (i : Nat) : TableM K V Unit := do
  match (← get).oldest with
  | none => breach .unlinkFromEmpty
  | some oldest =>
    let s ← reading (slot · i)
    if s.next = i then
      -- A slot that is its own neighbour has to be the whole ring.
      if oldest = i then setOldest none else breach .strayLoop
    else
      setPrev s.next s.prev
      setNext s.prev s.next
      if oldest = i then setOldest (some s.next)

/-- Puts slot `i` in between the youngest slot and the oldest one. In an empty ring it becomes
    its own neighbour, and the oldest slot. -/
def linkYoungest (i : Nat) : TableM K V Unit := do
  match (← get).oldest with
  | none =>
    setNext i i
    setPrev i i
    setOldest (some i)
  | some oldest =>
    -- The youngest slot is read before any link changes, since it may be `oldest` itself.
    let youngest := (← reading (slot · oldest)).prev
    setNext i oldest
    setPrev i youngest
    setNext youngest i
    setPrev oldest i

/-- Moves slot `i` to the young end of the ring. A slot that is alone is there already. -/
def rejuvenate (i : Nat) : TableM K V Unit := do
  let s ← reading (slot · i)
  if s.next = i then
    if (← get).oldest ≠ some i then breach .strayLoop
  else
    unlink i
    linkYoungest i

end RecencyCache.Table
