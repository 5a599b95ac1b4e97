import RecencyCache.Table.Operations
import RecencyCache.Table.Shape

/-! # Accesses as equations

  What a proof about an operation needs to know of the single accesses that
  it is made of.

  - **Views**: `nextAt`, `prevAt` and `entryAt` read the three parts of a
    slot by its number. Neighbourhood, holding and vacancy are statements
    about them (`adjacent_iff`, `holds_iff`, `vacant_iff`).
  - **Writes**: each write of `TableM` has a pure form (`putNext`, `putPrev`,
    `putEntry`), which it equals in range, and every view of a written table
    is known.
  - **Steps**: `bind_of_ok` runs the first step of a computation, so that an
    operation is carried out by one rewriting for each access.
-/

namespace RecencyCache.Table

variable {K V : Type} [BEq K]

/-! ### Steps -/

/-- A computation goes on from where its first step ended. -/
theorem bind_of_ok {ε σ α β : Type} {x : EStateM ε σ α} {s s' : σ} {a : α} (h : x s = .ok a s')
    (f : α → EStateM ε σ β) : (x >>= f) s = f a s' := by
  show EStateM.bind x f s = f a s'
  unfold EStateM.bind
  rw [h]

/-- A computation that ends well took its first step well. -/
theorem steps_of_bind {ε σ α β : Type} {x : EStateM ε σ α} {f : α → EStateM ε σ β} {s s'' : σ}
    {b : β} (h : (x >>= f) s = .ok b s'') : ∃ a s', x s = .ok a s' ∧ f a s' = .ok b s'' := by
  change EStateM.bind x f s = .ok b s'' at h
  unfold EStateM.bind at h
  cases hx : x s with
  | ok a s' =>
    rw [hx] at h
    exact ⟨a, s', rfl, h⟩
  | error fault s' =>
    rw [hx] at h
    cases h

/-- A computation that faults does so in its first step, or goes on from there and faults later. -/
theorem fault_of_bind {ε σ α β : Type} {x : EStateM ε σ α} {f : α → EStateM ε σ β} {s s'' : σ}
    {e : ε} (h : (x >>= f) s = .error e s'') :
    x s = .error e s'' ∨ ∃ a s', x s = .ok a s' ∧ f a s' = .error e s'' := by
  change EStateM.bind x f s = .error e s'' at h
  unfold EStateM.bind at h
  cases hx : x s with
  | ok a s' =>
    rw [hx] at h
    exact .inr ⟨a, s', rfl, h⟩
  | error fault s' =>
    rw [hx] at h
    cases h
    exact .inl rfl

/-- Asking for the table hands the table over. -/
theorem get_bind {β : Type} (f : Table K V → TableM K V β) (t : Table K V) :
    (get >>= f) t = f t t := rfl

/-- A reading that succeeds leaves the table alone. -/
theorem reading_of_ok {α : Type} {f : Table K V → Except Fault α} {t : Table K V} {a : α}
    (h : f t = .ok a) : reading f t = .ok a t := by
  unfold reading
  rw [h]

/-- A reading that ends well has seen the table as it is. -/
theorem ok_of_reading {α : Type} {f : Table K V → Except Fault α} {t t' : Table K V} {a : α}
    (h : reading f t = .ok a t') : t' = t ∧ f t = .ok a := by
  unfold reading at h
  cases hf : f t with
  | ok b =>
    rw [hf] at h
    cases h
    exact ⟨rfl, rfl⟩
  | error fault =>
    rw [hf] at h
    cases h

/-- A reading that faults leaves the table alone, too. -/
theorem fault_of_reading {α : Type} {f : Table K V → Except Fault α} {t t' : Table K V}
    {fault : Fault} (h : reading f t = .error fault t') : t' = t ∧ f t = .error fault := by
  unfold reading at h
  cases hf : f t with
  | ok a =>
    rw [hf] at h
    cases h
  | error fault' =>
    rw [hf] at h
    cases h
    exact ⟨rfl, rfl⟩

/-- A reading that ends well began well. -/
theorem ok_of_bind {α β : Type} {x : Except Fault α} {f : α → Except Fault β} {b : β}
    (h : x >>= f = .ok b) : ∃ a, x = .ok a ∧ f a = .ok b := by
  cases x with
  | error fault => cases h
  | ok a => exact ⟨a, rfl, h⟩

/-! ### Views -/

/-- The number that slot `i` links forward to. -/
def nextAt (t : Table K V) (i : Nat) : Option Nat := t.slots[i]?.map (·.next)

/-- The number that slot `i` links back to. -/
def prevAt (t : Table K V) (i : Nat) : Option Nat := t.slots[i]?.map (·.prev)

/-- The entry of slot `i`, if there is such a slot and it is not vacant. -/
def entryAt (t : Table K V) (i : Nat) : Option (Entry K V) := t.slots[i]?.bind (·.entry)

theorem adjacent_iff (t : Table K V) (i j : Nat) :
    t.Adjacent i j ↔ t.nextAt i = some j ∧ t.prevAt j = some i := by
  unfold Adjacent nextAt prevAt
  rw [Option.map_eq_some_iff, Option.map_eq_some_iff]
  constructor
  · rintro ⟨a, b, ha, hb, hnext, hprev⟩
    exact ⟨⟨a, ha, hnext⟩, ⟨b, hb, hprev⟩⟩
  · rintro ⟨⟨a, ha, hnext⟩, ⟨b, hb, hprev⟩⟩
    exact ⟨a, b, ha, hb, hnext, hprev⟩

theorem holds_iff (t : Table K V) (i : Nat) (e : Entry K V) :
    t.Holds i e ↔ t.entryAt i = some e := by
  unfold Holds entryAt
  rw [Option.bind_eq_some_iff]

theorem vacant_iff (t : Table K V) (i : Nat) :
    t.Vacant i ↔ i < t.capacity ∧ t.entryAt i = none := by
  unfold Vacant entryAt capacity
  by_cases hi : i < t.slots.size
  · rw [Array.getElem?_eq_getElem hi]
    simp [hi]
  · rw [Array.getElem?_eq_none (Nat.not_lt.mp hi)]
    simp [hi]

/-- A slot that can be read is in range. -/
theorem lt_capacity_of_slots {t : Table K V} {i : Nat} {s : Slot K V} (h : t.slots[i]? = some s) :
    i < t.capacity :=
  (Array.getElem?_eq_some_iff.mp h).1

theorem lt_capacity_of_nextAt {t : Table K V} {i n : Nat} (h : t.nextAt i = some n) :
    i < t.capacity := by
  obtain ⟨s, hs, -⟩ := Option.map_eq_some_iff.mp h
  exact lt_capacity_of_slots hs

theorem lt_capacity_of_prevAt {t : Table K V} {i p : Nat} (h : t.prevAt i = some p) :
    i < t.capacity := by
  obtain ⟨s, hs, -⟩ := Option.map_eq_some_iff.mp h
  exact lt_capacity_of_slots hs

theorem lt_capacity_of_entryAt {t : Table K V} {i : Nat} {e : Entry K V}
    (h : t.entryAt i = some e) : i < t.capacity := by
  obtain ⟨s, hs, -⟩ := Option.bind_eq_some_iff.mp h
  exact lt_capacity_of_slots hs

theorem entryAt_of_le {t : Table K V} {i : Nat} (h : t.capacity ≤ i) : t.entryAt i = none := by
  unfold entryAt
  rw [Array.getElem?_eq_none h]
  rfl

/-- A slot in range can be read. -/
theorem exists_slot {t : Table K V} {i : Nat} (h : i < t.capacity) : ∃ s, t.slot i = .ok s :=
  ⟨_, (slot_eq_ok_iff t i _).mpr (Array.getElem?_eq_getElem h)⟩

/-- A slot in range has a forward link. -/
theorem exists_nextAt {t : Table K V} {i : Nat} (h : i < t.capacity) :
    ∃ n, t.nextAt i = some n := by
  unfold nextAt
  rw [Array.getElem?_eq_getElem h]
  exact ⟨_, rfl⟩

/-- A slot in range has a backward link. -/
theorem exists_prevAt {t : Table K V} {i : Nat} (h : i < t.capacity) :
    ∃ p, t.prevAt i = some p := by
  unfold prevAt
  rw [Array.getElem?_eq_getElem h]
  exact ⟨_, rfl⟩

/-- Reading a slot yields its three views. -/
theorem slot_of_views {t : Table K V} {i n p : Nat} (hn : t.nextAt i = some n)
    (hp : t.prevAt i = some p) : t.slot i = .ok ⟨t.entryAt i, n, p⟩ := by
  unfold nextAt prevAt entryAt at *
  obtain ⟨s, hs, rfl⟩ := Option.map_eq_some_iff.mp hn
  rw [hs] at hp ⊢
  rw [slot_eq_ok_iff, hs]
  cases hp
  rfl

/-- The three views are what reading the slot yields. -/
theorem views_of_slot {t : Table K V} {i : Nat} {s : Slot K V} (h : t.slot i = .ok s) :
    t.nextAt i = some s.next ∧ t.prevAt i = some s.prev ∧ t.entryAt i = s.entry := by
  unfold nextAt prevAt entryAt
  rw [(slot_eq_ok_iff t i s).mp h]
  exact ⟨rfl, rfl, rfl⟩

/-- The entry of a slot is read where the view shows one. -/
theorem entry_eq_ok_iff (t : Table K V) (i : Nat) (e : Entry K V) :
    t.entry i = .ok e ↔ t.entryAt i = some e := by
  unfold entry entryAt slot
  cases t.slots[i]? with
  | none =>
    constructor
    · intro h
      cases h
    · intro h
      cases h
  | some s =>
    obtain ⟨entry, next, prev⟩ := s
    cases entry with
    | none =>
      constructor
      · intro h
        cases h
      · intro h
        cases h
    | some e' =>
      constructor
      · intro h
        cases h
        rfl
      · intro h
        cases h
        rfl

/-- A key that is not there is looked up in vain. -/
theorem contains_eq_false_iff (t : Table K V) (k : K) :
    t.contains k = false ↔ t.index.find? k = none := by
  unfold contains
  rw [Index.contains_eq, Option.isSome_eq_false_iff, Option.isNone_iff_eq_none]

/-! ### Writes -/

/-- The table with another forward link in slot `i`. -/
def putNext (t : Table K V) (i next : Nat) : Table K V :=
  { t with slots := t.slots.modify i fun s => { s with next } }

/-- The table with another backward link in slot `i`. -/
def putPrev (t : Table K V) (i prev : Nat) : Table K V :=
  { t with slots := t.slots.modify i fun s => { s with prev } }

/-- The table with another content of slot `i`. -/
def putEntry (t : Table K V) (i : Nat) (entry : Option (Entry K V)) : Table K V :=
  { t with slots := t.slots.modify i fun s => { s with entry } }

/-- The table with another start of the ring. -/
def putOldest (t : Table K V) (oldest : Option Nat) : Table K V := { t with oldest }

/-- The table with another index. -/
def putIndex (t : Table K V) (index : Index K) : Table K V := { t with index }

/-- The table with another free stack. -/
def putFree (t : Table K V) (free : List Nat) : Table K V := { t with free }

theorem setNext_of_lt {t : Table K V} {i : Nat} (h : i < t.capacity) (n : Nat) :
    setNext i n t = .ok () (t.putNext i n) :=
  modifySlot_of_lt h _

theorem setPrev_of_lt {t : Table K V} {i : Nat} (h : i < t.capacity) (p : Nat) :
    setPrev i p t = .ok () (t.putPrev i p) :=
  modifySlot_of_lt h _

theorem setEntry_of_lt {t : Table K V} {i : Nat} (h : i < t.capacity) (e : Option (Entry K V)) :
    setEntry i e t = .ok () (t.putEntry i e) :=
  modifySlot_of_lt h _

/-- A write that ends well was in range. -/
theorem modifySlot_cases {t t' : Table K V} {i : Nat} {f : Slot K V → Slot K V}
    (h : modifySlot i f t = .ok () t') :
    i < t.capacity ∧ t' = { t with slots := t.slots.modify i f } := by
  unfold modifySlot at h
  split at h
  · rename_i hi
    cases h
    exact ⟨hi, rfl⟩
  · cases h

theorem setOldest_run (t : Table K V) (o : Option Nat) :
    setOldest o t = .ok () (t.putOldest o) := rfl

theorem bindKey_run (t : Table K V) (k : K) (i : Nat) :
    bindKey k i t = .ok () (t.putIndex (t.index.insert k i)) := rfl

theorem unbindKey_run (t : Table K V) (k : K) :
    unbindKey k t = .ok () (t.putIndex (t.index.erase k)) := rfl

theorem pushFree_run (t : Table K V) (i : Nat) :
    pushFree i t = .ok () (t.putFree (i :: t.free)) := rfl

theorem popFree_run (t : Table K V) :
    popFree t = .ok t.free.head? (t.putFree t.free.tail) := rfl

/-! ### Views of written tables -/

/-- A write to slot `i` is seen in slot `i`. -/
theorem slots_modify_self {t : Table K V} {i : Nat} (h : i < t.capacity)
    (f : Slot K V → Slot K V) :
    ∃ s, t.slots[i]? = some s ∧ (t.slots.modify i f)[i]? = some (f s) := by
  refine ⟨t.slots[i], Array.getElem?_eq_getElem h, ?_⟩
  rw [Array.getElem?_modify, if_pos rfl, Array.getElem?_eq_getElem h]
  rfl

/-- A write to slot `i` is seen nowhere else. -/
theorem slots_modify_ne (t : Table K V) {i j : Nat} (h : j ≠ i) (f : Slot K V → Slot K V) :
    (t.slots.modify i f)[j]? = t.slots[j]? := by
  rw [Array.getElem?_modify, if_neg (Ne.symm h)]

theorem nextAt_putNext_self {t : Table K V} {i : Nat} (h : i < t.capacity) (n : Nat) :
    (t.putNext i n).nextAt i = some n := by
  obtain ⟨s, -, hw⟩ := slots_modify_self h fun s : Slot K V => { s with next := n }
  show ((t.slots.modify i _)[i]?).map _ = some n
  rw [hw]
  rfl

theorem nextAt_putNext_ne (t : Table K V) {i j : Nat} (h : j ≠ i) (n : Nat) :
    (t.putNext i n).nextAt j = t.nextAt j :=
  congrArg (Option.map _) (slots_modify_ne t h _)

theorem prevAt_putPrev_self {t : Table K V} {i : Nat} (h : i < t.capacity) (p : Nat) :
    (t.putPrev i p).prevAt i = some p := by
  obtain ⟨s, -, hw⟩ := slots_modify_self h fun s : Slot K V => { s with prev := p }
  show ((t.slots.modify i _)[i]?).map _ = some p
  rw [hw]
  rfl

theorem prevAt_putPrev_ne (t : Table K V) {i j : Nat} (h : j ≠ i) (p : Nat) :
    (t.putPrev i p).prevAt j = t.prevAt j :=
  congrArg (Option.map _) (slots_modify_ne t h _)

theorem entryAt_putEntry_self {t : Table K V} {i : Nat} (h : i < t.capacity)
    (e : Option (Entry K V)) : (t.putEntry i e).entryAt i = e := by
  obtain ⟨s, -, hw⟩ := slots_modify_self h fun s : Slot K V => { s with entry := e }
  show ((t.slots.modify i _)[i]?).bind _ = e
  rw [hw]
  rfl

theorem entryAt_putEntry_ne (t : Table K V) {i j : Nat} (h : j ≠ i) (e : Option (Entry K V)) :
    (t.putEntry i e).entryAt j = t.entryAt j :=
  congrArg (Option.bind · _) (slots_modify_ne t h _)

/-- Of two writes to the entry of a slot the second one stays. -/
theorem putEntry_putEntry (t : Table K V) (i : Nat) (x y : Option (Entry K V)) :
    (t.putEntry i x).putEntry i y = t.putEntry i y := by
  have hslots : (t.slots.modify i fun s => { s with entry := x }).modify i
      (fun s => { s with entry := y }) = t.slots.modify i fun s => { s with entry := y } := by
    apply Array.ext_getElem?
    intro j
    rw [Array.getElem?_modify, Array.getElem?_modify, Array.getElem?_modify]
    split
    · rw [Option.map_map]
      rfl
    · rfl
  unfold putEntry
  rw [hslots]

/-- An entry that is written over itself changes nothing. -/
theorem putEntry_entryAt (t : Table K V) (i : Nat) : t.putEntry i (t.entryAt i) = t := by
  have hslots : (t.slots.modify i fun s => { s with entry := t.entryAt i }) = t.slots := by
    apply Array.ext_getElem?
    intro j
    rw [Array.getElem?_modify]
    split
    · rename_i hij
      subst hij
      unfold entryAt
      cases t.slots[i]? <;> rfl
    · rfl
  unfold putEntry
  rw [hslots]

/-- A view that a write does not concern stays as it is. -/
theorem map_slots_modify {α : Type} (t : Table K V) (i j : Nat) {f : Slot K V → Slot K V}
    {view : Slot K V → α} (h : ∀ s, view (f s) = view s) :
    ((t.slots.modify i f)[j]?).map view = t.slots[j]?.map view := by
  rw [Array.getElem?_modify]
  split
  · rw [Option.map_map]
    exact congrArg (Option.map · _) (funext h)
  · rfl

@[simp] theorem prevAt_putNext (t : Table K V) (i n j : Nat) :
    (t.putNext i n).prevAt j = t.prevAt j :=
  map_slots_modify t i j fun _ => rfl

@[simp] theorem nextAt_putPrev (t : Table K V) (i p j : Nat) :
    (t.putPrev i p).nextAt j = t.nextAt j :=
  map_slots_modify t i j fun _ => rfl

@[simp] theorem nextAt_putEntry (t : Table K V) (i j : Nat) (e : Option (Entry K V)) :
    (t.putEntry i e).nextAt j = t.nextAt j :=
  map_slots_modify t i j fun _ => rfl

@[simp] theorem prevAt_putEntry (t : Table K V) (i j : Nat) (e : Option (Entry K V)) :
    (t.putEntry i e).prevAt j = t.prevAt j :=
  map_slots_modify t i j fun _ => rfl

/-- The entry is a view like the links, joined once. -/
theorem entryAt_eq_join (t : Table K V) (i : Nat) :
    t.entryAt i = (t.slots[i]?.map (·.entry)).join := by
  unfold entryAt
  cases t.slots[i]? <;> rfl

@[simp] theorem entryAt_putNext (t : Table K V) (i n j : Nat) :
    (t.putNext i n).entryAt j = t.entryAt j := by
  rw [entryAt_eq_join, entryAt_eq_join]
  exact congrArg Option.join (map_slots_modify t i j fun _ => rfl)

@[simp] theorem entryAt_putPrev (t : Table K V) (i p j : Nat) :
    (t.putPrev i p).entryAt j = t.entryAt j := by
  rw [entryAt_eq_join, entryAt_eq_join]
  exact congrArg Option.join (map_slots_modify t i j fun _ => rfl)

@[simp] theorem capacity_putNext (t : Table K V) (i n : Nat) :
    (t.putNext i n).capacity = t.capacity :=
  capacity_modify t i _

@[simp] theorem capacity_putPrev (t : Table K V) (i p : Nat) :
    (t.putPrev i p).capacity = t.capacity :=
  capacity_modify t i _

@[simp] theorem capacity_putEntry (t : Table K V) (i : Nat) (e : Option (Entry K V)) :
    (t.putEntry i e).capacity = t.capacity :=
  capacity_modify t i _

@[simp] theorem index_putEntry (t : Table K V) (i : Nat) (e : Option (Entry K V)) :
    (t.putEntry i e).index = t.index := rfl

@[simp] theorem free_putEntry (t : Table K V) (i : Nat) (e : Option (Entry K V)) :
    (t.putEntry i e).free = t.free := rfl

@[simp] theorem entryAt_putIndex (t : Table K V) (m : Index K) (j : Nat) :
    (t.putIndex m).entryAt j = t.entryAt j := rfl

end RecencyCache.Table
