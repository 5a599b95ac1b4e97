import RecencyCache.Proofs.Table.Packed
import RecencyCache.Proofs.Table.Verdict
import RecencyCache.Table.Requests

/-! # Accepted tables under requests

  A table that `verify` accepts is sound, and sound tables answer every
  request. Whether they stay sound is another matter: `verify` does not look
  for slots that are neither in the ring nor free. Such a slot has leaked, and
  with a leak the number of keys may be the number of a slot in use. It is
  there that a new key goes when nothing is free.

  - `Overwrites` names the requests that meet this.
  - Every other request keeps an accepted table accepted, and those that
    overwrite never do (`handle_of_isSound`).

  Histories of a new table leak no slot, so they never overwrite
  (`IsTidy.not_overwrites`).
-/

namespace RecencyCache.Table

variable {K V : Type} [BEq K] {t : Table K V} {ring : List Nat}

/-- A request overwrites an entry if it stores a new key below the capacity, nothing is free, and
    the slot whose number is the number of keys is that of an indexed key. -/
def Overwrites (t : Table K V) : Request K V → Prop
  | .insert k _ => t.contains k = false ∧ t.size < t.capacity ∧ t.free = [] ∧
      ∃ j, t.index.find? j = some t.size
  | _ => False

variable [EquivBEq K]

/-- The slot for a new entry is in the ring if nothing is free and a key leads to the slot. -/
theorem newSlot_mem_iff (h : t.IsSound ring) :
    t.newSlot ∈ ring ↔ t.free = [] ∧ ∃ j, t.index.find? j = some t.size := by
  have hs := h.isStocked
  unfold newSlot
  cases hfree : t.free with
  | nil =>
    constructor
    · intro hmem
      obtain ⟨e, -, hf⟩ := hs.indexed _ hmem
      exact ⟨rfl, e.key, hf⟩
    · rintro ⟨-, j, hj⟩
      exact (hs.of_find? hj).1
  | cons i l =>
    have hout : i ∉ ring := (hs.free i (by rw [hfree]; exact List.mem_cons_self)).2.2
    simp [hout]

theorem overwrites_insert_iff (h : t.IsSound ring) (k : K) (v : V) :
    t.Overwrites (.insert k v) ↔
      t.index.find? k = none ∧ t.size < t.capacity ∧ t.newSlot ∈ ring := by
  rw [newSlot_mem_iff h, ← contains_eq_false_iff]
  exact Iff.rfl

/-- In a tidy table the slot for a new entry is never in use. -/
theorem IsTidy.not_overwrites (h : t.IsTidy ring) (r : Request K V) : ¬ t.Overwrites r := by
  cases r with
  | insert k v =>
    rw [overwrites_insert_iff h.isSound]
    rintro ⟨-, -, hin⟩
    exact h.isPacked.newSlot_notMem hin
  | _ => exact not_false

variable [OwnsMemory V]

/-- Every request to a sound table is answered. It leaves a sound table if it does not overwrite an
    entry, and only then. -/
theorem handle_of_isSound (hcap : 1 ≤ t.capacity) (h : t.IsSound ring) (r : Request K V) :
    ∃ a t', handle r t = .ok a t' ∧ ((∃ ring', t'.IsSound ring') ↔ ¬ t.Overwrites r) := by
  have hstay : (∃ ring', t.IsSound ring') ↔ ¬ False := iff_of_true ⟨ring, h⟩ not_false
  cases r with
  | insert k v =>
    rw [overwrites_insert_iff h]
    rcases insert_cases h hcap k v with
      ⟨p, i, q, e, t', rfl, he, hek, hrun, hsound, -⟩ |
      ⟨i, q, e, t', -, -, -, hfull, hrun, hsound, -⟩ |
      ⟨t', -, -, hout, hrun, hsound, -⟩ | ⟨t', hk, hroom, hin, hrun, hbad⟩
    · have hs := h.isStocked
      have hf := hs.find?_of_beq (mem_cut p i q) he hek
      exact ⟨_, t', bind_of_ok hrun _, iff_of_true ⟨_, hsound⟩ (by simp [hf])⟩
    · have hno : ¬ t.size < t.capacity := Nat.not_lt.mpr hfull
      exact ⟨_, t', bind_of_ok hrun _, iff_of_true ⟨_, hsound⟩ (by simp [hno])⟩
    · exact ⟨_, t', bind_of_ok hrun _, iff_of_true ⟨_, hsound⟩ (by simp [hout])⟩
    · refine ⟨_, t', bind_of_ok hrun _, iff_of_false ?_ (not_not_intro ⟨hk, hroom, hin⟩)⟩
      rintro ⟨ring', h'⟩
      exact hbad ring' h'
  | lookup k =>
    rcases lookup_cases h k with ⟨-, hrun⟩ | ⟨p, i, q, e, t', -, -, -, hrun, hsound, -⟩
    · exact ⟨_, t, bind_of_ok hrun _, hstay⟩
    · exact ⟨_, t', bind_of_ok hrun _, iff_of_true ⟨_, hsound⟩ not_false⟩
  | remove k =>
    rcases remove_cases h k with ⟨-, hrun⟩ | ⟨p, i, q, e, t', -, -, -, -, hrun, hsound, -⟩
    · exact ⟨_, t, bind_of_ok hrun _, hstay⟩
    · exact ⟨_, t', bind_of_ok hrun _, iff_of_true ⟨_, hsound⟩ not_false⟩
  | clear =>
    have hsound := (isTidy_cleared hcap (OwnsMemory.owns V)).isSound
    exact ⟨.done, _, rfl, iff_of_true ⟨[], hsound⟩ not_false⟩
  | contains k => exact ⟨_, t, rfl, hstay⟩
  | size => exact ⟨_, t, rfl, hstay⟩
  | keys =>
    have hrun := reading_of_ok (keysByRecency_of_isSound h)
    exact ⟨_, t, bind_of_ok hrun _, hstay⟩
  | verify =>
    have hrun := reading_of_ok (verify_of_isSound h)
    exact ⟨_, t, bind_of_ok hrun _, hstay⟩

/-- Every request to an accepted table is answered. Afterwards the table is accepted again, unless
    the request was to store a new key below the capacity while nothing was free and the slot whose
    number is the number of keys was in use. -/
theorem verify_after_request {t : Table K V} (hcap : 1 ≤ t.capacity) (h : t.verify = .ok .sound)
    (r : Request K V) :
    ∃ a t', handle r t = .ok a t' ∧ (t'.verify = .ok .sound ↔ ¬ t.Overwrites r) := by
  obtain ⟨ring, hring⟩ := isSound_of_verify h
  obtain ⟨a, t', hrun, hiff⟩ := handle_of_isSound hcap hring r
  refine ⟨a, t', hrun, ?_⟩
  rw [← hiff]
  constructor
  · exact isSound_of_verify
  · rintro ⟨ring', h'⟩
    exact verify_of_isSound h'

/-- A third key takes the slot on the free stack. -/
theorem verify_after_request_two :
    ∃ t : Table Nat Nat, ∃ a t',
      t = ⟨#[⟨some ⟨5, 50⟩, 1, 1⟩, ⟨some ⟨6, 60⟩, 0, 0⟩, {}],
        (Index.empty.insert 5 0).insert 6 1, [2], some 1⟩ ∧
      1 ≤ t.capacity ∧ t.verify = .ok .sound ∧
      handle (.insert 7 70) t = .ok a t' ∧ t'.verify = .ok .sound := by
  let t : Table Nat Nat := ⟨#[⟨some ⟨5, 50⟩, 1, 1⟩, ⟨some ⟨6, 60⟩, 0, 0⟩, {}],
    (Index.empty.insert 5 0).insert 6 1, [2], some 1⟩
  have hcap : 1 ≤ t.capacity := by decide
  have hok : t.verify = .ok .sound := by decide
  obtain ⟨a, t', hrun, hiff⟩ := verify_after_request hcap hok (.insert 7 70)
  refine ⟨t, a, t', rfl, hcap, hok, hrun, hiff.mpr ?_⟩
  rintro ⟨-, -, hfree, -⟩
  cases hfree

/-- Slot 0 has leaked, and the only key is in slot 1. The table is accepted. The next key goes to
    slot 1 and overwrites the entry there, which leaves two keys and one slot in the ring. -/
theorem leaked_slot_overwrites :
    ∃ t t' : Table Nat Nat,
      t = ⟨#[⟨none, 1, 1⟩, ⟨some ⟨2, 20⟩, 1, 1⟩, {}], Index.empty.insert 2 1, [], some 1⟩ ∧
      t.verify = .ok .sound ∧ insert 3 30 t = .ok .inserted t' ∧
      t'.verify = .ok (.damaged (.sizeMismatch 1 2)) :=
  ⟨_, _, rfl, rfl, rfl, rfl⟩

end RecencyCache.Table
