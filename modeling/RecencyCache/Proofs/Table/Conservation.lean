import RecencyCache.Proofs.Queue.Conservation
import RecencyCache.Proofs.Table.History
import RecencyCache.Proofs.Table.Refinement

/-! # No value is lost

  Every value that was given to a table is in its ring, or was handed back,
  or was in the ring when the table was cleared, and no value is in two of
  these places. The entry that an emptied or unused slot may still hold is in
  none of them.

  It is so of the queue that the table represents (`Queue.Proper.conserves`).
  What the table hands back is what the queue does, request by request
  (`Represents.run`).
-/

namespace RecencyCache.Table

open Cache (Action lastStored)

variable {K V : Type}

/-! ### Values given and handed back -/

/-- What a request does to the entries. -/
def Request.action : Request K V → Action K V
  | .insert k v => .store k v
  | .lookup k => .find k
  | .remove k => .drop k
  | .clear => .dropAll
  | .contains _ | .size | .keys | .verify => .read

/-- The value that a request gives to the table. -/
def Request.brought : Request K V → Option V
  | .insert _ v => some v
  | _ => none

/-- The value that the answer to a request hands back, with the key that it is handed back for. -/
def Request.handed : Request K V → Response K V → Option (K × V)
  | .insert k _, .stored (.updated old) => some (k, old)
  | .insert _ _, .stored (.evicted key value) => some (key, value)
  | .remove k, .value (some v) => some (k, v)
  | _, _ => none

/-- What the answers to a history hand back. -/
def handBacks (rs : List (Request K V)) (answers : List (Response K V)) : List (Option (K × V)) :=
  List.zipWith Request.handed rs answers

variable [BEq K]

/-- The values in the ring. -/
def held (t : Table K V) : Multiset V := Entry.values (t.contents t.linked)

section

variable [OwnsMemory V]

/-- The values that were in the ring when the table was cleared. -/
def discards (t : Table K V) : List (Request K V) → Multiset V
  | [] => 0
  | .clear :: rs => t.held + (t.after .clear).discards rs
  | r :: rs => (t.after r).discards rs

end

/-! ### Histories -/

namespace Represents

variable {t : Table K V} {q : Queue K V} {ring : List Nat}

theorem held_eq (h : t.Represents q ring) : t.held = Entry.values q.entries := by
  unfold held
  rw [h.isTidy.isSound.linked_eq, h.contents]

variable [EquivBEq K] [OwnsMemory V]

/-- A table hands back what its queue does, and goes on as its queue does. -/
theorem handle (h : t.Represents q ring) (r : Request K V) :
    ∃ a t' ring', Table.handle r t = .ok a t' ∧ r.handed a = q.handed r.action ∧
      t'.Represents (q.act r.action) ring' := by
  cases r with
  | insert k v =>
    obtain ⟨t', ring', hrun, h'⟩ := h.insert k v
    refine ⟨.stored (q.outcome k), t', ring', bind_of_ok hrun _, ?_, h'⟩
    show Request.handed (.insert k v) (.stored (q.outcome k)) = (q.outcome k).handed k
    cases q.outcome k <;> rfl
  | lookup k =>
    obtain ⟨t', ring', hrun, h'⟩ := h.lookup k
    exact ⟨_, t', ring', bind_of_ok hrun _, rfl, h'⟩
  | remove k =>
    obtain ⟨t', ring', hrun, h'⟩ := h.remove k
    refine ⟨.value (q.remove k).1, t', ring', bind_of_ok hrun _, ?_, h'⟩
    show Request.handed (.remove k) (.value (q.remove k).1) = (q.remove k).1.map (k, ·)
    cases (q.remove k).1 <;> rfl
  | contains k => exact ⟨_, t, ring, rfl, rfl, h⟩
  | size => exact ⟨_, t, ring, rfl, rfl, h⟩
  | clear => exact ⟨.done, _, [], rfl, rfl, h.cleared _⟩
  | keys =>
    have hrun := reading_of_ok h.keysByRecency_eq
    exact ⟨_, t, ring, bind_of_ok hrun _, rfl, h⟩
  | verify =>
    have hrun := reading_of_ok (verify_of_isSound h.isTidy.isSound)
    exact ⟨_, t, ring, bind_of_ok hrun _, rfl, h⟩

/-- The same of a history. -/
theorem run (h : t.Represents q ring) (rs : List (Request K V)) :
    ∃ answers t' ring', Table.run rs t = .ok answers t' ∧ answers.length = rs.length ∧
      handBacks rs answers = q.handBacks (rs.map (·.action)) ∧
      t.discards rs = q.discards (rs.map (·.action)) ∧
      t'.Represents (q.after (rs.map (·.action))) ring' := by
  induction rs generalizing t q ring with
  | nil => exact ⟨[], t, ring, rfl, rfl, rfl, rfl, h⟩
  | cons r rs ih =>
    obtain ⟨a, t₁, ring₁, hrun, hhanded, h₁⟩ := h.handle r
    obtain ⟨answers, t₂, ring₂, hruns, hlen, hbacks, hdiscards, h₂⟩ := ih h₁
    refine ⟨a :: answers, t₂, ring₂, run_cons hrun hruns, ?_, ?_, ?_, h₂⟩
    · rw [List.length_cons, List.length_cons, hlen]
    · show r.handed a :: handBacks rs answers = q.handed r.action :: _
      rw [hhanded, hbacks]
    · show _ = q.discarded r.action + (q.act r.action).discards _
      rw [← hdiscards, ← after_of_ok hrun]
      cases r with
      | clear =>
        show t.held + _ = Entry.values q.entries + _
        rw [h.held_eq]
      | _ => exact (zero_add _).symm

end Represents

/-- Whatever a new table is asked for, the values that were ever given to it are those in the ring,
    those handed back and those in the ring at a clearing. And each value that is handed back is
    the one given last under the key that it is handed back for. -/
theorem run_conserves_values [EquivBEq K] [OwnsMemory V] {capacity : Nat} (hcap : 1 ≤ capacity)
    (rs : List (Request K V)) :
    ∃ t₀ answers t, (∀ indexSize ≤ Index.maxSize, ofSizes capacity indexSize = .ok t₀) ∧
      run rs t₀ = .ok answers t ∧ answers.length = rs.length ∧ t.IsSound t.linked ∧
      (rs.filterMap (·.brought) : Multiset V) =
        t.held + (handBacks rs answers).filterMap (·.map (·.2)) + t₀.discards rs ∧
      ∀ i k v, (handBacks rs answers)[i]? = some (some (k, v)) →
        lastStored k ((rs.take i).map (·.action)) = some v := by
  have hproper := Queue.proper_empty (K := K) (V := V) hcap
  obtain ⟨answers, t, ring, hrun, hlen, hbacks, hdiscards, h⟩ := (represents_fresh hcap).run rs
  have hsound := h.isTidy.isSound
  refine ⟨fresh capacity, answers, t, fun _ hsize => ofSizes_eq hcap hsize, hrun, hlen,
    hsound.linked_eq.symm ▸ hsound, ?_, ?_⟩
  · have hbrought : rs.filterMap (·.brought) = (rs.map (·.action)).filterMap (·.brought) := by
      rw [List.filterMap_map]
      congr 1
      funext r
      cases r <;> rfl
    have hconserves := hproper.conserves (rs.map (·.action))
    rw [h.held_eq, hbacks, hdiscards, hbrought, ← hconserves]
    exact (add_zero _).symm
  · intro i k v hi
    rw [hbacks] at hi
    rw [List.map_take]
    exact Queue.lastStored_of_handBacks hcap hi

/-- With one slot, a value that is replaced, one that is evicted, one that is removed, one that is
    cleared away and one that stays. -/
theorem run_conserves_values_one :
    1 ≤ 1 ∧ ∃ rs t₀ answers t, rs = [.insert 1 10, .insert 1 11, .insert 2 20, .remove 2,
        .insert 3 30, .clear, .insert 4 40] ∧
      ofSizes 1 1 = .ok (t₀ : Table Nat Nat) ∧ run rs t₀ = .ok answers t ∧
      (rs.filterMap (·.brought) : Multiset Nat) =
        t.held + (handBacks rs answers).filterMap (·.map (·.2)) + t₀.discards rs := by
  obtain ⟨t₀, answers, t, hnew, hrun, -, -, hconserves, -⟩ := run_conserves_values
    (Nat.le_refl 1) ([.insert 1 10, .insert 1 11, .insert 2 20, .remove 2, .insert 3 30, .clear,
      .insert 4 40] : List (Request Nat Nat))
  exact ⟨Nat.le_refl 1, _, t₀, answers, t, rfl, hnew 1 (by decide), hrun, hconserves⟩

end RecencyCache.Table
