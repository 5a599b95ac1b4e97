import Mathlib.Algebra.Order.Group.Multiset
import RecencyCache.Proofs.Queue.Residency

/-! # Where values are

  A value that was stored is in the queue, or it was handed back, or it was
  there when the queue was emptied; and in one place only. Values are
  counted, not compared, so these are equations between multisets.

  - **Handed back** (`handed`) are the value that another one replaces, the
    entry that makes room, and the value that is removed, each with the key
    that it is handed back for.
  - **Conservation**: an action moves values between these places
    (`Proper.conserves_act`), and so does a history (`Proper.conserves`).
  - **Provenance**: what is handed back was stored last under its key
    (`lastStored_of_handBacks`).
-/

namespace RecencyCache

open Cache (Action lastStored lastStored_congr)

variable {K V : Type}

/-- The values of some entries. -/
def Entry.values (es : List (Entry K V)) : Multiset V := (es.map (·.value) : List V)

namespace Entry

@[simp] theorem values_nil : values ([] : List (Entry K V)) = 0 := rfl

@[simp] theorem values_cons (e : Entry K V) (es : List (Entry K V)) :
    values (e :: es) = {e.value} + values es := rfl

@[simp] theorem values_append (es fs : List (Entry K V)) :
    values (es ++ fs) = values es + values fs := by
  unfold values
  rw [List.map_append, Multiset.coe_add]

end Entry

/-- The value that an action brings. -/
def Cache.Action.brought : Action K V → Option V
  | .store _ v => some v
  | _ => none

/-- What storing under `k` hands back. -/
def Insertion.handed (k : K) : Insertion K V → Option (K × V)
  | .inserted => none
  | .updated old => some (k, old)
  | .evicted key value => some (key, value)

/-- The values in an optional place. -/
def worth : Option V → Multiset V
  | none => 0
  | some v => {v}

@[simp] theorem worth_none : worth (none : Option V) = 0 := rfl

@[simp] theorem worth_some (v : V) : worth (some v) = {v} := rfl

/-- The values in a list of optional places are those in the first one and those in the others. -/
theorem coe_filterMap_cons {α : Type} (f : α → Option V) (a : α) (as : List α) :
    ((a :: as).filterMap f : Multiset V) = worth (f a) + as.filterMap f := by
  rw [List.filterMap_cons]
  cases f a with
  | none => exact (zero_add _).symm
  | some v => rfl

namespace Queue

variable [BEq K] {q : Queue K V}

/-- What an action hands back, with the key that it is handed back for. -/
def handed (q : Queue K V) : Action K V → Option (K × V)
  | .store k _ => (q.outcome k).handed k
  | .drop k => (q.remove k).1.map (k, ·)
  | _ => none

/-- The values that an action discards. -/
def discarded (q : Queue K V) : Action K V → Multiset V
  | .dropAll => Entry.values q.entries
  | _ => 0

variable [EquivBEq K]

/-- An action moves values, and brings one at most. -/
theorem Proper.conserves_act (h : q.Proper) (a : Action K V) :
    worth a.brought + Entry.values q.entries =
      Entry.values (q.act a).entries + worth ((q.handed a).map (·.2)) + q.discarded a := by
  cases a with
  | find k =>
    show 0 + Entry.values q.entries = Entry.values (q.lookup k).2.entries + 0 + 0
    rcases h.has_or_lacks k with ⟨a, e, b, hhas⟩ | hlacks
    · rw [lookup_of_has hhas, hhas.entries]
      simp only [Entry.values_append, Entry.values_cons, Entry.values_nil]
      ac_rfl
    · rw [lookup_of_lacks hlacks]
      ac_rfl
  | store k v =>
    show {v} + Entry.values q.entries =
      Entry.values (q.store k v).2.entries + worth (((q.outcome k).handed k).map (·.2)) + 0
    rcases h.has_or_lacks k with ⟨a, e, b, hhas⟩ | hlacks
    · -- The old value is handed back.
      rw [store_of_has hhas, outcome_of_has hhas, hhas.entries]
      simp only [Entry.values_append, Entry.values_cons, Entry.values_nil, Insertion.handed,
        Option.map_some, worth_some]
      ac_rfl
    · by_cases hroom : q.entries.length < q.capacity
      · rw [store_of_lacks_of_lt hlacks hroom, outcome_of_lacks_of_lt hlacks hroom]
        simp only [Entry.values_append, Entry.values_cons, Entry.values_nil, Insertion.handed,
          Option.map_none, worth_none]
        ac_rfl
      · -- The first entry is handed back; a full queue has one.
        have hfull := Nat.not_lt.mp hroom
        have hpos := h.room
        obtain ⟨e, rest, hentries⟩ := List.exists_cons_of_length_pos (Nat.lt_of_lt_of_le hpos hfull)
        have hfirst : q.entries.head? = some e := by rw [hentries]; rfl
        rw [store_of_lacks_of_le hlacks hfull, outcome_of_lacks_of_le hlacks hfull hfirst, hentries]
        simp only [Entry.values_append, Entry.values_cons, Entry.values_nil, Insertion.handed,
          Option.map_some, worth_some, List.tail_cons]
        ac_rfl
  | drop k =>
    show 0 + Entry.values q.entries =
      Entry.values (q.remove k).2.entries + worth (((q.remove k).1.map (k, ·)).map (·.2)) + 0
    rcases h.has_or_lacks k with ⟨a, e, b, hhas⟩ | hlacks
    · rw [remove_of_has hhas, hhas.entries]
      simp only [Entry.values_append, Entry.values_cons, Option.map_some, worth_some]
      ac_rfl
    · rw [remove_of_lacks hlacks]
      ac_rfl
  | dropAll =>
    show 0 + Entry.values q.entries = 0 + 0 + Entry.values q.entries
    rfl
  | recount =>
    show 0 + Entry.values q.entries = Entry.values q.entries + 0 + 0
    ac_rfl
  | read =>
    show 0 + Entry.values q.entries = Entry.values q.entries + 0 + 0
    ac_rfl

/-- What a history hands back, action by action. -/
def handBacks (q : Queue K V) : List (Action K V) → List (Option (K × V))
  | [] => []
  | a :: as => q.handed a :: (q.act a).handBacks as

/-- The values that a history discards. -/
def discards (q : Queue K V) : List (Action K V) → Multiset V
  | [] => 0
  | a :: as => q.discarded a + (q.act a).discards as

/-- A history moves values, and brings no others than it says. -/
theorem Proper.conserves (h : q.Proper) (as : List (Action K V)) :
    (as.filterMap (·.brought) : Multiset V) + Entry.values q.entries =
      Entry.values (q.after as).entries + (q.handBacks as).filterMap (·.map (·.2)) +
        q.discards as := by
  induction as generalizing q with
  | nil =>
    show 0 + Entry.values q.entries = Entry.values q.entries + 0 + 0
    ac_rfl
  | cons a as ih =>
    have hstep := h.conserves_act a
    have hrest := ih (h.act a)
    rw [coe_filterMap_cons]
    show _ = Entry.values ((q.act a).after as).entries +
      ((q.handed a :: (q.act a).handBacks as).filterMap (·.map (·.2)) : Multiset V) +
        (q.discarded a + (q.act a).discards as)
    rw [coe_filterMap_cons]
    calc worth a.brought + (as.filterMap (·.brought) : Multiset V) + Entry.values q.entries
      _ = (worth a.brought + Entry.values q.entries) + (as.filterMap (·.brought) : Multiset V) := by
        ac_rfl
      _ = ((as.filterMap (·.brought) : Multiset V) + Entry.values (q.act a).entries) +
            worth ((q.handed a).map (·.2)) + q.discarded a := by
        rw [hstep]
        ac_rfl
      _ = _ := by
        rw [hrest]
        ac_rfl

/-! ### Provenance -/

/-- What is handed back was in the queue, under an equal key. -/
theorem Proper.exists_handed (h : q.Proper) {a : Action K V} {k : K} {v : V}
    (ha : q.handed a = some (k, v)) : ∃ e ∈ q.entries, (e.key == k) = true ∧ e.value = v := by
  cases a with
  | store j w =>
    change (q.outcome j).handed j = some (k, v) at ha
    rcases h.has_or_lacks j with ⟨a, e, b, hhas⟩ | hlacks
    · rw [outcome_of_has hhas] at ha
      cases ha
      exact ⟨e, mem_of_find? (find?_of_has hhas), hhas.key, rfl⟩
    · unfold outcome at ha
      rw [find?_of_lacks hlacks] at ha
      dsimp only at ha
      split at ha
      · cases ha
      · split at ha
        · rename_i e hfirst
          cases ha
          exact ⟨e, List.mem_of_head? hfirst, BEq.rfl, rfl⟩
        · cases ha
  | drop j =>
    change (q.remove j).1.map (j, ·) = some (k, v) at ha
    rcases h.has_or_lacks j with ⟨a, e, b, hhas⟩ | hlacks
    · rw [remove_of_has hhas] at ha
      cases ha
      exact ⟨e, mem_of_find? (find?_of_has hhas), hhas.key, rfl⟩
    · rw [remove_of_lacks hlacks] at ha
      cases ha
  | _ => cases ha

/-- What is handed back was stored last under the key that it is handed back for. -/
theorem lastStored_of_handed {n : Nat} (hn : 1 ≤ n) {as : List (Action K V)} {a : Action K V}
    {k : K} {v : V} (ha : ((empty n).after as).handed a = some (k, v)) :
    lastStored k as = some v := by
  obtain ⟨e, he, hk, rfl⟩ := ((proper_empty hn).after as).exists_handed ha
  rw [← lastStored_congr hk]
  exact value_after hn as e he

omit [EquivBEq K] in
/-- At each place of a history stands what the queue then hands back. -/
theorem handBacks_getElem? (q : Queue K V) (as : List (Action K V)) (i : Nat) :
    (q.handBacks as)[i]? = as[i]?.map (q.after (as.take i)).handed := by
  induction as generalizing q i with
  | nil => rfl
  | cons a as ih =>
    cases i with
    | zero => rfl
    | succ i => exact ih (q.act a) i

/-- So every value that a history hands back was stored last under its key at the time. -/
theorem lastStored_of_handBacks {n : Nat} (hn : 1 ≤ n) {as : List (Action K V)} {i : Nat} {k : K}
    {v : V} (h : ((empty n).handBacks as)[i]? = some (some (k, v))) :
    lastStored k (as.take i) = some v := by
  rw [handBacks_getElem?] at h
  obtain ⟨a, -, ha⟩ := Option.map_eq_some_iff.mp h
  exact lastStored_of_handed hn ha

end Queue

end RecencyCache
