import RecencyCache.Proofs.Table.Sound
import RecencyCache.Proofs.Table.Verdict
import RecencyCache.Table.Requests

/-! # Answers of an accepted table

  What an accepted table answers can be read off its ring: which slots are
  linked, in which order, and which entries they hold. How the table came
  about does not matter, nor what its other slots hold.

  - **What is found** under a key is the entry of a linked slot that has an
    equal key (`Found`). There is at most one (`Found.unique`).
  - **The answer to a request** follows from that, from the oldest entry and
    from whether the table is full (`Answers`).

  A slot that has leaked shows in no answer. The insertion that overwrites an
  entry because of one is answered like any other, though what it leaves is
  not sound.
-/

namespace RecencyCache.Table

variable {K V : Type} [BEq K] {t : Table K V} {ring : List Nat}

/-! ### Entries under a key -/

/-- What some slots have under a key. -/
inductive Found (t : Table K V) (ring : List Nat) (k : K) : Option (Entry K V) → Prop where
  /-- One of them holds an entry with an equal key. -/
  | entry {i : Nat} {e : Entry K V} (hi : i ∈ ring) (he : t.Holds i e)
      (hk : (e.key == k) = true) : t.Found ring k (some e)
  /-- None of them does. -/
  | nothing (h : ∀ i ∈ ring, ∀ e, t.Holds i e → (e.key == k) = false) : t.Found ring k none

/-- The entry of a slot at some place of the ring is found under an equal key. -/
theorem found_cut {p q : List Nat} {i : Nat} {k : K} {e : Entry K V} (he : t.entryAt i = some e)
    (hk : (e.key == k) = true) : t.Found (p ++ i :: q) k (some e) :=
  .entry (mem_cut p i q) ((holds_iff t i e).mpr he) hk

section

variable [EquivBEq K]

/-- Under a key that leads nowhere nothing is found. -/
theorem IsSound.found_nothing (h : t.IsSound ring) {k : K} (hk : t.index.find? k = none) :
    t.Found ring k none := by
  apply Found.nothing
  intro i hi e he
  rw [BEq.comm]
  exact h.isStocked.beq_eq_false_of_none hk hi ((holds_iff t i e).mp he)

/-- In a sound ring one entry at most is found under a key: the index leads to one slot only. -/
theorem Found.unique (h : t.IsSound ring) {k : K} {o o' : Option (Entry K V)}
    (ho : t.Found ring k o) (ho' : t.Found ring k o') : o = o' := by
  have hs := h.isStocked
  cases ho with
  | @entry i e hi he hk =>
    cases ho' with
    | @entry j e' hj he' hk' =>
      rw [holds_iff] at he he'
      have hij : i = j := by
        have hf := hs.find?_of_beq hi he hk
        have hf' := hs.find?_of_beq hj he' hk'
        exact Option.some.inj (hf.symm.trans hf')
      rw [← he, ← he', hij]
    | nothing hnone => exact absurd hk (by simp [hnone i hi e he])
  | nothing hnone =>
    cases ho' with
    | @entry j e' hj he' hk' => exact absurd hk' (by simp [hnone j hj e' he'])
    | nothing _ => rfl

end

/-! ### Answers -/

/-- The answer to a request to a table whose linked slots are those of `ring`. -/
inductive Answers (t : Table K V) (ring : List Nat) : Request K V → Response K V → Prop where
  /-- Looking up gives the value that is found, if there is one. -/
  | lookup {k : K} {o : Option (Entry K V)} (h : t.Found ring k o) :
      t.Answers ring (.lookup k) (.value (o.map (·.value)))
  /-- So does removing. -/
  | remove {k : K} {o : Option (Entry K V)} (h : t.Found ring k o) :
      t.Answers ring (.remove k) (.value (o.map (·.value)))
  /-- Storing under a key that is found gives the value that was there. -/
  | updated {k : K} {v : V} {e : Entry K V} (h : t.Found ring k (some e)) :
      t.Answers ring (.insert k v) (.stored (.updated e.value))
  /-- Storing under another key gives the first entry of the ring if the table is full. -/
  | evicted {k : K} {v : V} {e : Entry K V} (h : t.Found ring k none)
      (hfull : t.size = t.capacity) (hfirst : (t.contents ring).head? = some e) :
      t.Answers ring (.insert k v) (.stored (.evicted e.key e.value))
  /-- Otherwise it gives nothing. -/
  | inserted {k : K} {v : V} (h : t.Found ring k none) (hroom : t.size ≠ t.capacity) :
      t.Answers ring (.insert k v) (.stored .inserted)
  | contains {k : K} {o : Option (Entry K V)} (h : t.Found ring k o) :
      t.Answers ring (.contains k) (.flag o.isSome)
  | size : t.Answers ring .size (.number ring.length)
  | clear : t.Answers ring .clear .done
  /-- The keys come in the order of the ring. -/
  | keys : t.Answers ring .keys (.keys ((t.contents ring).map (·.key)))
  | verify : t.Answers ring .verify (.verdict .sound)

variable [EquivBEq K]

theorem IsSound.insert_answers (h : t.IsSound ring) (hcap : 1 ≤ t.capacity) (k : K) (v : V) :
    ∃ a t', insert k v t = .ok a t' ∧ t.Answers ring (.insert k v) (.stored a) := by
  rcases insert_cases h hcap k v with
    ⟨p, i, q, e, t', rfl, he, hek, hrun, -⟩ |
    ⟨i, q, e, t', rfl, he, hk, hfull, hrun, -⟩ |
    ⟨t', hk, hroom, -, hrun, -⟩ | ⟨t', hk, hroom, -, hrun, -⟩
  · exact ⟨_, t', hrun, .updated (found_cut he hek)⟩
  · -- There are never more keys than slots, so a table with as many is full.
    have hle : t.size ≤ t.capacity := by
      rw [h.size]
      exact h.isStocked.length_le
    have hfirst : (t.contents (i :: q)).head? = some e := by
      rw [contents_cons he]
      rfl
    exact ⟨_, t', hrun, .evicted (h.found_nothing hk) (by omega) hfirst⟩
  · exact ⟨_, t', hrun, .inserted (h.found_nothing hk) (by omega)⟩
  · -- The new entry overwrites another one, which the answer does not tell.
    exact ⟨_, t', hrun, .inserted (h.found_nothing hk) (by omega)⟩

theorem IsSound.lookup_answers (h : t.IsSound ring) (k : K) :
    ∃ a t', lookup k t = .ok a t' ∧ t.Answers ring (.lookup k) (.value a) := by
  rcases lookup_cases h k with ⟨hk, hrun⟩ | ⟨p, i, q, e, t', rfl, he, hek, hrun, -⟩
  · exact ⟨none, t, hrun, .lookup (h.found_nothing hk)⟩
  · exact ⟨some e.value, t', hrun, .lookup (found_cut he hek)⟩

theorem IsSound.remove_answers (h : t.IsSound ring) (k : K) :
    ∃ a t', remove k t = .ok a t' ∧ t.Answers ring (.remove k) (.value a) := by
  rcases remove_cases h k with ⟨hk, hrun⟩ | ⟨p, i, q, e, t', rfl, he, hek, -, hrun, -⟩
  · exact ⟨none, t, hrun, .remove (h.found_nothing hk)⟩
  · exact ⟨some e.value, t', hrun, .remove (found_cut he hek)⟩

theorem IsSound.contains_answers (h : t.IsSound ring) (k : K) :
    t.Answers ring (.contains k) (.flag (t.contains k)) := by
  unfold Table.contains
  rw [Index.contains_eq]
  cases hk : t.index.find? k with
  | none => exact .contains (h.found_nothing hk)
  | some i =>
    obtain ⟨hi, e, he, hek⟩ := h.isStocked.of_find? hk
    exact .contains (.entry hi ((holds_iff t i e).mpr he) hek)

/-- A sound table answers every request. Storing takes a slot at least. -/
theorem IsSound.exists_answer [OwnsMemory V] (h : t.IsSound ring) (r : Request K V)
    (hcap : ∀ k v, r = .insert k v → 1 ≤ t.capacity) :
    ∃ a t', handle r t = .ok a t' ∧ t.Answers ring r a := by
  cases r with
  | insert k v =>
    obtain ⟨a, t', hrun, ha⟩ := h.insert_answers (hcap k v rfl) k v
    exact ⟨_, t', bind_of_ok hrun _, ha⟩
  | lookup k =>
    obtain ⟨a, t', hrun, ha⟩ := h.lookup_answers k
    exact ⟨_, t', bind_of_ok hrun _, ha⟩
  | remove k =>
    obtain ⟨a, t', hrun, ha⟩ := h.remove_answers k
    exact ⟨_, t', bind_of_ok hrun _, ha⟩
  | contains k => exact ⟨_, t, rfl, h.contains_answers k⟩
  | size =>
    refine ⟨_, t, rfl, ?_⟩
    rw [h.size]
    exact .size
  | clear => exact ⟨.done, _, rfl, .clear⟩
  | keys => exact ⟨_, t, bind_of_ok (reading_of_ok (keysByRecency_of_isSound h)) _, .keys⟩
  | verify => exact ⟨_, t, bind_of_ok (reading_of_ok (verify_of_isSound h)) _, .verify⟩

/-- A sound ring leaves one answer only. -/
theorem Answers.unique (h : t.IsSound ring) {r : Request K V} {a b : Response K V}
    (ha : t.Answers ring r a) (hb : t.Answers ring r b) : a = b := by
  cases ha with
  | lookup hfound =>
    cases hb with
    | lookup hfound' => rw [Found.unique h hfound hfound']
  | remove hfound =>
    cases hb with
    | remove hfound' => rw [Found.unique h hfound hfound']
  | contains hfound =>
    cases hb with
    | contains hfound' => rw [Found.unique h hfound hfound']
  | updated hfound =>
    cases hb with
    | updated hfound' =>
      obtain rfl := Option.some.inj (Found.unique h hfound hfound')
      rfl
    | evicted hnone _ _ => cases Found.unique h hfound hnone
    | inserted hnone _ => cases Found.unique h hfound hnone
  | evicted hnone hfull hfirst =>
    cases hb with
    | updated hfound => cases Found.unique h hnone hfound
    | evicted _ _ hfirst' =>
      obtain rfl := Option.some.inj (hfirst.symm.trans hfirst')
      rfl
    | inserted _ hroom => exact absurd hfull hroom
  | inserted hnone hroom =>
    cases hb with
    | updated hfound => cases Found.unique h hnone hfound
    | evicted _ hfull _ => exact absurd hfull hroom
    | inserted _ _ => rfl
  | size => cases hb; rfl
  | clear => cases hb; rfl
  | keys => cases hb; rfl
  | verify => cases hb; rfl

/-- A table without slots is full and has no entry to evict, so it cannot store. `ofCapacity` builds
    none. -/
theorem IsSound.insert_without_slots (h : t.IsSound ring) (hcap : t.capacity = 0) (k : K) (v : V) :
    insert k v t = .error (.breach .evictionFromEmpty) t := by
  obtain ⟨hring, hs⟩ := (isSound_iff t ring).mp h
  have hnil : ring = [] := by
    rw [← List.length_eq_zero_iff, ← Nat.le_zero, ← hcap]
    exact hs.length_le
  subst hnil
  have hk : t.index.find? k = none := by
    cases hf : t.index.find? k with
    | none => rfl
    | some i => cases (hs.of_find? hf).1
  have hold : t.oldest = none := hring.oldest
  unfold insert
  rw [get_bind, hk]
  dsimp only
  rw [if_pos (by omega)]
  unfold replaceOldest
  rw [bind_assoc, get_bind, hold]
  rfl

/-- A table that passes the check has its linked slots in its ring. It answers every request, with
    the one answer that they determine. Only storing needs a slot: a table without slots cannot be
    built, and what storing in it would do is said by `IsSound.insert_without_slots`. -/
theorem answer_of_verify [OwnsMemory V] (h : t.verify = .ok .sound) (r : Request K V)
    (hcap : ∀ k v, r = .insert k v → 1 ≤ t.capacity) :
    t.IsSound t.linked ∧
      ∃ a t', handle r t = .ok a t' ∧ ∀ b, t.Answers t.linked r b ↔ b = a := by
  obtain ⟨ring, hsound⟩ := isSound_of_verify h
  rw [← hsound.linked_eq] at hsound
  obtain ⟨a, t', hrun, ha⟩ := hsound.exists_answer r hcap
  refine ⟨hsound, a, t', hrun, ?_⟩
  intro b
  constructor
  · intro hb
    exact Answers.unique hsound hb ha
  · intro heq
    rw [heq]
    exact ha

/-- Slot 0 has leaked, with an old entry, and the value of slot 1 is replaced. -/
theorem answer_of_verify_leaked :
    ∃ t : Table Nat Nat, ∃ a t',
      t = ⟨#[⟨some ⟨1, 10⟩, 1, 1⟩, ⟨some ⟨2, 20⟩, 1, 1⟩], Index.empty.insert 2 1, [], some 1⟩ ∧
      t.verify = .ok .sound ∧ 1 ≤ t.capacity ∧
      handle (.insert 2 21) t = .ok a t' ∧ a = .stored (.updated 20) := by
  let t : Table Nat Nat :=
    ⟨#[⟨some ⟨1, 10⟩, 1, 1⟩, ⟨some ⟨2, 20⟩, 1, 1⟩], Index.empty.insert 2 1, [], some 1⟩
  have hok : t.verify = .ok .sound := by decide
  have hcap : 1 ≤ t.capacity := by decide
  obtain ⟨-, a, t', hrun, hiff⟩ := answer_of_verify hok (.insert 2 21) fun _ _ _ => hcap
  refine ⟨t, a, t', rfl, hok, hcap, hrun, ?_⟩
  have hslot : t.Holds 1 ⟨2, 20⟩ := ⟨_, rfl, rfl⟩
  have hfound : t.Found t.linked 2 (some ⟨2, 20⟩) := .entry (by decide) hslot (by decide)
  exact ((hiff _).mp (.updated hfound)).symm

end RecencyCache.Table
