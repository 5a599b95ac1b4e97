import RecencyCache.Proofs.Table.Bypass
import RecencyCache.Proofs.Table.Upkeep
import RecencyCache.Proofs.Table.Walk

/-! # What a failed check leaves behind

  A breach stops an operation half way, on a table that is damaged in
  whatever way. Whether the damage can still be seen depends on what the
  operation changed before.

  - **What is checked**: only `unlink`, `rejuvenate` and reads of entries make
    checks. The other accesses are `Unchecked`, and the ring operations change
    nothing but links (`Relinks`), also on damaged tables.
  - **What is wrong**: a slot that fails a check is `Unfit`. It cannot be in
    the ring of a sound table (`IsSound.notMem_of_unfit`).
  - **What is left**: after a lookup or an insertion the key of the unfit slot
    is still indexed, so the table is not sound (`insert_breach`,
    `lookup_breach`). A removal has dropped the key first (`remove_breach`),
    and what it leaves is sound if the table was sound past the slot.
-/

namespace RecencyCache

/-! ### Wording -/

/-- The first letter of a sentence is that of its first part. -/
theorem head?_toList_append {s : String} {c : Char} (h : s.toList.head? = some c)
    (rest : String) : (s ++ rest).toList.head? = some c := by
  rw [String.toList_append, List.head?_append, h]
  rfl

/-- Only a failed check is worded as a corruption. -/
theorem Fault.exists_breach {fault : Fault} {detail : String}
    (h : fault.message = (Error.corruption detail).message) : ∃ b, fault = .breach b := by
  -- The sentences differ in their first letter.
  have hD : fault.message.toList.head? = some 'D' := h ▸ head?_toList_append rfl detail
  cases fault with
  | breach b => exact ⟨b, rfl⟩
  | zeroCapacity => exact absurd hD (by decide)
  | indexTooLarge => exact absurd hD (by decide)
  | outOfRange size index =>
    have hi : (Fault.outOfRange size index).message.toList.head? = some 'i' :=
      head?_toList_append (head?_toList_append (head?_toList_append rfl _) _) _
    rw [hi] at hD
    exact absurd hD (by decide)
  | invalidOptions cause =>
    have hI : (Fault.invalidOptions cause).message.toList.head? = some 'I' := by
      cases cause <;> exact head?_toList_append rfl _
    rw [hI] at hD
    exact absurd hD (by decide)

namespace Table

variable {K V : Type} [BEq K] {α β : Type}

/-! ### Computations without checks -/

/-- A computation that makes no check on the structure. It may still read or write a slot that is
    not there. -/
def Unchecked (x : TableM K V α) : Prop := ∀ t b t', x t ≠ .error (.breach b) t'

theorem Unchecked.bind {x : TableM K V α} {f : α → TableM K V β} (hx : Unchecked x)
    (hf : ∀ a, Unchecked (f a)) : Unchecked (x >>= f) := by
  intro t b t' h
  rcases fault_of_bind h with h | ⟨a, t₁, -, h⟩
  · exact hx t b t' h
  · exact hf a t₁ b t' h

theorem unchecked_pure (a : α) : Unchecked (pure a : TableM K V α) := by
  intro t b t' h
  cases h

theorem unchecked_get : Unchecked (get : TableM K V (Table K V)) := by
  intro t b t' h
  cases h

theorem unchecked_modifySlot (i : Nat) (f : Slot K V → Slot K V) : Unchecked (modifySlot i f) := by
  intro t b t' h
  unfold modifySlot at h
  split at h <;> cases h

theorem unchecked_setOldest (o : Option Nat) : Unchecked (setOldest o : TableM K V Unit) := by
  intro t b t' h
  cases h

theorem slot_ne_breach (t : Table K V) (i : Nat) (b : Breach) :
    t.slot i ≠ .error (.breach b) := by
  unfold slot
  cases t.slots[i]? with
  | none =>
    intro h
    cases h
  | some s =>
    intro h
    cases h

theorem unchecked_reading_slot (i : Nat) :
    Unchecked (reading (slot · i) : TableM K V (Slot K V)) := by
  intro t b t' h
  exact slot_ne_breach t i b (fault_of_reading h).2

theorem unchecked_linkYoungest (i : Nat) : Unchecked (linkYoungest i : TableM K V Unit) := by
  refine unchecked_get.bind fun t => ?_
  cases t.oldest with
  | none =>
    exact (unchecked_modifySlot _ _).bind fun _ =>
      (unchecked_modifySlot _ _).bind fun _ => unchecked_setOldest _
  | some o =>
    exact (unchecked_reading_slot _).bind fun _ => (unchecked_modifySlot _ _).bind fun _ =>
      (unchecked_modifySlot _ _).bind fun _ => (unchecked_modifySlot _ _).bind fun _ =>
        unchecked_modifySlot _ _

/-! ### Links alone -/

/-- A computation that changes links and the start of the ring, and nothing else. -/
def Relinks (x : TableM K V α) : Prop := ∀ ⦃t a t'⦄, x t = .ok a t' → ∃ l, Relinked l t t'

theorem Relinks.bind {x : TableM K V α} {f : α → TableM K V β} (hx : Relinks x)
    (hf : ∀ a, Relinks (f a)) : Relinks (x >>= f) := by
  intro t b t' h
  obtain ⟨a, t₁, ha, h⟩ := steps_of_bind h
  obtain ⟨l, hl⟩ := hx ha
  obtain ⟨l', hl'⟩ := hf a h
  exact ⟨l ++ l', hl.trans hl'⟩

theorem relinks_pure (a : α) : Relinks (pure a : TableM K V α) := by
  intro t b t' h
  cases h
  exact ⟨[], .refl _ _⟩

theorem relinks_get : Relinks (get : TableM K V (Table K V)) := by
  intro t b t' h
  cases h
  exact ⟨[], .refl _ _⟩

theorem relinks_breach (b : Breach) : Relinks (breach b : TableM K V α) := by
  intro t a t' h
  cases h

theorem relinks_reading (f : Table K V → Except Fault α) : Relinks (reading f) := by
  intro t a t' h
  obtain ⟨rfl, -⟩ := ok_of_reading h
  exact ⟨[], .refl _ _⟩

theorem relinks_setNext (i n : Nat) : Relinks (setNext i n : TableM K V Unit) := by
  intro t a t' h
  obtain ⟨-, rfl⟩ := modifySlot_cases h
  exact ⟨[i], .putNext t i n⟩

theorem relinks_setPrev (i p : Nat) : Relinks (setPrev i p : TableM K V Unit) := by
  intro t a t' h
  obtain ⟨-, rfl⟩ := modifySlot_cases h
  exact ⟨[i], .putPrev t i p⟩

theorem relinks_setOldest (o : Option Nat) : Relinks (setOldest o : TableM K V Unit) := by
  intro t a t' h
  cases h
  exact ⟨[], .putOldest t o⟩

theorem relinks_unlink (i : Nat) : Relinks (unlink i : TableM K V Unit) := by
  intro t a t' h
  rcases unlink_cases h with ⟨-, -, rfl⟩ | ⟨n, p, o, -, -, -, -, -, -, rfl⟩
  · exact ⟨[], .putOldest t none⟩
  · exact ⟨_, ((Relinked.putPrev t n p).trans (.putNext _ p n)).trans (.putOldest _ _)⟩

theorem relinks_linkYoungest (i : Nat) : Relinks (linkYoungest i : TableM K V Unit) := by
  refine relinks_get.bind fun t => ?_
  cases t.oldest with
  | none =>
    exact (relinks_setNext _ _).bind fun _ => (relinks_setPrev _ _).bind fun _ =>
      relinks_setOldest _
  | some o =>
    exact (relinks_reading _).bind fun _ => (relinks_setNext _ _).bind fun _ =>
      (relinks_setPrev _ _).bind fun _ => (relinks_setNext _ _).bind fun _ => relinks_setPrev _ _

theorem relinks_rejuvenate (i : Nat) : Relinks (rejuvenate i : TableM K V Unit) := by
  refine (relinks_reading _).bind fun s => ?_
  split
  · refine relinks_get.bind fun t => ?_
    split
    · exact relinks_breach _
    · exact relinks_pure _
  · exact (relinks_unlink i).bind fun _ => relinks_linkYoungest i

/-! ### Failed checks -/

/-- Slot `i` is not in the ring: there is none, or the slot is its own neighbour and not the
    start. -/
def Stray (t : Table K V) (i : Nat) : Prop :=
  t.oldest = none ∨ (t.nextAt i = some i ∧ t.oldest ≠ some i)

/-- A slot that is not in the ring has no neighbours there, so nothing changes past it. -/
theorem Stray.bypassed {t : Table K V} {i : Nat} (h : t.Stray i) : t.Bypassed i t where
  oldest := by
    have hstart : t.oldest ≠ some i := by
      rcases h with hnone | ⟨-, hstart⟩
      · simp [hnone]
      · exact hstart
    exact (if_pos hstart).symm
  links hstart j := by
    rcases h with hnone | ⟨hloop, -⟩
    · exact absurd hnone hstart
    · unfold nextPast prevPast
      simp [hloop]

theorem unlink_breach {t t' : Table K V} {i : Nat} {b : Breach}
    (h : unlink i t = .error (.breach b) t') : t' = t ∧ t.Stray i := by
  unfold unlink at h
  rw [get_bind] at h
  cases ho : t.oldest with
  | none =>
    rw [ho] at h
    cases h
    exact ⟨rfl, .inl ho⟩
  | some o =>
    rw [ho] at h
    rcases fault_of_bind h with hread | ⟨s, t₁, hread, hrest⟩
    · exact absurd hread (unchecked_reading_slot i t b t')
    · obtain ⟨rfl, hs⟩ := ok_of_reading hread
      by_cases hloop : s.next = i
      · rw [if_pos hloop] at hrest
        by_cases hoi : o = i
        · rw [if_pos hoi] at hrest
          cases hrest
        · rw [if_neg hoi] at hrest
          cases hrest
          refine ⟨rfl, .inr ⟨?_, ?_⟩⟩
          · rw [(views_of_slot hs).1, hloop]
          · rw [ho]
            exact fun heq => hoi (Option.some.inj heq)
      · -- With neighbours the slot is taken out, and nothing else is checked.
        rw [if_neg hloop] at hrest
        have hquiet : Unchecked (do
            setPrev s.next s.prev
            setNext s.prev s.next
            if o = i then setOldest (some s.next) : TableM K V Unit) := by
          refine (unchecked_modifySlot _ _).bind fun _ => ?_
          refine (unchecked_modifySlot _ _).bind fun _ => ?_
          split
          · exact unchecked_setOldest _
          · exact unchecked_pure _
        exact absurd hrest (hquiet _ b t')

theorem rejuvenate_breach {t t' : Table K V} {i : Nat} {b : Breach}
    (h : rejuvenate i t = .error (.breach b) t') : t' = t ∧ t.Stray i := by
  unfold rejuvenate at h
  rcases fault_of_bind h with hread | ⟨s, t₁, hread, hrest⟩
  · exact absurd hread (unchecked_reading_slot i t b t')
  · obtain ⟨rfl, hs⟩ := ok_of_reading hread
    by_cases hloop : s.next = i
    · rw [if_pos hloop, get_bind] at hrest
      by_cases hoi : t₁.oldest ≠ some i
      · rw [if_pos hoi] at hrest
        cases hrest
        refine ⟨rfl, .inr ⟨?_, hoi⟩⟩
        rw [(views_of_slot hs).1, hloop]
      · rw [if_neg hoi] at hrest
        cases hrest
    · rw [if_neg hloop] at hrest
      rcases fault_of_bind hrest with hout | ⟨_, t₂, -, hin⟩
      · exact unlink_breach hout
      · exact absurd hin (unchecked_linkYoungest i t₂ b t')

theorem entry_breach {t : Table K V} {i : Nat} {b : Breach}
    (h : t.entry i = .error (.breach b)) : t.entryAt i = none := by
  cases he : t.entryAt i with
  | none => rfl
  | some e =>
    rw [(entry_eq_ok_iff t i e).mpr he] at h
    cases h

/-! ### What the operations leave -/

/-- Slot `i` is vacant, or outside the ring. -/
def Unfit (t : Table K V) (i : Nat) : Prop := t.entryAt i = none ∨ t.Stray i

/-- No slot of the ring of a sound table is unfit. -/
theorem IsSound.notMem_of_unfit {t : Table K V} {ring : List Nat} {i : Nat} (h : t.IsSound ring)
    (hi : t.Unfit i) : i ∉ ring := by
  obtain ⟨hring, hs⟩ := (isSound_iff t ring).mp h
  intro hmem
  obtain ⟨p, q, rfl⟩ := List.append_of_mem hmem
  rcases hi with hvacant | hnone | ⟨hloop, hstart⟩
  · obtain ⟨e, he, -⟩ := hs.indexed i hmem
    rw [hvacant] at he
    cases he
  · have hhead := hring.oldest
    rw [hnone] at hhead
    cases p <;> cases hhead
  · obtain ⟨hout, -, ⟨rfl, rfl, -, -⟩ | ⟨hl, -, hn, -⟩⟩ := hring.cut
    · exact hstart hring.oldest
    · -- A slot with neighbours links to one of them, not to itself.
      rw [hloop] at hn
      exact hout (Option.some.inj hn ▸ List.head_mem hl)

theorem lookup_breach {t t' : Table K V} {k : K} {b : Breach}
    (h : lookup k t = .error (.breach b) t') : ∃ i, t'.index.find? k = some i ∧ t'.Unfit i := by
  unfold lookup at h
  rw [get_bind] at h
  cases hf : t.index.find? k with
  | none =>
    rw [hf] at h
    cases h
  | some i =>
    rw [hf] at h
    rcases fault_of_bind h with hmove | ⟨_, t₁, hmove, hrest⟩
    · obtain ⟨rfl, hstray⟩ := rejuvenate_breach hmove
      exact ⟨i, hf, .inr hstray⟩
    · obtain ⟨l, hframe⟩ := relinks_rejuvenate i hmove
      rcases fault_of_bind hrest with hread | ⟨e, t₂, -, hend⟩
      · obtain ⟨rfl, hentry⟩ := fault_of_reading hread
        exact ⟨i, hframe.index ▸ hf, .inl (entry_breach hentry)⟩
      · cases hend

/-- A removal that fails a check has dropped the key and left the slot out of the ring. -/
theorem remove_breach {t t' : Table K V} {k : K} {b : Breach}
    (h : remove k t = .error (.breach b) t') :
    ∃ i touched, t.index.find? k = some i ∧ t.Bypassed i t' ∧
      Relinked touched (t.putIndex (t.index.erase k)) t' ∧ t'.Unfit i := by
  unfold remove at h
  rw [get_bind] at h
  cases hf : t.index.find? k with
  | none =>
    rw [hf] at h
    cases h
  | some i =>
    rw [hf] at h
    dsimp only at h
    rw [bind_of_ok (unbindKey_run t k)] at h
    rcases fault_of_bind h with hout | ⟨_, t₁, hout, hrest⟩
    · obtain ⟨rfl, hstray⟩ := unlink_breach hout
      exact ⟨i, [], rfl, hstray.bypassed.of_putIndex, .refl _ _, .inr hstray⟩
    · have hpast := (bypassed_of_unlink hout).of_putIndex
      obtain ⟨l, hframe⟩ := relinks_unlink i hout
      rcases fault_of_bind hrest with hread | ⟨s, t₂, hread, hend⟩
      · exact absurd hread (unchecked_reading_slot i t₁ b t')
      · obtain ⟨rfl, hs⟩ := ok_of_reading hread
        cases he : s.entry with
        | none =>
          rw [he] at hend
          cases hend
          exact ⟨i, l, rfl, hpast, hframe, .inl ((views_of_slot hs).2.2.trans he)⟩
        | some e =>
          -- The slot is emptied and freed without a further check.
          rw [he] at hend
          have hquiet : Unchecked (do
              setEntry i none
              pushFree i
              return some e.value : TableM K V (Option V)) := by
            refine (unchecked_modifySlot _ _).bind fun _ => ?_
            intro t b t' h
            cases h
          exact absurd hend (hquiet _ b t')

theorem replaceValue_breach {t t' : Table K V} {i : Nat} {v : V} {b : Breach}
    (h : replaceValue i v t = .error (.breach b) t') : t' = t ∧ t.entryAt i = none := by
  unfold replaceValue at h
  rcases fault_of_bind h with hread | ⟨e, t₁, -, hrest⟩
  · obtain ⟨rfl, hentry⟩ := fault_of_reading hread
    exact ⟨rfl, entry_breach hentry⟩
  · have hquiet : Unchecked (do
        setEntry i (some { e with value := v })
        return e.value : TableM K V V) :=
      (unchecked_modifySlot _ _).bind fun _ => unchecked_pure _
    exact absurd hrest (hquiet t₁ b t')

theorem index_of_replaceValue {t t' : Table K V} {i : Nat} {v old : V}
    (h : replaceValue i v t = .ok old t') : t'.index = t.index := by
  unfold replaceValue at h
  obtain ⟨e, t₁, hread, hrest⟩ := steps_of_bind h
  obtain ⟨rfl, -⟩ := ok_of_reading hread
  obtain ⟨_, t₂, hset, hend⟩ := steps_of_bind hrest
  obtain ⟨-, rfl⟩ := modifySlot_cases hset
  cases hend
  rfl

/-- What can stop an eviction: there is no oldest slot, or it was vacant. In that case it holds the
    new entry already, whose key is not in the index yet. -/
theorem replaceOldest_breach {t t' : Table K V} {k : K} {v : V} {b : Breach}
    (h : replaceOldest k v t = .error (.breach b) t') :
    (t' = t ∧ t.oldest = none) ∨
      ∃ i, t'.oldest = some i ∧ t'.entryAt i = some ⟨k, v⟩ ∧ t'.index = t.index := by
  unfold replaceOldest at h
  rw [get_bind] at h
  cases ho : t.oldest with
  | none =>
    rw [ho] at h
    cases h
    exact .inl ⟨rfl, rfl⟩
  | some i =>
    rw [ho] at h
    rcases fault_of_bind h with hread | ⟨s, t₁, hread, hrest⟩
    · exact absurd hread (unchecked_reading_slot i t b t')
    · obtain ⟨rfl, -⟩ := ok_of_reading hread
      rcases fault_of_bind hrest with hset | ⟨_, t₂, hset, hrest⟩
      · exact absurd hset (unchecked_modifySlot i _ t₁ b t')
      · obtain ⟨hi, rfl⟩ := modifySlot_cases hset
        cases he : s.entry with
        | none =>
          rw [he] at hrest
          cases hrest
          exact .inr ⟨i, ho, entryAt_putEntry_self hi _, rfl⟩
        | some old =>
          -- The slot is the start of the ring, so the promotion finds nothing wrong with it.
          rw [he] at hrest
          dsimp only at hrest
          rw [bind_of_ok (unbindKey_run _ old.key)] at hrest
          rcases fault_of_bind hrest with hmove | ⟨_, t₃, -, hend⟩
          · obtain ⟨rfl, hnone | ⟨-, hstart⟩⟩ := rejuvenate_breach hmove
            · exact absurd (ho.symm.trans hnone) (by simp)
            · exact absurd ho hstart
          · cases hend

theorem insert_breach {t t' : Table K V} {k : K} {v : V} {b : Breach}
    (h : insert k v t = .error (.breach b) t') :
    (∃ i, t'.index.find? k = some i ∧ t'.Unfit i) ∨
      (t' = t ∧ t.oldest = none ∧ t.capacity ≤ t.size) ∨
      ∃ i, t'.oldest = some i ∧ t'.entryAt i = some ⟨k, v⟩ ∧ t'.index.find? k = none := by
  unfold insert at h
  rw [get_bind] at h
  cases hf : t.index.find? k with
  | some i =>
    rw [hf] at h
    refine .inl ?_
    rcases fault_of_bind h with hput | ⟨old, t₁, hput, hrest⟩
    · obtain ⟨rfl, hvacant⟩ := replaceValue_breach hput
      exact ⟨i, hf, .inl hvacant⟩
    · have hindex := index_of_replaceValue hput
      rcases fault_of_bind hrest with hmove | ⟨_, t₂, -, hend⟩
      · obtain ⟨rfl, hstray⟩ := rejuvenate_breach hmove
        exact ⟨i, hindex ▸ hf, .inr hstray⟩
      · cases hend
  | none =>
    rw [hf] at h
    refine .inr ?_
    dsimp only at h
    by_cases hfull : t.capacity ≤ t.size
    · rw [if_pos hfull] at h
      rcases fault_of_bind h with hout | ⟨_, t₁, -, hend⟩
      · rcases replaceOldest_breach hout with ⟨rfl, hnone⟩ | ⟨i, hstart, he, hindex⟩
        · exact .inl ⟨rfl, hnone, hfull⟩
        · exact .inr ⟨i, hstart, he, hindex ▸ hf⟩
      · cases hend
    · -- Below the capacity nothing is checked.
      rw [if_neg hfull, bind_of_ok (takeSlot_run t)] at h
      have hquiet : Unchecked (do
          setEntry t.newSlot (some ⟨k, v⟩)
          linkYoungest t.newSlot
          bindKey k t.newSlot
          return .inserted : TableM K V (Insertion K V)) := by
        refine (unchecked_modifySlot _ _).bind fun _ => (unchecked_linkYoungest _).bind fun _ => ?_
        intro t b t' h
        cases h
      exact absurd h (hquiet _ b t')

variable [EquivBEq K]

/-- After a failed check of `lookup` the key still leads to the slot that failed it. -/
theorem not_isSound_of_lookup_breach {t t' : Table K V} {k : K} {b : Breach}
    (h : lookup k t = .error (.breach b) t') (ring : List Nat) : ¬ t'.IsSound ring := by
  intro hsound
  have hs := hsound.isStocked
  obtain ⟨i, hf, hunfit⟩ := lookup_breach h
  exact hsound.notMem_of_unfit hunfit (hs.of_find? hf).1

/-- After a failed check of `insert` the key still leads to the slot that failed it, or keys are
    left without a ring, or the oldest slot has a key that is not in the index. -/
theorem not_isSound_of_insert_breach {t t' : Table K V} (hcap : 1 ≤ t.capacity) {k : K} {v : V}
    {b : Breach} (h : insert k v t = .error (.breach b) t') (ring : List Nat) :
    ¬ t'.IsSound ring := by
  intro hsound
  obtain ⟨hring, hs⟩ := (isSound_iff t' ring).mp hsound
  rcases insert_breach h with ⟨i, hf, hunfit⟩ | ⟨rfl, hnone, hfull⟩ | ⟨i, hstart, he, hf⟩
  · exact hsound.notMem_of_unfit hunfit (hs.of_find? hf).1
  · have hsize : t'.size = ring.length := hs.size
    have hhead := hring.oldest
    rw [hnone] at hhead
    cases ring with
    | nil =>
      simp at hsize
      omega
    | cons i l => cases hhead
  · have hmem : i ∈ ring := List.mem_of_head? (hring.oldest.symm.trans hstart)
    have hkey := hs.find?_key hmem he
    rw [hf] at hkey
    cases hkey

variable [OwnsMemory V]

/-- Only damaged tables fail a check. -/
theorem not_isSound_of_error {t t' : Table K V} (hcap : 1 ≤ t.capacity) {r : Request K V}
    {fault : Fault} (h : handle r t = .error fault t') (ring : List Nat) : ¬ t.IsSound ring := by
  intro hsound
  obtain ⟨a, t'', hrun, -⟩ := handle_of_isSound hcap hsound r
  rw [hrun] at h
  cases h

omit [OwnsMemory V] in
/-- What a removal that failed a check leaves is sound if and only if the table was sound past the
    slot of the key. -/
theorem isSound_after_remove_breach_iff {t t' : Table K V} {k : K} {b : Breach}
    (h : remove k t = .error (.breach b) t') :
    (∃ ring, t'.IsSound ring) ↔ ∃ i ring, t.index.find? k = some i ∧ t.IsSoundPast i ring := by
  obtain ⟨i, touched, hf, hpast, hframe, hunfit⟩ := remove_breach h
  constructor
  · rintro ⟨ring, hsound⟩
    have hout := hsound.notMem_of_unfit hunfit
    exact ⟨i, ring, hf, (hpast.isSound_iff hframe hf).mp ⟨hsound, hout⟩⟩
  · rintro ⟨j, ring, hj, hring⟩
    rw [hf] at hj
    cases hj
    exact ⟨ring, ((hpast.isSound_iff hframe hf).mpr hring).1⟩

/-- A failed check leaves a sound table behind only if it was made while a key was removed, in a
    table that was sound past the slot of the key. -/
theorem isSound_after_breach_iff {t t' : Table K V} (hcap : 1 ≤ t.capacity) {r : Request K V}
    {b : Breach} (h : handle r t = .error (.breach b) t') :
    (∃ ring, t'.IsSound ring) ↔
      ∃ k i ring, r = .remove k ∧ t.index.find? k = some i ∧ t.IsSoundPast i ring := by
  constructor
  · rintro ⟨ring, hsound⟩
    cases r with
    | insert k v =>
      rcases fault_of_bind h with hfail | ⟨_, _, -, hend⟩
      · exact absurd hsound (not_isSound_of_insert_breach hcap hfail ring)
      · cases hend
    | lookup k =>
      rcases fault_of_bind h with hfail | ⟨_, _, -, hend⟩
      · exact absurd hsound (not_isSound_of_lookup_breach hfail ring)
      · cases hend
    | remove k =>
      rcases fault_of_bind h with hfail | ⟨_, _, -, hend⟩
      · obtain ⟨i, ring', hf, hpast⟩ := (isSound_after_remove_breach_iff hfail).mp ⟨ring, hsound⟩
        exact ⟨k, i, ring', rfl, hf, hpast⟩
      · cases hend
    | keys =>
      -- A listing changes nothing, so the table is the damaged one that it was.
      rcases fault_of_bind h with hfail | ⟨_, _, -, hend⟩
      · obtain ⟨rfl, -⟩ := fault_of_reading hfail
        exact absurd hsound (not_isSound_of_error hcap h ring)
      · cases hend
    | verify =>
      rcases fault_of_bind h with hfail | ⟨_, _, -, hend⟩
      · obtain ⟨rfl, -⟩ := fault_of_reading hfail
        exact absurd hsound (not_isSound_of_error hcap h ring)
      · cases hend
    | contains k => cases h
    | size => cases h
    | clear => cases h
  · rintro ⟨k, i, ring, rfl, hf, hpast⟩
    rcases fault_of_bind h with hfail | ⟨_, _, -, hend⟩
    · exact (isSound_after_remove_breach_iff hfail).mpr ⟨i, ring, hf, hpast⟩
    · cases hend

/-- A request that stops with a report of corruption has met a table that `verify` reports as
    damaged, and leaves one that it reports as damaged, too. There is one exception: a removal has
    dropped its key from the index before it looks at the slot, and if the table was sound past the
    slot, nothing is left to report. Tables without slots, which cannot be built, are left out:
    nothing need be wrong with one, and storing in it stops with such a report
    (`IsSound.insert_without_slots`). -/
theorem verify_after_breach {t t' : Table K V} (hcap : 1 ≤ t.capacity) {r : Request K V}
    {fault : Fault} {detail : String} (hmsg : fault.message = (Error.corruption detail).message)
    (h : handle r t = .error fault t') :
    (∃ d, t.verify = .ok (.damaged d)) ∧
      ((∃ d, t'.verify = .ok (.damaged d)) ↔
        ¬ ∃ k i ring, r = .remove k ∧ t.index.find? k = some i ∧ t.IsSoundPast i ring) := by
  obtain ⟨b, rfl⟩ := Fault.exists_breach hmsg
  refine ⟨exists_damage (not_isSound_of_error hcap h), ?_⟩
  rw [← isSound_after_breach_iff hcap h]
  constructor
  · rintro ⟨d, hd⟩ ⟨ring, hsound⟩
    rw [verify_of_isSound hsound] at hd
    cases hd
  · intro hnone
    exact exists_damage fun ring hsound => hnone ⟨ring, hsound⟩

/-- A slot beside the ring that is its own neighbour stops a lookup, and is still reported. -/
theorem verify_after_breach_lookup :
    ∃ t t' : Table Nat Nat,
      t = ⟨#[⟨some ⟨1, 10⟩, 1, 1⟩, ⟨some ⟨2, 20⟩, 1, 0⟩],
        (Index.empty.insert 1 0).insert 2 1, [], some 0⟩ ∧
      handle (.lookup 2) t = .error (.breach .strayLoop) t' ∧
      ∃ d, t'.verify = .ok (.damaged d) := by
  let t : Table Nat Nat := ⟨#[⟨some ⟨1, 10⟩, 1, 1⟩, ⟨some ⟨2, 20⟩, 1, 0⟩],
    (Index.empty.insert 1 0).insert 2 1, [], some 0⟩
  have hcap : 1 ≤ t.capacity := by decide
  have hrun : handle (.lookup 2) t = .error (.breach .strayLoop) t := rfl
  have hmsg : (Fault.breach .strayLoop).message = (Error.corruption
      "single-node list is not anchored at the recency pointer").message := rfl
  obtain ⟨-, hiff⟩ := verify_after_breach hcap hmsg hrun
  refine ⟨t, t, rfl, hrun, hiff.mpr ?_⟩
  rintro ⟨k, i, ring, hremove, -⟩
  cases hremove

/-- Slot 1 of the ring is vacant. Removing its key stops with a report of corruption, and leaves
    the ring of slot 0 alone, with which nothing is wrong. -/
theorem removal_hides_vacant_slot :
    ∃ t t' : Table Nat Nat,
      t = ⟨#[⟨some ⟨1, 10⟩, 1, 1⟩, ⟨none, 0, 0⟩],
        (Index.empty.insert 1 0).insert 2 1, [], some 0⟩ ∧
      t.verify = .ok (.damaged (.vacantLinked 1)) ∧
      remove 2 t = .error (.breach .vacantIndexed) t' ∧ t'.verify = .ok .sound :=
  ⟨_, _, rfl, rfl, rfl, rfl⟩

end Table

end RecencyCache
