import RecencyCache.Index

/-! # Bindings behind an index

  What looking a key up says about the list of bindings, and back.

  - A number that is found stands in a binding of an equal key
    (`exists_binding`).
  - A new key is bound at the end of the list (`bindings_insert`).
-/

namespace RecencyCache.Index

variable {K : Type} [BEq K]

/-- No binding tells equal keys apart. -/
theorem beq_eq_beq [EquivBEq K] {j k : K} (h : (j == k) = true) :
    (fun b : K × Nat => b.1 == j) = fun b => b.1 == k := by
  funext b
  rw [Bool.eq_iff_iff]
  exact ⟨fun hb => BEq.trans hb h, fun hb => BEq.trans hb (BEq.symm h)⟩

/-- Equal keys find the same. -/
theorem find?_congr [EquivBEq K] (m : Index K) {j k : K} (h : (j == k) = true) :
    m.find? j = m.find? k := by
  unfold find?
  rw [beq_eq_beq h]

/-- Equal keys are erased alike. -/
theorem erase_congr [EquivBEq K] (m : Index K) {j k : K} (h : (j == k) = true) :
    m.erase j = m.erase k := by
  have hsame : (fun b : K × Nat => !(b.1 == j)) = fun b => !(b.1 == k) :=
    congrArg (fun p b => !(p b)) (beq_eq_beq h)
  unfold erase
  congr 1
  rw [hsame]

/-- A key that is erased and bound to its number again leads where it led. -/
theorem find?_insert_erase [EquivBEq K] {m : Index K} {k : K} {i : Nat} (h : m.find? k = some i)
    (j : K) : ((m.erase k).insert k i).find? j = m.find? j := by
  rw [find?_insert, find?_erase]
  split
  · rename_i hkj
    rw [← find?_congr m hkj, h]
  · rfl

/-- A number that is found was bound to an equal key. -/
theorem exists_binding {m : Index K} {k : K} {i : Nat} (h : m.find? k = some i) :
    ∃ b ∈ m.bindings, (b.1 == k) = true ∧ b.2 = i := by
  unfold find? at h
  obtain ⟨b, hb, hbi⟩ := Option.map_eq_some_iff.mp h
  have hbk := List.find?_some hb
  exact ⟨b, List.mem_of_find?_eq_some hb, hbk, hbi⟩

/-- A new key is bound at the end. -/
theorem bindings_insert {m : Index K} {k : K} (h : m.find? k = none) (i : Nat) :
    (m.insert k i).bindings = m.bindings ++ [(k, i)] := by
  have habsent : ¬ (m.bindings.any fun b => b.1 == k) = true := by
    have hc := contains_eq m k
    rw [h] at hc
    unfold contains at hc
    rw [hc]
    exact Bool.false_ne_true
  unfold insert
  rw [dif_neg habsent]

/-- A new key adds one to the size. -/
theorem size_insert_of_none {m : Index K} {k : K} (h : m.find? k = none) (i : Nat) :
    (m.insert k i).size = m.size + 1 := by
  unfold size
  rw [bindings_insert h, List.length_append]
  rfl

/-- Erasing a bound key takes one off the size. -/
theorem size_erase_of_some [EquivBEq K] {m : Index K} {k : K} {i : Nat} (h : m.find? k = some i) :
    (m.erase k).size + 1 = m.size := by
  have hs := size_erase m k
  rw [contains_eq, h] at hs
  exact hs

/-- An erased key takes no number along but its own. -/
theorem find?_erase_eq_some_iff [EquivBEq K] {m : Index K} {k : K} {i j : Nat}
    (hk : m.find? k = some i) (hj : j ≠ i) (x : K) :
    (m.erase k).find? x = some j ↔ m.find? x = some j := by
  rw [find?_erase]
  split
  · rename_i hkx
    rw [← find?_congr m hkx, hk]
    simp [Ne.symm hj]
  · rfl

/-- Bindings of other keys survive an erasure. -/
theorem mem_bindings_erase {m : Index K} {k : K} {b : K × Nat} (hb : b ∈ m.bindings)
    (hne : (b.1 == k) = false) : b ∈ (m.erase k).bindings := by
  unfold erase
  rw [List.mem_filter]
  exact ⟨hb, by rw [hne]; rfl⟩

end RecencyCache.Index
