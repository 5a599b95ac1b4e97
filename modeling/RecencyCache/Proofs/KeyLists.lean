import Mathlib.Data.List.Forall2

/-! # Lists of keys

  Keys are compared with `==`, which may hold of keys that can be told apart.
  Two lists of keys are compared place by place (`SameKeys`), or one is found
  in the other with gaps (`Subkeys`).

  - **Subsequences**: what is done to both lists alike keeps one within the
    other. Cutting off the front does so if the longer list loses no more.
  - **Distinct keys**: `List.eraseDups` keeps the first of several equal
    keys. With a key put in front, the equal ones behind it go
    (`eraseDups_cons_eq`).
-/

namespace RecencyCache

/-! ### Subsequences -/

section

variable {α β : Type} {R : α → β → Prop} {l l₁ : List α} {m m₁ : List β}

theorem sublistForall₂_filter (h : l.SublistForall₂ R m) {p : α → Bool} {p' : β → Bool}
    (hp : ∀ a b, R a b → p a = p' b) : (l.filter p).SublistForall₂ R (m.filter p') := by
  induction h with
  | nil => exact .nil
  | @cons a b l m hab _ ih =>
    rw [List.filter_cons, List.filter_cons, hp a b hab]
    cases p' b with
    | true => exact .cons hab ih
    | false => exact ih
  | @cons_right b l m _ ih =>
    rw [List.filter_cons]
    cases p' b with
    | true => exact .cons_right ih
    | false => exact ih

theorem sublistForall₂_append (h : l.SublistForall₂ R m) (h₁ : l₁.SublistForall₂ R m₁) :
    (l ++ l₁).SublistForall₂ R (m ++ m₁) := by
  induction h with
  | @nil m =>
    induction m with
    | nil => exact h₁
    | cons b m ih => exact .cons_right ih
  | cons hab _ ih => exact .cons hab ih
  | cons_right _ ih => exact .cons_right ih

/-- The longer list may lose less of its front. -/
theorem sublistForall₂_drop (h : l.SublistForall₂ R m) {d e : Nat} (hle : e ≤ d) :
    (l.drop d).SublistForall₂ R (m.drop e) := by
  induction h generalizing d e with
  | nil =>
    rw [List.drop_nil]
    exact .nil
  | @cons a b l m hab h ih =>
    cases d with
    | zero =>
      obtain rfl : e = 0 := Nat.le_zero.mp hle
      exact .cons hab h
    | succ d =>
      cases e with
      | zero => exact .cons_right (ih (Nat.zero_le d))
      | succ e => exact ih (Nat.le_of_succ_le_succ hle)
  | @cons_right b l m h ih =>
    cases e with
    | zero => exact .cons_right (ih (Nat.zero_le d))
    | succ e => exact ih (Nat.le_of_succ_le hle)

theorem sublistForall₂_length_le (h : l.SublistForall₂ R m) : l.length ≤ m.length := by
  induction h with
  | nil => exact Nat.zero_le _
  | cons _ _ ih => exact Nat.succ_le_succ ih
  | cons_right _ ih => exact Nat.le_succ_of_le ih

theorem sublistForall₂_mono (h : l.SublistForall₂ R m) (hm : m.Sublist m₁) :
    l.SublistForall₂ R m₁ := by
  obtain ⟨l₁, hl, hsub⟩ := List.sublistForall₂_iff.mp h
  exact List.sublistForall₂_iff.mpr ⟨l₁, hl, hsub.trans hm⟩

theorem sublistForall₂_exists_mem (h : l.SublistForall₂ R m) {a : α} (ha : a ∈ l) :
    ∃ b ∈ m, R a b := by
  induction h with
  | nil => cases ha
  | @cons a₁ b l m hab _ ih =>
    rcases List.mem_cons.mp ha with rfl | ha
    · exact ⟨b, List.mem_cons_self, hab⟩
    · obtain ⟨b₁, hb, hab₁⟩ := ih ha
      exact ⟨b₁, List.mem_cons_of_mem b hb, hab₁⟩
  | @cons_right b l m _ ih =>
    obtain ⟨b₁, hb, hab₁⟩ := ih ha
    exact ⟨b₁, List.mem_cons_of_mem b hb, hab₁⟩

end

/-! ### Distinct keys -/

section

variable {K : Type} [BEq K]

/-- The lists have equal keys at the same places. -/
abbrev SameKeys (l m : List K) : Prop := l.Forall₂ (fun i j => (i == j) = true) m

/-- The keys of `l` are equal to some of the keys of `m`, in the same order. -/
abbrev Subkeys (l m : List K) : Prop := l.SublistForall₂ (fun i j => (i == j) = true) m

theorem SameKeys.subkeys {l m : List K} (h : SameKeys l m) : Subkeys l m :=
  List.sublistForall₂_iff.mpr ⟨m, h, List.Sublist.refl m⟩

theorem eraseDups_sublist (l : List K) : l.eraseDups.Sublist l := by
  match l with
  | [] => exact List.nil_sublist _
  | k :: l =>
    rw [List.eraseDups_cons]
    have hrest := eraseDups_sublist (l.filter fun j => !(j == k))
    exact (hrest.trans List.filter_sublist).cons_cons k
termination_by l.length
decreasing_by exact Nat.lt_succ_of_le (List.length_filter_le _ _)

/-- No two of the keys are equal. -/
theorem pairwise_eraseDups (l : List K) :
    l.eraseDups.Pairwise fun j k => (k == j) = false := by
  match l with
  | [] => exact .nil
  | j :: l =>
    rw [List.eraseDups_cons, List.pairwise_cons]
    refine ⟨fun k hk => ?_, pairwise_eraseDups _⟩
    have hin := (eraseDups_sublist _).mem hk
    have hne := (List.mem_filter.mp hin).2
    rwa [Bool.not_eq_true'] at hne
termination_by l.length
decreasing_by exact Nat.lt_succ_of_le (List.length_filter_le _ _)

/-- Keys that come later do not change which of the first ones are kept. -/
theorem eraseDups_isPrefix (l m : List K) : l.eraseDups <+: (l ++ m).eraseDups := by
  match l with
  | [] => exact List.nil_prefix
  | j :: l =>
    rw [List.cons_append, List.eraseDups_cons, List.eraseDups_cons, List.filter_append,
      List.prefix_cons_inj]
    exact eraseDups_isPrefix _ _
termination_by l.length
decreasing_by exact Nat.lt_succ_of_le (List.length_filter_le _ _)

/-- A key that is among the first `n` and comes after `l` leaves fewer than `n` keys to `l`. -/
theorem length_eraseDups_lt {k : K} {l m : List K} {n : Nat}
    (hk : k ∈ (l ++ m).eraseDups.take n) (hl : k ∉ l) : l.eraseDups.length < n := by
  by_contra hmany
  obtain ⟨rest, hrest⟩ := eraseDups_isPrefix l m
  rw [← hrest, List.take_append_of_le_length (Nat.not_lt.mp hmany)] at hk
  exact hl ((eraseDups_sublist l).mem (List.mem_of_mem_take hk))

/-- A test that tells no equal keys apart may come before or after. -/
theorem eraseDups_filter {p : K → Bool} (hp : ∀ j k, (j == k) = true → p j = p k) (l : List K) :
    (l.filter p).eraseDups = l.eraseDups.filter p := by
  match l with
  | [] => rfl
  | j :: l =>
    have ih := eraseDups_filter hp (l.filter fun k => !(k == j))
    rw [List.eraseDups_cons, List.filter_cons, List.filter_cons, ← ih, List.filter_comm p]
    cases hj : p j with
    | true => exact List.eraseDups_cons
    | false =>
      -- With `j` all the keys equal to it fail the test.
      congr 1
      symm
      apply List.filter_eq_self.mpr
      intro k hk
      cases hkj : k == j with
      | false => rfl
      | true =>
        have hpk := (List.mem_filter.mp hk).2
        rw [hp k j hkj, hj] at hpk
        cases hpk
termination_by l.length
decreasing_by exact Nat.lt_succ_of_le (List.length_filter_le _ _)

variable [EquivBEq K]

/-- Equal keys are equal to the same keys. -/
theorem beq_congr_left {i j : K} (h : (i == j) = true) (k : K) : (i == k) = (j == k) := by
  rw [Bool.eq_iff_iff]
  exact ⟨fun hik => BEq.trans (BEq.symm h) hik, fun hjk => BEq.trans h hjk⟩

/-- A key that is equal to `x` stays when `k` goes, which is not. -/
theorem filter_cut {i k x : K} (hi : (i == x) = true) (hk : (k == x) = false) (front rest : List K) :
    ((front ++ i :: rest).filter fun j => !(j == k)) =
      (front.filter fun j => !(j == k)) ++ i :: rest.filter fun j => !(j == k) := by
  have hik : (i == k) = false := by rw [beq_congr_left hi, BEq.comm, hk]
  rw [List.filter_append, List.filter_cons, hik]
  rfl

theorem eraseDups_cons_eq (k : K) (l : List K) :
    (k :: l).eraseDups = k :: l.eraseDups.filter fun j => !(j == k) := by
  rw [List.eraseDups_cons, eraseDups_filter]
  intro i j hij
  rw [beq_congr_left hij]

/-- Without `k` in both, too, the one list is found in the other. -/
theorem Subkeys.without {l m : List K} (h : Subkeys l m) (k : K) :
    Subkeys (l.filter fun j => !(j == k)) (m.filter fun j => !(j == k)) := by
  apply sublistForall₂_filter h
  intro i j hij
  rw [beq_congr_left hij]

/-- Without `k` in both, too, the lists have equal keys. -/
theorem SameKeys.without {l m : List K} (h : SameKeys l m) (k : K) :
    SameKeys (l.filter fun j => !(j == k)) (m.filter fun j => !(j == k)) := by
  induction h with
  | nil => exact .nil
  | @cons i j l m hij _ ih =>
    rw [List.filter_cons, List.filter_cons, beq_congr_left hij]
    cases j == k with
    | true => exact ih
    | false => exact .cons hij ih

/-- A key that is equal to `k` is the only one among distinct keys. -/
theorem filter_eq_self_of_distinct {i k : K} {l : List K} (hi : ∀ j ∈ l, (j == i) = false)
    (hik : (i == k) = true) : (l.filter fun j => !(j == k)) = l := by
  apply List.filter_eq_self.mpr
  intro j hj
  have hne := hi j hj
  rw [BEq.comm, beq_congr_left hik, BEq.comm] at hne
  rw [hne]
  rfl

/-- So without `k` there is at most one key less. -/
theorem length_le_length_filter {l : List K} (hl : l.Pairwise fun i j => (j == i) = false) (k : K) :
    l.length ≤ (l.filter fun j => !(j == k)).length + 1 := by
  induction hl with
  | nil => exact Nat.zero_le _
  | @cons i l hi _ ih =>
    rw [List.filter_cons]
    cases hik : i == k with
    | false => exact Nat.succ_le_succ ih
    | true =>
      show (i :: l).length ≤ (l.filter _).length + 1
      rw [filter_eq_self_of_distinct hi hik]
      exact Nat.le_refl _

/-- One more key in front does not make fewer distinct ones. -/
theorem length_eraseDups_le_cons (k : K) (l : List K) :
    l.eraseDups.length ≤ (k :: l).eraseDups.length := by
  rw [eraseDups_cons_eq]
  exact length_le_length_filter (pairwise_eraseDups l) k

/-- If the others are put behind `k` and only `n` keys are wanted, it is enough to take them from
    the first `n`. -/
theorem take_cons_filter_take {l : List K} (hl : l.Pairwise fun i j => (j == i) = false) (k : K)
    (n : Nat) :
    (k :: (l.take n).filter fun j => !(j == k)).take n =
      (k :: l.filter fun j => !(j == k)).take n := by
  cases n with
  | zero => rfl
  | succ n =>
    rw [List.take_succ_cons, List.take_succ_cons]
    congr 1
    -- On the keys; the count goes down with each one that is not `k`.
    induction hl generalizing n with
    | nil => rfl
    | @cons i l hi _ ih =>
      rw [List.take_succ_cons, List.filter_cons, List.filter_cons]
      cases hik : i == k with
      | false =>
        cases n with
        | zero => rfl
        | succ n => exact congrArg (i :: ·) (ih n)
      | true =>
        show ((l.take n).filter _).take n = (l.filter _).take n
        rw [filter_eq_self_of_distinct hi hik,
          filter_eq_self_of_distinct (fun j hj => hi j (List.mem_of_mem_take hj)) hik,
          List.take_take, Nat.min_self]

end

end RecencyCache
