import RecencyCache.Proofs.Cache.Counters
import RecencyCache.Proofs.Cache.Refinement

/-! # No fault from outside

  Faults are for damaged tables. A caller that builds a cache and sends it
  requests gets a refusal of the options, or answers.

  - Options are refused when they name no slot, or a hint above the
    capacity, and for no other reason (`exists_check_eq_error_iff`).
  - Options never ask for an index of more keys than there are slots. Where an
    index may have room for that many, the table is the one of the cache
    (`ofSizes_effectiveTableSize`).
-/

namespace RecencyCache

/-- Options that pass their check ask for an index within the capacity. -/
theorem Options.effectiveTableSize_le {o : Options} (h : o.check = .ok ()) :
    o.effectiveTableSize ≤ o.capacity := by
  obtain ⟨hcap, hhint⟩ := (check_eq_ok_iff o).mp h
  unfold effectiveTableSize
  cases ho : o.tableSizeHint with
  | none =>
    rw [Option.getD_none]
    omega
  | some hint => exact hhint hint ho

/-- A refusal of options is worded as an invalid argument. -/
theorem Options.Invalid.exists_detail (cause : Options.Invalid) :
    ∃ detail, cause.toError = .invalidArgument detail := by
  cases cause <;> exact ⟨_, rfl⟩

namespace Cache

variable {K V : Type} [BEq K]

/-- The table of a cache is the one with an index of the size that the options ask for, as long as
    an index may have room for as many keys as there are slots. -/
theorem ofSizes_effectiveTableSize {o : Options} (h : o.check = .ok ())
    (hroom : o.capacity ≤ Index.maxSize) :
    Table.ofSizes o.capacity o.effectiveTableSize =
      .ok (Table.fresh o.capacity : Table K V) := by
  have hcap := ((Options.check_eq_ok_iff o).mp h).1
  exact Table.ofSizes_eq hcap (Nat.le_trans (Options.effectiveTableSize_le h) hroom)

/-- Options do not pass their check if there is no slot, or if the hint is above the capacity. -/
theorem exists_check_eq_error_iff (o : Options) :
    (∃ cause, o.check = .error cause) ↔
      o.capacity = 0 ∨ ∃ hint, o.tableSizeHint = some hint ∧ o.capacity < hint := by
  constructor
  · rintro ⟨cause, hcause⟩
    by_contra hnone
    obtain ⟨hcap, hhint⟩ := not_or.mp hnone
    have hok : o.check = .ok () := by
      refine (Options.check_eq_ok_iff o).mpr ⟨Nat.pos_of_ne_zero hcap, ?_⟩
      intro hint ho
      exact Nat.not_lt.mp fun hlt => hhint ⟨hint, ho, hlt⟩
    rw [hok] at hcause
    cases hcause
  · intro hbad
    cases hcheck : o.check with
    | error cause => exact ⟨cause, rfl⟩
    | ok u =>
      obtain ⟨hcap, hhint⟩ := (Options.check_eq_ok_iff o).mp hcheck
      rcases hbad with hzero | ⟨hint, ho, hlt⟩
      · omega
      · exact absurd (hhint hint ho) (Nat.not_le.mpr hlt)

/-- A cache that was built serves every history, and is found sound after it. -/
theorem run_built [EquivBEq K] [OwnsMemory V] [Inhabited V] {o : Options} (h : o.check = .ok ())
    (rs : List (Request K V)) :
    ∃ answers c', run rs (built o) = .ok answers c' ∧ verify c' = .ok .sound c' ∧
      ∀ n, (c'.stats.count n).toNat ≤ rs.length := by
  -- The table stays that of a queue, and such tables are sound.
  obtain ⟨answers, c', hrun, -, h'⟩ := (represents_built h).run rs
  refine ⟨answers, c', hrun, h'.verify, ?_⟩
  intro n
  have hcount := run_count_le hrun n
  have hzero : ((built o : Cache K V).stats.count n).toNat = 0 := by
    cases n <;> rfl
  omega

/-- Building a cache never faults. The options are refused, as an invalid argument, exactly if they
    name no slot or a hint above the capacity. A cache that is built serves every history of
    requests without a fault, passes its check afterwards, and has no counter that is further up
    than there were requests: with fewer than `2 ^ 64` of them, no counter has wrapped around. -/
theorem requests_never_fault [EquivBEq K] [OwnsMemory V] [Inhabited V] (o : Options) :
    (∃ result, (ofOptions o : Except Fault (Except Options.Invalid (Cache K V))) = .ok result) ∧
      ((∃ cause detail, (ofOptions o : Except Fault (Except Options.Invalid (Cache K V))) =
          .ok (.error cause) ∧ cause.toError = .invalidArgument detail) ↔
        o.capacity = 0 ∨ ∃ hint, o.tableSizeHint = some hint ∧ o.capacity < hint) ∧
      ∀ c : Cache K V, ofOptions o = .ok (.ok c) → ∀ rs : List (Request K V),
        ∃ answers c', run rs c = .ok answers c' ∧ verify c' = .ok .sound c' ∧
          ∀ n, (c'.stats.count n).toNat ≤ rs.length := by
  rw [← exists_check_eq_error_iff]
  cases hcheck : o.check with
  | error cause =>
    have hrefused := ofOptions_of_error (K := K) (V := V) hcheck
    obtain ⟨detail, hdetail⟩ := cause.exists_detail
    refine ⟨⟨_, hrefused⟩, ?_, ?_⟩
    · exact iff_of_true ⟨cause, detail, hrefused, hdetail⟩ ⟨cause, rfl⟩
    · intro c hc
      rw [hrefused] at hc
      cases hc
  | ok u =>
    have hbuilt := ofOptions_of_ok (K := K) (V := V) hcheck
    refine ⟨⟨_, hbuilt⟩, iff_of_false ?_ ?_, ?_⟩
    · rintro ⟨cause, detail, hcause, -⟩
      rw [hbuilt] at hcause
      cases hcause
    · rintro ⟨cause, hcause⟩
      cases hcause
    · intro c hc rs
      rw [hbuilt] at hc
      cases hc
      exact run_built hcheck rs

/-- A cache with one slot, whose first entry is evicted and whose next one is deleted. -/
theorem requests_never_fault_single :
    ∃ c answers c', ofOptions (.ofCapacity 1) = .ok (.ok (c : Cache Nat Nat)) ∧
      run [.set 1 10, .set 2 20, .delete 2] c = .ok answers c' ∧ verify c' = .ok .sound c' ∧
      ∀ n, (c'.stats.count n).toNat ≤ 3 := by
  obtain ⟨-, -, hserved⟩ := requests_never_fault (K := Nat) (V := Nat) (.ofCapacity 1)
  obtain ⟨answers, c', hrun, hverify, hcount⟩ :=
    hserved (built (.ofCapacity 1)) rfl [.set 1 10, .set 2 20, .delete 2]
  exact ⟨_, answers, c', rfl, hrun, hverify, hcount⟩

end Cache

end RecencyCache
