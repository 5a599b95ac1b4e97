import RecencyCache.Proofs.Cache.Steps

/-! # How far counters get

  A counter is a 64-bit word. A request adds at most one to it, or sets it to
  zero, so after a history it is at most the number of requests. With fewer
  requests than a word has values no addition passes the largest one.

  This is so for every cache, whatever its table is like.
-/

namespace RecencyCache

/-- Every counter stays, goes up by one or starts over. -/
def Stats.Advances (s s' : Stats) : Prop :=
  ∀ n, s'.count n = s.count n ∨ s'.count n = s.count n + 1 ∨ s'.count n = 0

theorem Stats.Advances.refl (s : Stats) : s.Advances s := fun _ => .inl rfl

/-- Adding one to a word raises its value by at most one. -/
theorem Stats.Advances.toNat_le {s s' : Stats} (h : s.Advances s') (n : Counter) :
    (s'.count n).toNat ≤ (s.count n).toNat + 1 := by
  rcases h n with heq | heq | heq
  · rw [heq]
    exact Nat.le_succ _
  · rw [heq, UInt64.toNat_add]
    exact Nat.mod_le _ _
  · rw [heq]
    exact Nat.zero_le _

namespace Cache

variable {K V : Type} [BEq K] {c c' : Cache K V}

/-- A computation that counts at most once on each counter. -/
def Advancing {α : Type} (x : CacheM K V α) : Prop :=
  ∀ ⦃c a c'⦄, x c = .ok a c' → c.stats.Advances c'.stats

/-- What is worked out from an answer is not counted. -/
theorem Advancing.bind_pure {α β : Type} {x : CacheM K V α} (hx : Advancing x)
    {f : α → CacheM K V β} (hf : ∀ a, ∃ b, f a = pure b) : Advancing (x >>= f) := by
  intro c b c' h
  obtain ⟨a, c₁, hrun, h⟩ := Table.steps_of_bind h
  obtain ⟨b', hb⟩ := hf a
  rw [hb] at h
  cases h
  exact hx hrun

theorem advancing_get (k : K) : Advancing (Cache.get k : CacheM K V (Option V)) := by
  intro c a c' h
  rw [get_eq] at h
  split at h <;> cases h
  all_goals
    intro n
    cases n <;> simp [Stats.count]

theorem advancing_set (k : K) (v : V) : Advancing (Cache.set k v) := by
  intro c a c' h
  rw [set_eq] at h
  split at h <;> cases h
  all_goals
    intro n
    cases n <;> simp [Stats.count]

theorem advancing_remove (k : K) : Advancing (remove k : CacheM K V (Option V)) := by
  intro c a c' h
  rw [remove_eq] at h
  split at h <;> cases h
  all_goals
    intro n
    cases n <;> simp [Stats.count]

theorem advancing_reading {α : Type} (f : Table K V → Except Fault α) :
    Advancing (onTable (Table.reading f)) := by
  intro c a c' h
  rw [onTable_reading_eq] at h
  split at h <;> cases h
  exact .refl _

variable [OwnsMemory V] [Inhabited V]

/-- A request counts at most once on each counter. -/
theorem advancing_handle (r : Request K V) : Advancing (handle r) := by
  apply handle_induction (P := fun _ x => Advancing x)
  case answer =>
    intro α β a x f hx hf
    exact hx.bind_pure hf
  case find => exact advancing_get
  case store => exact advancing_set
  case drop => exact advancing_remove
  case dropAll =>
    intro c a c' h
    cases h
    exact .refl _
  case recount =>
    intro c a c' h
    cases h
    intro n
    cases n <;> exact .inr (.inr rfl)
  case ask => exact advancing_reading
  case look =>
    intro f c a c' h
    cases h
    exact .refl _

/-- After a history no counter is further up than there were requests. -/
theorem run_count_le {rs : List (Request K V)} {answers : List (Response K V)}
    (h : run rs c = .ok answers c') (n : Counter) :
    (c'.stats.count n).toNat ≤ (c.stats.count n).toNat + rs.length := by
  induction rs generalizing c answers with
  | nil =>
    cases h
    exact Nat.le_refl _
  | cons r rs ih =>
    obtain ⟨a, c₁, as, ha, has⟩ := steps_of_run_cons h
    have hstep := (advancing_handle r ha).toNat_le n
    have hrest := ih has
    rw [List.length_cons]
    omega

end Cache

end RecencyCache
