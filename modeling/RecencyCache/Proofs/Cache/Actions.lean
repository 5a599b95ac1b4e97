import RecencyCache.Proofs.Cache.Refinement
import RecencyCache.Proofs.Queue.Actions

/-! # Requests by their actions

  What a request leaves of a cache and its counters depends on its action
  alone.

  - **Entries**: a history acts on the queue that the cache represents
    (`Represents.serve`).
  - **Lookups**: what a lookup answers is what the queue finds
    (`Represents.finds_iff`).
  - **Counters**: a cache counts what the actions count (`Queue.counts`), in
    words of 64 bits. So after a history the counters are where
    `Queue.tally` says, up to multiples of `2 ^ 64`.
-/

namespace RecencyCache.Cache

variable {K V : Type} [BEq K] {c c' : Cache K V} {q : Queue K V} {n : Counter → Nat}

/-! ### Entries -/

section

variable [EquivBEq K] [OwnsMemory V] [Inhabited V]

theorem Represents.act (h : c.Represents q) (r : Request K V) :
    ∃ a c', Cache.handle r c = .ok a c' ∧ c'.Represents (q.act r.action) := by
  obtain ⟨a, c', hrun, -, h'⟩ := h.handle r
  rw [Queue.handle_eq_act] at h'
  exact ⟨a, c', hrun, h'⟩

/-- A history acts on the queue by one action after the other. -/
theorem Represents.serve (h : c.Represents q) (rs : List (Request K V)) :
    ∃ answers c', Cache.run rs c = .ok answers c' ∧
      c'.Represents (q.after (rs.map (·.action))) := by
  obtain ⟨answers, c', hrun, -, h'⟩ := h.run rs
  rw [Queue.run_eq_after] at h'
  exact ⟨answers, c', hrun, h'⟩

end

/-! ### Lookups -/

/-- A lookup of `k` would find the value `v`. -/
def Finds (c : Cache K V) (k : K) (v : V) : Prop := ∃ c', Cache.get k c = .ok (some v) c'

/-- The answer to a lookup that finds a value depends on the value alone. -/
theorem exists_answer [OwnsMemory V] [Inhabited V] {r : Request K V} {k : K}
    (hr : r.action = .find k) (v : V) :
    ∃ a, ∀ c : Cache K V, c.Finds k v → ∃ c', handle r c = .ok a c' := by
  cases r with
  | get j =>
    cases hr
    refine ⟨.value (some v), ?_⟩
    rintro c ⟨c', hget⟩
    exact ⟨c', Table.bind_of_ok hget _⟩
  | tryGet j before =>
    cases hr
    refine ⟨.attempt true v, ?_⟩
    rintro c ⟨c', hget⟩
    have htry : tryGet k before c = .ok (true, v) c' := Table.bind_of_ok hget _
    exact ⟨c', Table.bind_of_ok htry _⟩
  | getOrDefault j =>
    cases hr
    refine ⟨.plain v, ?_⟩
    rintro c ⟨c', hget⟩
    have hplain : getOrDefault k c = .ok v c' := Table.bind_of_ok hget _
    exact ⟨c', Table.bind_of_ok hplain _⟩
  | setOrDelete j o => cases o <;> cases hr
  | _ => cases hr

theorem Represents.finds_iff [EquivBEq K] (h : c.Represents q) {k : K} {v : V} :
    c.Finds k v ↔ ∃ e, q.find? k = some e ∧ e.value = v := by
  obtain ⟨c₁, hget, -⟩ := h.get k
  unfold Queue.lookup at hget
  unfold Finds
  rw [hget]
  cases q.find? k with
  | none =>
    constructor
    · rintro ⟨c', hc'⟩
      cases hc'
    · rintro ⟨e, he, -⟩
      cases he
  | some e =>
    constructor
    · rintro ⟨c', hc'⟩
      cases hc'
      exact ⟨e, rfl, rfl⟩
    · rintro ⟨e', he', rfl⟩
      cases he'
      exact ⟨c₁, rfl⟩

/-! ### Counters -/

/-- The counters of a cache are words for given numbers. -/
def Counts (c : Cache K V) (n : Counter → Nat) : Prop :=
  ∀ x, c.stats.count x = UInt64.ofNat (n x)

theorem counts_built (o : Options) : (built o : Cache K V).Counts fun _ => 0 := by
  intro x
  cases x <;> rfl

/-- A number below the size of a word is its word's value. -/
theorem Counts.toNat_eq (h : c.Counts n) {x : Counter} (hx : n x < 2 ^ 64) :
    (c.stats.count x).toNat = n x := by
  rw [h x]
  exact UInt64.toNat_ofNat_of_lt hx

/-- Counting in words is counting in numbers. -/
theorem Counts.add (h : c.Counts n) {m : Counter → Nat}
    (hm : ∀ x, c'.stats.count x = c.stats.count x + UInt64.ofNat (m x)) :
    c'.Counts fun x => n x + m x := by
  intro x
  rw [hm x, h x, ← UInt64.ofNat_add]

/-- A computation that counts what an action counts. -/
def Counting {α : Type} (x : CacheM K V α) (a : Action K V) : Prop :=
  ∀ ⦃c q n b c'⦄, c.Represents q → c.Counts n → x c = .ok b c' → c'.Counts (q.counted n a)

/-- What is worked out from an answer is not counted. -/
theorem Counting.bind_pure {α β : Type} {x : CacheM K V α} {a : Action K V} (hx : Counting x a)
    {f : α → CacheM K V β} (hf : ∀ b, ∃ d, f b = pure d) : Counting (x >>= f) a := by
  intro c q n d c' h hn hrun
  obtain ⟨b, c₁, hb, hrest⟩ := Table.steps_of_bind hrun
  obtain ⟨d', hd⟩ := hf b
  rw [hd] at hrest
  cases hrest
  exact hx h hn hb

theorem counting_reading {α : Type} (f : Table K V → Except Fault α) :
    Counting (onTable (Table.reading f)) .read := by
  intro c q n b c' h hn hrun
  rw [onTable_reading_eq] at hrun
  split at hrun <;> cases hrun
  exact hn

variable [EquivBEq K]

theorem counting_get (k : K) : Counting (Cache.get k : CacheM K V (Option V)) (.find k) := by
  intro c q n b c' h hn hrun
  obtain ⟨ring, hring⟩ := h.table
  obtain ⟨t', ring', hlookup, -⟩ := hring.lookup k
  -- The table answers as the queue does, and the counters follow from the answer.
  rw [get_eq, hlookup] at hrun
  apply hn.add
  intro x
  unfold Queue.lookup at hrun
  cases hk : q.find? k with
  | none =>
    rw [hk] at hrun
    cases hrun
    cases x <;> simp [Stats.count, Queue.counts, hk]
  | some e =>
    rw [hk] at hrun
    cases hrun
    cases x <;> simp [Stats.count, Queue.counts, hk]

theorem counting_set (k : K) (v : V) : Counting (Cache.set k v) (.store k v) := by
  intro c q n b c' h hn hrun
  obtain ⟨ring, hring⟩ := h.table
  obtain ⟨t', ring', hinsert, -⟩ := hring.insert k v
  have hpos : 1 ≤ q.capacity := hring.capacity ▸ hring.isTidy.room
  rw [set_eq, hinsert] at hrun
  apply hn.add
  intro x
  unfold Queue.outcome at hrun
  cases hk : q.find? k with
  | some e =>
    rw [hk] at hrun
    cases hrun
    cases x <;> simp [Stats.count, Queue.counts, hk]
  | none =>
    rw [hk] at hrun
    by_cases hroom : q.entries.length < q.capacity
    · have hfull := Nat.not_le.mpr hroom
      simp only [hroom, if_true] at hrun
      cases hrun
      cases x <;> simp [Stats.count, Queue.counts, hk, hfull]
    · -- A full queue has a first entry.
      simp only [hroom, if_false] at hrun
      cases hentries : q.entries with
      | nil =>
        rw [hentries] at hroom
        exact absurd hpos hroom
      | cons e rest =>
        simp only [hentries, List.head?_cons] at hrun
        cases hrun
        have hfull := Nat.not_lt.mp hroom
        cases x <;> simp [Stats.count, Queue.counts, hk, hfull]

theorem counting_remove (k : K) : Counting (remove k : CacheM K V (Option V)) (.drop k) := by
  intro c q n b c' h hn hrun
  obtain ⟨ring, hring⟩ := h.table
  obtain ⟨t', ring', hremove, -⟩ := hring.remove k
  rw [remove_eq, hremove] at hrun
  apply hn.add
  intro x
  unfold Queue.remove at hrun
  cases hk : q.find? k with
  | none =>
    rw [hk] at hrun
    cases hrun
    cases x <;> simp [Stats.count, Queue.counts, hk]
  | some e =>
    rw [hk] at hrun
    cases hrun
    cases x <;> simp [Stats.count, Queue.counts, hk]

variable [OwnsMemory V] [Inhabited V]

/-- A request counts what its action counts. -/
theorem counting_handle (r : Request K V) : Counting (handle r) r.action := by
  apply handle_induction (P := fun a x => Counting x a)
  case answer =>
    intro α β a x f hx hf
    exact hx.bind_pure hf
  case find => exact counting_get
  case store => exact counting_set
  case drop => exact counting_remove
  case dropAll =>
    intro c q n b c' h hn hrun
    cases hrun
    exact hn
  case recount =>
    intro c q n b c' h hn hrun
    cases hrun
    intro x
    cases x <;> rfl
  case ask => exact counting_reading
  case look =>
    intro f c q n b c' h hn hrun
    cases hrun
    exact hn

/-- A history counts what its actions count. -/
theorem counts_of_run (h : c.Represents q) (hn : c.Counts n) {rs : List (Request K V)}
    {answers : List (Response K V)} (hrun : run rs c = .ok answers c') :
    c'.Counts (q.tally n (rs.map (·.action))) := by
  induction rs generalizing c q n answers with
  | nil =>
    cases hrun
    exact hn
  | cons r rs ih =>
    obtain ⟨a, c₁, as, ha, has⟩ := steps_of_run_cons hrun
    have hn₁ := counting_handle r h hn ha
    obtain ⟨a', c₂, ha', -, h₂⟩ := h.handle r
    rw [ha] at ha'
    cases ha'
    rw [Queue.handle_eq_act] at h₂
    exact ih h₂ hn₁ has

end RecencyCache.Cache
