import Mathlib.Data.List.DropRight
import RecencyCache.Proofs.Cache.Charges

/-! # Counting through faults

  A cache whose table is damaged between requests, in any way, and which goes
  on after each fault with what the fault has left. Its counters still tell
  what was answered.

  - An onlooker writes a `Report` of each request: the table that it met, its
    outcome, and what the journal was told. A report shows what the request
    is charged (`attempt_charged`).
  - The counters are to be read off the reports since the last reset
    (`sinceReset`), after any number of trials (`endure_charges`).
-/

namespace RecencyCache.Cache

variable {K V : Type} [BEq K]

/-! ### Reports -/

/-- A request to a cache whose table is damaged before it. -/
structure Trial (K V : Type) [BEq K] where
  /-- What becomes of the table that the cache had. -/
  damage : Table K V → Table K V
  /-- The request that follows. -/
  request : Request K V

/-- What an onlooker sees of a request. -/
structure Report (K V : Type) [BEq K] where
  /-- The table that the request met. -/
  table : Table K V
  /-- The request. -/
  request : Request K V
  /-- Its answer, or its fault. -/
  outcome : Except Fault (Response K V)
  /-- The events that it added to the journal. -/
  noted : List Event

namespace Report

/-- What the request has returned: yes or no, or nothing if it has faulted. -/
def returned (r : Report K V) : Option Bool :=
  match r.outcome with
  | .ok a => some (a.tells (Cache.present r.table r.request.action))
  | .error _ => none

end Report

/-- The reports that follow the last reset of the counters. -/
def sinceReset (rs : List (Report K V)) : List (Report K V) := rs.rtakeWhile (!·.request.action.isRecount)

/-- How many of the requests since the last reset of the counters pass a test. -/
def seen (rs : List (Report K V)) (p : Report K V → Bool) : Nat := (sinceReset rs).countP p

/-! ### What reports amount to -/

/-- What a request is charged, by its report. -/
def Report.charged (r : Report K V) (n : Counter) : Nat :=
  charge r.request.action r.returned r.noted n

/-- What requests are charged together. -/
def charges (n : Counter) : List (Report K V) → Nat
  | [] => 0
  | r :: rs => r.charged n + charges n rs

theorem charges_concat (n : Counter) (rs : List (Report K V)) (r : Report K V) :
    charges n (rs ++ [r]) = charges n rs + r.charged n := by
  induction rs with
  | nil => exact Nat.add_comm _ 0
  | cons r' rs ih =>
    show r'.charged n + charges n (rs ++ [r]) = r'.charged n + charges n rs + r.charged n
    rw [ih, Nat.add_assoc]

/-- What is noted at most once is charged at most once. -/
theorem Report.charged_le {r : Report K V} (h : r.noted.length ≤ 1) (n : Counter) :
    r.charged n ≤ 1 := by
  cases n with
  | evictions => exact Nat.le_trans List.count_le_length h
  | _ => exact Bool.toNat_le _

/-- Requests are charged no more than there are of them. -/
theorem charges_le {rs : List (Report K V)} (h : ∀ r ∈ rs, r.noted.length ≤ 1) (n : Counter) :
    charges n rs ≤ rs.length := by
  induction rs with
  | nil => exact Nat.le_refl 0
  | cons r rs ih =>
    have hfirst := Report.charged_le (h r List.mem_cons_self) n
    have hrest := ih fun r' hr' => h r' (List.mem_cons_of_mem r hr')
    unfold charges
    rw [List.length_cons]
    omega

/-- A charge that a test decides is charged as often as the test holds. -/
theorem charges_eq_countP {rs : List (Report K V)} {n : Counter} {p : Report K V → Bool}
    (h : ∀ r, r.charged n = (p r).toNat) : charges n rs = rs.countP p := by
  induction rs with
  | nil => rfl
  | cons r rs ih =>
    unfold charges
    rw [ih, h r, List.countP_cons]
    cases p r
    · simp
    · simp [Nat.add_comm]

/-- Evictions are charged as often as the journal shows them. -/
theorem charges_evictions (rs : List (Report K V)) :
    charges .evictions rs = (rs.flatMap (·.noted)).count .evicted := by
  induction rs with
  | nil => rfl
  | cons r rs ih =>
    unfold charges
    rw [ih, List.flatMap_cons, List.count_append]
    rfl

/-- Tests that exclude each other hold as often as one of them does. -/
theorem countP_add {rs : List (Report K V)} {p q w : Report K V → Bool}
    (h : ∀ r, (p r).toNat + (q r).toNat = (w r).toNat) :
    rs.countP p + rs.countP q = rs.countP w := by
  induction rs with
  | nil => rfl
  | cons r rs ih =>
    have hr := h r
    simp only [List.countP_cons]
    cases hp : p r <;> cases hq : q r <;> cases hw : w r <;> simp_all <;> omega

/-- Requests that returned are those that returned one thing or the other. -/
theorem seen_returned (rs : List (Report K V)) (p : Report K V → Bool) :
    seen rs (fun r => p r && r.returned == some true) +
        seen rs (fun r => p r && r.returned == some false) =
      seen rs fun r => p r && r.returned.isSome := by
  apply countP_add
  intro r
  rcases r.returned with - | - | - <;> cases p r <;> rfl

/-- Requests have returned or faulted. -/
theorem seen_faulted (rs : List (Report K V)) (p : Report K V → Bool) :
    seen rs (fun r => p r && r.returned.isSome) + seen rs (fun r => p r && r.returned == none) =
      seen rs p := by
  apply countP_add
  intro r
  rcases r.returned with - | - | - <;> cases p r <;> rfl

/-! ### Trials -/

/-- The cache that a request meets: with the damaged table, and a journal for this request only. -/
def met (c : Cache K V) (s : Trial K V) : Cache K V :=
  { c with table := s.damage c.table, journal := [] }

section

variable [OwnsMemory V] [Inhabited V]

/-- Carries out a request after the damage. A fault keeps what was changed before it. -/
def attempt (c : Cache K V) (s : Trial K V) : Report K V × Cache K V :=
  match handle s.request (c.met s) with
  | .ok a c' => (⟨(c.met s).table, s.request, .ok a, c'.journal⟩, c')
  | .error fault c' => (⟨(c.met s).table, s.request, .error fault, c'.journal⟩, c')

/-- One trial after the other, whether or not there are faults. -/
def endure (c : Cache K V) : List (Trial K V) → List (Report K V) × Cache K V
  | [] => ([], c)
  | s :: ss => ((c.attempt s).1 :: ((c.attempt s).2.endure ss).1, ((c.attempt s).2.endure ss).2)

theorem endure_concat (c : Cache K V) (ss : List (Trial K V)) (s : Trial K V) :
    c.endure (ss ++ [s]) =
      ((c.endure ss).1 ++ [((c.endure ss).2.attempt s).1], ((c.endure ss).2.attempt s).2) := by
  induction ss generalizing c with
  | nil => rfl
  | cons s₁ ss ih =>
    rw [List.cons_append]
    unfold endure
    rw [ih]
    rfl

theorem attempt_of_ok {c c' : Cache K V} {s : Trial K V} {a : Response K V}
    (h : handle s.request (c.met s) = .ok a c') :
    c.attempt s = (⟨(c.met s).table, s.request, .ok a, c'.journal⟩, c') := by
  unfold attempt
  rw [h]

theorem attempt_of_error {c c' : Cache K V} {s : Trial K V} {fault : Fault}
    (h : handle s.request (c.met s) = .error fault c') :
    c.attempt s = (⟨(c.met s).table, s.request, .error fault, c'.journal⟩, c') := by
  unfold attempt
  rw [h]

/-- A report shows what becomes of the counters. -/
theorem attempt_charged (c : Cache K V) (s : Trial K V) :
    (c.attempt s).1.request = s.request ∧ (c.attempt s).1.noted.length ≤ 1 ∧
      ∀ n, (c.attempt s).2.stats.count n = if (c.attempt s).1.request.action.isRecount then 0
        else c.stats.count n + UInt64.ofNat ((c.attempt s).1.charged n) := by
  cases hrun : handle s.request (c.met s) with
  | ok a c' =>
    obtain ⟨noted, hone, hcharged⟩ := (charging_handle s.request).ok hrun
    have hnoted : c'.journal = noted := hcharged.journal
    rw [attempt_of_ok hrun]
    refine ⟨rfl, hnoted ▸ hone, fun n => ?_⟩
    have hstats := hcharged.stats n
    rw [← hnoted, ← charge_tells hrun] at hstats
    exact hstats
  | error fault c' =>
    obtain ⟨-, hcharged⟩ := (charging_handle s.request).error hrun
    have hnoted : c'.journal = [] := hcharged.journal
    rw [attempt_of_error hrun]
    refine ⟨rfl, Nat.le_trans (Nat.le_of_eq (congrArg _ hnoted)) (Nat.zero_le 1), fun n => ?_⟩
    have hstats := hcharged.stats n
    rw [← hnoted] at hstats
    exact hstats

/-- A fault of anything but a lookup leaves the counters alone. -/
theorem stats_of_fault {c : Cache K V} {s : Trial K V} (hfault : (c.attempt s).1.returned = none)
    (hlookup : (c.attempt s).1.request.action.isFind = false) : (c.attempt s).2.stats = c.stats := by
  cases hrun : handle s.request (c.met s) with
  | ok a c' =>
    rw [attempt_of_ok hrun] at hfault
    cases hfault
  | error fault c' =>
    rw [attempt_of_error hrun] at hlookup ⊢
    obtain ⟨hreset, hcharged⟩ := (charging_handle s.request).error hrun
    have hsame : c'.stats.count = c.stats.count := by
      funext n
      have hstats := hcharged.stats n
      rw [hreset] at hstats
      -- A fault is charged as a lookup at most.
      have hnone : charge s.request.action none [] n = 0 := by
        cases n with
        | lookups => exact congrArg Bool.toNat hlookup
        | _ => simp [charge]
      rw [hnone] at hstats
      show c'.stats.count n = (c.met s).stats.count n
      simpa using hstats
    rw [← Stats.ofCount_count c.stats, ← hsame, Stats.ofCount_count]

/-- From counters at zero, trials bring the counters to where the reports say. -/
theorem endure_charges {c : Cache K V} (h : ∀ n, c.stats.count n = 0) (ss : List (Trial K V)) :
    (c.endure ss).1.map (·.request) = ss.map (·.request) ∧
      (∀ r ∈ (c.endure ss).1, r.noted.length ≤ 1) ∧
      ∀ n, (c.endure ss).2.stats.count n =
        UInt64.ofNat (charges n (sinceReset (c.endure ss).1)) := by
  -- On the trials from the end: a reset forgets the reports before it.
  induction ss using List.reverseRecOn with
  | nil => exact ⟨rfl, by simp [endure], h⟩
  | append_singleton ss s ih =>
    obtain ⟨hrequests, hone, hstats⟩ := ih
    obtain ⟨hrequest, hone', hstats'⟩ := (c.endure ss).2.attempt_charged s
    rw [endure_concat]
    refine ⟨?_, ?_, ?_⟩
    · rw [List.map_append, List.map_append, hrequests]
      exact congrArg (_ ++ [·]) hrequest
    · intro r hr
      rcases List.mem_append.mp hr with hr | hr
      · exact hone r hr
      · rw [List.mem_singleton.mp hr]
        exact hone'
    · intro n
      rw [hstats' n]
      unfold sinceReset
      rw [List.rtakeWhile_concat]
      cases hreset : ((c.endure ss).2.attempt s).1.request.action.isRecount with
      | true => rfl
      | false =>
        rw [hstats n, ← UInt64.ofNat_add, Bool.not_false, if_pos rfl, charges_concat]
        rfl

/-- The counters are where the reports say, as long as there are fewer of them than a word has
    values. -/
theorem toNat_count_endure {c : Cache K V} (h : ∀ n, c.stats.count n = 0) {ss : List (Trial K V)}
    (hlen : ss.length < 2 ^ 64) (n : Counter) :
    ((c.endure ss).2.stats.count n).toNat = charges n (sinceReset (c.endure ss).1) := by
  obtain ⟨hrequests, hone, hstats⟩ := endure_charges h ss
  have hsuffix : sinceReset (c.endure ss).1 <:+ (c.endure ss).1 := List.rtakeWhile_suffix _ _
  have hcharges := charges_le (fun r hr => hone r (hsuffix.subset hr)) n
  have hlength := congrArg List.length hrequests
  rw [List.length_map, List.length_map] at hlength
  have hbound : charges n (sinceReset (c.endure ss).1) < 2 ^ 64 :=
    Nat.lt_of_le_of_lt (Nat.le_trans hcharges hsuffix.length_le) (hlength ▸ hlen)
  rw [hstats n]
  exact UInt64.toNat_ofNat_of_lt hbound

/-- Whatever becomes of the table between the requests, and however many of them fault, a history that
    is not as long as a word has values leaves exact counters. Since they were last set to zero, they
    are the number of lookups begun, of lookups that returned with the key and without it, of stores
    that returned with a new key and with a known one, of evictions noted in the journal, and of
    removals that returned with the key. The lookups that are neither hits nor misses are those that
    faulted.

    Whichever request comes next, a fault of it changes no counter unless it is a lookup. -/
theorem counters_survive_faults {o : Options} (h : o.check = .ok ()) (ss : List (Trial K V))
    (hlen : ss.length < 2 ^ 64) :
    ∃ c rs c', ofOptions o = .ok (.ok c) ∧ c.endure ss = (rs, c') ∧
      rs.map (·.request) = ss.map (·.request) ∧
      c'.stats.lookups.toNat = seen rs (·.request.action.isFind) ∧
      c'.stats.hits.toNat =
        seen rs (fun r => r.request.action.isFind && r.returned == some true) ∧
      c'.stats.misses.toNat =
        seen rs (fun r => r.request.action.isFind && r.returned == some false) ∧
      c'.stats.lookups.toNat = c'.stats.hits.toNat + c'.stats.misses.toNat +
        seen rs (fun r => r.request.action.isFind && r.returned == none) ∧
      c'.stats.hits ≤ c'.stats.lookups ∧
      c'.stats.insertions.toNat + c'.stats.updates.toNat =
        seen rs (fun r => r.request.action.isStore && r.returned.isSome) ∧
      c'.stats.insertions.toNat =
        seen rs (fun r => r.request.action.isStore && r.returned == some true) ∧
      c'.stats.evictions.toNat = ((sinceReset rs).flatMap (·.noted)).count .evicted ∧
      c'.stats.deletions.toNat =
        seen rs (fun r => r.request.action.isDrop && r.returned == some true) ∧
      ∀ s, (c'.attempt s).1.returned = none → (c'.attempt s).1.request.action.isFind = false →
        (c'.attempt s).2.stats = c'.stats := by
  have hzero : ∀ n, (built o : Cache K V).stats.count n = 0 := fun n => by cases n <;> rfl
  obtain ⟨hrequests, -, -⟩ := endure_charges hzero ss
  obtain ⟨rs, c', hendure⟩ : ∃ rs c', (built o : Cache K V).endure ss = (rs, c') := ⟨_, _, rfl⟩
  have hcount := toNat_count_endure hzero hlen
  rw [hendure] at hrequests hcount
  -- One test for each counter, but for the evictions, which the journal shows.
  have hlookups : c'.stats.lookups.toNat = seen rs (·.request.action.isFind) :=
    (hcount .lookups).trans (charges_eq_countP fun _ => rfl)
  have hhits : c'.stats.hits.toNat =
      seen rs (fun r => r.request.action.isFind && r.returned == some true) :=
    (hcount .hits).trans (charges_eq_countP fun _ => rfl)
  have hmisses : c'.stats.misses.toNat =
      seen rs (fun r => r.request.action.isFind && r.returned == some false) :=
    (hcount .misses).trans (charges_eq_countP fun _ => rfl)
  have hinsertions : c'.stats.insertions.toNat =
      seen rs (fun r => r.request.action.isStore && r.returned == some true) :=
    (hcount .insertions).trans (charges_eq_countP fun _ => rfl)
  have hupdates : c'.stats.updates.toNat =
      seen rs (fun r => r.request.action.isStore && r.returned == some false) :=
    (hcount .updates).trans (charges_eq_countP fun _ => rfl)
  have hevictions : c'.stats.evictions.toNat = ((sinceReset rs).flatMap (·.noted)).count .evicted :=
    (hcount .evictions).trans (charges_evictions _)
  have hdeletions : c'.stats.deletions.toNat =
      seen rs (fun r => r.request.action.isDrop && r.returned == some true) :=
    (hcount .deletions).trans (charges_eq_countP fun _ => rfl)
  have hfound := seen_returned rs (·.request.action.isFind)
  have hfaulted := seen_faulted rs (·.request.action.isFind)
  have hstored := seen_returned rs (·.request.action.isStore)
  refine ⟨_, rs, c', ofOptions_of_ok h, hendure, hrequests, hlookups, hhits, hmisses, ?_, ?_, ?_,
    hinsertions, hevictions, hdeletions, ?_⟩
  · rw [hlookups, hhits, hmisses, hfound, hfaulted]
  · show c'.stats.hits.toNat ≤ c'.stats.lookups.toNat
    rw [hlookups, hhits]
    omega
  · rw [hinsertions, hupdates, hstored]
  · intro s hfault hfind
    exact stats_of_fault hfault hfind

end

/-- The slot of the only key loses its entry. The lookup that meets it faults, and so does the removal,
    which takes the key out of the index first; the next lookup misses. -/
theorem counters_survive_faults_vacated :
    (Options.ofCapacity 1).check = .ok () ∧
      ∃ ss : List (Trial Nat Nat), ss.length < 2 ^ 64 ∧
        ss.map (·.request) = [.set 1 10, .get 1, .remove 1, .get 1] ∧
        ∃ c rs c', ofOptions (.ofCapacity 1) = .ok (.ok c) ∧ c.endure ss = (rs, c') ∧
          rs.map (·.returned) = [some true, none, none, some false] ∧
          c'.stats.lookups.toNat = 2 ∧ c'.stats.hits.toNat = 0 ∧ c'.stats.misses.toNat = 1 ∧
          c'.stats.deletions.toNat = 0 := by
  have hcheck : (Options.ofCapacity 1).check = .ok () := rfl
  obtain ⟨c, rs, c', hc, hrun, -, hlookups, hhits, hmisses, -, -, -, -, -, hdeletions, -⟩ :=
    counters_survive_faults (K := Nat) (V := Nat) hcheck
      [⟨id, .set 1 10⟩, ⟨(·.putEntry 0 none), .get 1⟩, ⟨id, .remove 1⟩, ⟨id, .get 1⟩] (by decide)
  refine ⟨hcheck, _, ?_, ?_, c, rs, c', hc, hrun, ?_, ?_, ?_, ?_, ?_⟩
  all_goals
    rw [ofOptions_of_ok hcheck] at hc
    cases hc
    cases hrun
  · decide
  · rfl
  · decide +kernel
  · rw [hlookups]
    decide +kernel
  · rw [hhits]
    decide +kernel
  · rw [hmisses]
    decide +kernel
  · rw [hdeletions]
    decide +kernel

end RecencyCache.Cache
