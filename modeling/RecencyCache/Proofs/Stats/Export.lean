import RecencyCache.Proofs.Stats.Layout
import RecencyCache.Proofs.Stats.Skipping

/-! # Statistics survive their export

  Statistics that are written out are read back the same, all 64 bits of each
  counter, and so they are from any text that gives every counter once. If
  some are left out, the first of them in their order is reported, wherever
  the others stand.

  - `leads_members` and `leads_counts` follow a reader through the members of
    an object and the elements of an array.
  - `ofText_object` and `ofText_array` say what the whole text is read as.
-/

namespace RecencyCache.Stats

open Json

/-! ### Counters by name -/

theorem ofName?_name (c : Counter) : Counter.ofName? c.name = some c := by
  cases c <;> decide

theorem ofName?_eq_none {s : String} (h : ∀ c : Counter, c.name ≠ s) :
    Counter.ofName? s = none := by
  rw [Counter.ofName?, List.find?_eq_none]
  intro c _
  rw [beq_iff_eq]
  exact h c

/-- A counter that is not among the names has no value. -/
theorem lookup_eq_none_iff {counted : Counted} {c : Counter} :
    counted.lookup c = none ↔ c ∉ counted.map Prod.fst := by
  rw [List.lookup_eq_none_iff, List.mem_map]
  simp only [bne_iff_ne, ne_eq, not_exists, not_and]
  exact ⟨fun h p hp heq => h p hp heq.symm, fun h p hp heq => h p hp heq.symm⟩

namespace Reader

/-! ### Names and counts -/

section Tokens

variable {r r' : Reader} {cs : List Char}

/-- A name is one step, in whatever spelling. -/
theorem leads_name {s : String} (h : IsName s cs)
    (hstep : advance r (.string (some s)) = .ok r') : Leads r r' cs := by
  obtain ⟨hdenotes, hquotes, hpad⟩ := h
  have hreads := (reads_string hquotes).padded hpad
  rw [hdenotes.text?_eq, String.ofList_toList] at hreads
  exact .of_reads hreads hstep

/-- Digits below `2 ^ 64` are exactly the number that they write. -/
theorem count_digits {n : UInt64} {ds : List Char} (h : ofDigits ds = n.toNat) :
    count (.number ⟨false, ds, [], none⟩) = .ok n := by
  have hlt : n.toNat < Numeral.wordBound := n.toNat_lt
  have hkind : Numeral.kind ⟨false, ds, [], none⟩ = .integer (n.toNat : Nat) := by
    simp [Numeral.kind, hlt, h]
  have hfound : found? (.number ⟨false, ds, [], none⟩) = some (.integer (n.toNat : Nat)) := by
    simp only [found?, hkind]
  rw [count, hfound]
  exact congrArg Except.ok UInt64.ofNat_toNat

/-- A count is one step. -/
theorem leads_count {n : UInt64} (h : IsCount n cs)
    (hstep : ∀ m : Numeral, count (.number m) = .ok n → advance r (.number m) = .ok r') :
    Leads r r' cs := by
  obtain ⟨hwhole, hn, hpad⟩ := h
  have hspells := Numeral.Spells.positive hwhole .absent .absent
  rw [List.append_nil, List.append_nil] at hspells
  exact .of_reads ((reads_number hspells).padded hpad) (hstep _ (count_digits hn))

end Tokens

/-! ### Members -/

/-- The name of a member may come next, after the counters `counted`. -/
def TakesMember (r : Reader) (counted : Counted) : Prop :=
  ∀ text, advance r (.string text) = key counted (.string text)

/-- A member leaves behind what it gives. -/
theorem leads_member {r : Reader} {counted given : Counted} {cs : List Char}
    (hr : TakesMember r counted) (h : IsMember given cs)
    (hnew : ((given.reverse ++ counted).map Prod.fst).Nodup) :
    Leads r (.memberRead (given.reverse ++ counted)) cs := by
  cases h with
  | @counter c n name cs hname hcount =>
    have habsent : counted.lookup c = none := lookup_eq_none_iff.mpr (List.nodup_cons.mp hnew).1
    have hstep : advance r (.string (some c.name)) = .ok (.counterNamed counted c) := by
      rw [hr, key, ofName?_name]
      simp [habsent]
    have hvalue : Leads (.countDue counted c) (.memberRead ((c, n) :: counted)) cs := by
      refine leads_count hcount fun m hm => ?_
      rw [advance, hm]
      rfl
    exact (leads_name hname hstep).append (.mark mark_colon rfl hvalue) rfl
  | @other s _ _ hother hname hvalue =>
    have hstep : advance r (.string (some s)) = .ok (.otherNamed counted) := by
      rw [hr, key, ofName?_eq_none hother]
    exact (leads_name hname hstep).append (leads_otherNamed hvalue counted) rfl

/-- Members leave behind what they give, the last one first, unless a counter comes twice. -/
theorem leads_members {given : Counted} {cs : List Char} (h : AreMembers given cs) :
    ∀ (r : Reader) (counted : Counted), TakesMember r counted →
      ((given.reverse ++ counted).map Prod.fst).Nodup →
      Leads r (.memberRead (given.reverse ++ counted)) cs := by
  induction h with
  | last hmember =>
    intro r counted hr hnew
    exact leads_member hr hmember hnew
  | @next given more cs rest hmember _ ih =>
    intro r counted hr hnew
    -- What the first member gives is among `counted` for the others.
    rw [List.reverse_append, List.append_assoc] at hnew ⊢
    have hsub := (List.sublist_append_right more.reverse (given.reverse ++ counted)).map Prod.fst
    have hfirst := leads_member hr hmember (hnew.sublist hsub)
    have hrest := ih (.keyDue (given.reverse ++ counted)) _ (fun _ => rfl) hnew
    exact hfirst.append (.mark mark_comma rfl hrest) rfl

theorem read_openObject (cs : List Char) : read .start ('{' :: cs) = read .objectStart cs :=
  read_mark_of_step mark_openObject rfl cs

theorem read_openArray (cs : List Char) : read .start ('[' :: cs) = read .arrayStart cs :=
  read_mark_of_step mark_openArray rfl cs

/-- An object is read as what its members give. -/
theorem read_braced {given : Counted} {cs after : List Char} (h : IsBraced given cs)
    (hnew : (given.map Prod.fst).Nodup) (hafter : Blank after) :
    read .start (cs ++ after) = endObject given.reverse := by
  cases h with
  | @empty bs hblank =>
    rw [List.cons_append, read_openObject, List.append_assoc,
      List.singleton_append, read_blank_append hblank]
    exact read_last_mark mark_closeObject hafter _
  | @members _ cs hmembers =>
    have hperm := (List.reverse_perm given).map Prod.fst
    have hleads := leads_members hmembers .objectStart [] (fun _ => rfl)
      (by rw [List.append_nil]; exact hperm.nodup_iff.mpr hnew)
    rw [List.append_nil] at hleads
    rw [List.cons_append, read_openObject, List.append_assoc,
      List.singleton_append, hleads _ (.cons rfl after)]
    exact read_last_mark mark_closeObject hafter _

/-! ### Elements -/

/-- An element may come next, after the numbers `counts`. -/
def TakesElement (r : Reader) (counts : List UInt64) : Prop :=
  ∀ m, advance r (.number m) = element counts (.number m)

/-- An element is put behind the numbers before it. -/
theorem leads_element {r : Reader} {counts : List UInt64} {n : UInt64} {cs : List Char}
    (hr : TakesElement r counts) (h : IsCount n cs) :
    Leads r (.elementRead (counts ++ [n])) cs := by
  refine leads_count h fun m hm => ?_
  rw [hr, element, hm]
  rfl

/-- There is a number at least. -/
theorem length_pos_of_areCounts {ns : List UInt64} {cs : List Char} (h : AreCounts ns cs) :
    0 < ns.length := by
  cases h <;> exact Nat.zero_lt_succ _

/-- Elements are collected, as long as there are not too many. -/
theorem leads_counts {ns : List UInt64} {cs : List Char} (h : AreCounts ns cs) :
    ∀ (r : Reader) (counts : List UInt64), TakesElement r counts →
      counts.length + ns.length ≤ Counter.all.length →
      Leads r (.elementRead (counts ++ ns)) cs := by
  induction h with
  | last hcount =>
    intro r counts hr _
    exact leads_element hr hcount
  | @next n ns cs rest hcount hmore ih =>
    intro r counts hr hlen
    -- The comma is accepted only because another number is still to come.
    have hpos := length_pos_of_areCounts hmore
    rw [List.length_cons] at hlen
    have hfirst := leads_element hr hcount
    have hcomma : advance (.elementRead (counts ++ [n])) .comma =
        .ok (.elementDue (counts ++ [n])) :=
      if_pos (by rw [List.length_append, List.length_singleton]; omega)
    have hrest := ih (.elementDue (counts ++ [n])) _ (fun _ => rfl)
      (by rw [List.length_append, List.length_singleton]; omega)
    rw [List.append_cons]
    exact hfirst.append (.mark mark_comma hcomma hrest) rfl

end Reader

/-! ### The whole text -/

/-- An object is read as what its members give, unless a counter comes twice. -/
theorem ofText_object {given : Counted} {text : String} (h : IsObject given text)
    (hnew : (given.map Prod.fst).Nodup) :
    ofText text = Reader.endObject given.reverse >>= Reader.result := by
  obtain ⟨cs, hbraced, hpad⟩ := h
  change Reader.read .start text.toList >>= Reader.result = _
  generalize text.toList = all at hpad
  obtain ⟨hbefore, hafter⟩ := hpad
  rw [List.append_assoc, Reader.read_blank_append hbefore, Reader.read_braced hbraced hnew hafter]

/-- An array is read as its elements, unless there are too many. -/
theorem ofText_array {ns : List UInt64} {text : String} (h : IsArray ns text)
    (hlen : ns.length ≤ Counter.all.length) :
    ofText text = Reader.endArray ns >>= Reader.result := by
  obtain ⟨cs, hcounts, hpad⟩ := h
  change Reader.read .start text.toList >>= Reader.result = _
  generalize text.toList = all at hpad
  obtain ⟨hbefore, hafter⟩ := hpad
  have hleads := Reader.leads_counts hcounts .arrayStart [] (fun _ => rfl)
    (by rw [List.length_nil]; omega)
  rw [List.append_assoc, Reader.read_blank_append hbefore, List.cons_append,
    Reader.read_openArray, List.append_assoc, List.singleton_append, hleads _ (.cons rfl _),
    Reader.read_last_mark mark_closeArray hafter]
  rfl

/-! ### What the counters amount to -/

/-- Statistics have every counter once. -/
theorem map_fst_entry (s : Stats) (l : List Counter) : (l.map s.entry).map Prod.fst = l := by
  rw [List.map_map]
  exact List.map_id l

/-- Statistics are made up of their counters, in any order. -/
theorem ofCounted_perm {s : Stats} {counted : Counted}
    (h : counted.Perm (Counter.all.map s.entry)) : ofCounted counted = .ok s := by
  have hlookup : ∀ c, counted.lookup c = some (s.count c) := by
    intro c
    cases hc : counted.lookup c with
    | none =>
      -- No counter is left out.
      have hmem : c ∈ counted.map Prod.fst := by
        rw [(h.map Prod.fst).mem_iff, map_fst_entry]
        exact Counter.mem_all c
      exact absurd hmem (lookup_eq_none_iff.mp hc)
    | some n =>
      -- What is found is one of the entries, and has the count of its counter.
      obtain ⟨l₁, l₂, hl, -⟩ := List.lookup_eq_some_iff.mp hc
      have hmem : (c, n) ∈ Counter.all.map s.entry := by
        rw [← h.mem_iff, hl]
        exact List.mem_append_right l₁ List.mem_cons_self
      obtain ⟨d, -, hd⟩ := List.mem_map.mp hmem
      obtain ⟨rfl, rfl⟩ := Prod.mk.inj hd
      rfl
  have hfind : (Counter.all.find? fun c => (counted.lookup c).isNone) = none := by
    rw [List.find?_eq_none]
    intro c _
    simp [hlookup]
  rw [ofCounted, hfind]
  simp only [hlookup, Option.getD_some]
  exact congrArg Except.ok (ofCount_count s)

/-- The first counter that is left out is the one reported. -/
theorem ofCounted_missing {counted : Counted} {c : Counter}
    (h : (Counter.all.find? fun d => d ∉ counted.map Prod.fst) = some c) :
    ofCounted counted = .error (.missing c) := by
  have hsame : (fun d => (counted.lookup d).isNone) = fun d => decide (d ∉ counted.map Prod.fst) := by
    funext d
    rw [Bool.eq_iff_iff, Option.isNone_iff_eq_none, lookup_eq_none_iff, decide_eq_true_iff]
  rw [ofCounted, hsame, h]

/-! ### Reading back -/

variable {s : Stats} {text : String}

/-- An object that gives each counter once is read as the statistics that they make up. -/
theorem ofText_of_perm {given : Counted} (h : IsObject given text)
    (hperm : given.Perm (Counter.all.map s.entry)) : ofText text = .ok s := by
  have hnew : (given.map Prod.fst).Nodup := by
    rw [(hperm.map Prod.fst).nodup_iff, map_fst_entry]
    decide
  rw [ofText_object h hnew, Reader.endObject,
    ofCounted_perm ((List.reverse_perm given).trans hperm)]
  rfl

/-- So is an array of all counters in their order. -/
theorem ofText_of_counts (h : IsArray (Counter.all.map s.count) text) : ofText text = .ok s := by
  have hzip : Counter.all.zip (Counter.all.map s.count) = Counter.all.map s.entry :=
    List.map_prod_left_eq_zip.symm
  rw [ofText_array h (Nat.le_of_eq (List.length_map _)), Reader.endArray, if_neg (by simp), hzip,
    ofCounted_perm (.refl _)]
  rfl

/-- An object that leaves counters out is refused with the first of them. -/
theorem ofText_of_missing {given : Counted} {c : Counter} (h : IsObject given text)
    (hnew : (given.map Prod.fst).Nodup)
    (hc : (Counter.all.find? fun d => d ∉ given.map Prod.fst) = some c) :
    ofText text = .error (.mismatch (.missing c)) := by
  have hkeys : ∀ d, d ∈ given.reverse.map Prod.fst ↔ d ∈ given.map Prod.fst :=
    fun d => ((List.reverse_perm given).map Prod.fst).mem_iff
  have hmissing : (Counter.all.find? fun d => d ∉ given.reverse.map Prod.fst) = some c := by
    simp only [hkeys]
    exact hc
  rw [ofText_object h hnew, Reader.endObject, ofCounted_missing hmissing]
  rfl

/-- Statistics are read back from what they are exported as; from every object that gives each
    counter once, in any order, among any other members; and from every array of the counters in
    their order. An object that gives no counter twice and leaves some out is refused with the
    first one that is missing. -/
theorem survives_export :
    (∀ s : Stats, ofText s.toText = .ok s) ∧
    (∀ (s : Stats) (given : Counted) (text : String), IsObject given text →
      given.Perm (Counter.all.map fun c => (c, s.count c)) → ofText text = .ok s) ∧
    (∀ (s : Stats) (text : String), IsArray (Counter.all.map s.count) text →
      ofText text = .ok s) ∧
    (∀ (given : Counted) (text : String) (c : Counter), IsObject given text →
      (given.map Prod.fst).Nodup → (Counter.all.find? fun d => d ∉ given.map Prod.fst) = some c →
      ofText text = .error (.mismatch (.missing c))) := by
  refine ⟨?_, ?_, ?_, ?_⟩
  · intro s
    exact ofText_of_perm (isObject_toText s) (.refl _)
  · intro s given text h hperm
    exact ofText_of_perm h hperm
  · intro s text h
    exact ofText_of_counts h
  · intro given text c h hnew hc
    exact ofText_of_missing h hnew hc

/-- An object in another order, with an escape in a name, a nested value behind a name of no
    counter, blanks, and the greatest count there is; an array; and an object of two counters. -/
theorem survives_export_reordered :
    ofText ("\x7b\"new\":[\x7b\"a\":-1.5e3\x7d,null ],\"\\u006cookups\": 18446744073709551615," ++
        "\"deletions\":7,\"evictions\":6,\"updates\":5,\"insertions\":4,\"misses\":3,\"hits\":2\x7d") =
      .ok ⟨18446744073709551615, 2, 3, 4, 5, 6, 7⟩ ∧
    ofText "[1,2,3,4,5,6,7]\n" = .ok ⟨1, 2, 3, 4, 5, 6, 7⟩ ∧
    ofText "\x7b\"misses\":3,\"lookups\":1\x7d" = .error (.mismatch (.missing .hits)) := by
  have hspace : Blank [' '] := by simp [Blank]
  have hnewline : Blank ['\n'] := by simp [Blank]
  -- The member that gives no counter.
  have hnumber : Numeral.Spells _ _ := .negative (.positive (isWhole_toDigits 1)
    (.present (isWhole_toDigits 5).1) (.lower (.unsigned (isWhole_toDigits 3).1)))
  have hobject : Derives .value _ := .object (.lastMember (.member
    (.intro (spells_plain (by decide : ['a'].all isPlain = true))) (.refl _)
    (.element (.number hnumber) (.refl _))))
  have hvalue : Derives .element _ := .element (.array (.nextElement
    (.element hobject (.refl _)) (.lastElement (.element .null (.intro .nil hspace))))) (.refl _)
  have hnew : ∀ c : Counter, c.name ≠ "new" := by
    intro c
    cases c <;> decide
  have hother := IsMember.other hnew (isName_plain (by decide)) hvalue
  -- The first counter, with a unit by number in its name and the greatest count.
  have hookups : StringBody.Spells _ ['o', 'o', 'k', 'u', 'p', 's'] := spells_plain (by decide)
  have hname : IsName Counter.lookups.name
      ['"', '\\', 'u', '0', '0', '6', 'c', 'o', 'o', 'k', 'u', 'p', 's', '"'] :=
    .intro (.unit rfl rfl (denotes_chars ['o', 'o', 'k', 'u', 'p', 's']))
      (.intro (.number rfl hookups)) (.refl _)
  have hwhole : IsWhole "18446744073709551615".toList :=
    ⟨⟨by decide, List.all_eq_true.mp (by decide)⟩, by decide⟩
  have hcount : IsCount 18446744073709551615 _ :=
    .intro hwhole (by decide +kernel) (.intro hspace .nil)
  -- The others, from the last one on, are written as in an export.
  have hrest := areMembers_intercalate ⟨0, 2, 3, 4, 5, 6, 7⟩
    (List.cons_ne_nil .deletions [.evictions, .updates, .insertions, .misses, .hits])
  have hreordered := IsBraced.members (.next hother (.next (.counter hname hcount) hrest))
  have harray := AreCounts.next (isCount_toDigits 1) <| .next (isCount_toDigits 2) <|
    .next (isCount_toDigits 3) <| .next (isCount_toDigits 4) <| .next (isCount_toDigits 5) <|
    .next (isCount_toDigits 6) <| .last (isCount_toDigits 7)
  have htwo := IsBraced.members (areMembers_intercalate ⟨1, 0, 3, 0, 0, 0, 0⟩
    (List.cons_ne_nil .misses [.lookups]))
  have hpad : ∀ {inner : List Char} {text : String}, text.toList = inner → Padded inner text.toList :=
    fun h => h ▸ .refl _
  exact ⟨survives_export.2.1 _ _ _ ⟨_, hreordered, hpad (by decide +kernel)⟩ (by decide),
    survives_export.2.2.1 ⟨1, 2, 3, 4, 5, 6, 7⟩ _ ⟨_, harray, .intro .nil hnewline⟩,
    survives_export.2.2.2 _ _ .hits ⟨_, htwo, hpad (by decide +kernel)⟩ (by decide) (by decide)⟩

end RecencyCache.Stats
