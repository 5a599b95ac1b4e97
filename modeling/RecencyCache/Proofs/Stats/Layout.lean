import RecencyCache.Stats.Printer
import RecencyCache.Proofs.Json.Lexing

/-! # Texts of statistics

  The JSON texts that give counters, each with the counters that it gives:
  objects with a member for each of them, among members that give none
  (`IsObject`), and arrays of nothing but numbers (`IsArray`).

  A counter is given by the decimal digits of a word. All that is left open is
  what JSON leaves open: blanks, the spelling of names, and the values behind
  names that are no counter's.

  The exported text is one of these (`isObject_toText`).
-/

namespace RecencyCache.Stats

open Json

/-! ### The layout -/

/-- `IsCount n cs`: the text `cs` is the number `n`, with blanks around it. -/
inductive IsCount (n : UInt64) : List Char → Prop
  | intro {ds cs : List Char} :
      IsWhole ds → ofDigits ds = n.toNat → Padded ds cs → IsCount n cs

/-- `IsName s cs`: the text `cs` is the name `s`, in any spelling, with blanks around it. -/
inductive IsName (s : String) : List Char → Prop
  | intro {ps : List Piece} {quoted cs : List Char} :
      StringBody.Denotes ps s.toList → StringBody.Quotes ps quoted → Padded quoted cs → IsName s cs

/-- `IsMember given cs`: the text `cs` is a member of an object, and gives the counters `given`. -/
inductive IsMember : List (Counter × UInt64) → List Char → Prop
  | counter {c : Counter} {n : UInt64} {name cs : List Char} :
      IsName c.name name → IsCount n cs → IsMember [(c, n)] (name ++ ':' :: cs)
  | other {s : String} {name cs : List Char} :
      (∀ c : Counter, c.name ≠ s) → IsName s name → Derives .element cs →
        IsMember [] (name ++ ':' :: cs)

/-- `AreMembers given cs`: the text `cs` is members with commas between them, at least one. -/
inductive AreMembers : List (Counter × UInt64) → List Char → Prop
  | last {given : List (Counter × UInt64)} {cs : List Char} :
      IsMember given cs → AreMembers given cs
  | next {given more : List (Counter × UInt64)} {cs rest : List Char} :
      IsMember given cs → AreMembers more rest → AreMembers (given ++ more) (cs ++ ',' :: rest)

/-- An object in its braces. -/
inductive IsBraced : List (Counter × UInt64) → List Char → Prop
  | empty {cs : List Char} : Blank cs → IsBraced [] ('{' :: (cs ++ ['}']))
  | members {given : List (Counter × UInt64)} {cs : List Char} :
      AreMembers given cs → IsBraced given ('{' :: (cs ++ ['}']))

/-- `AreCounts ns cs`: the text `cs` is the numbers `ns` with commas between them, at least one. -/
inductive AreCounts : List UInt64 → List Char → Prop
  | last {n : UInt64} {cs : List Char} : IsCount n cs → AreCounts [n] cs
  | next {n : UInt64} {ns : List UInt64} {cs rest : List Char} :
      IsCount n cs → AreCounts ns rest → AreCounts (n :: ns) (cs ++ ',' :: rest)

/-- The text is an object that gives the counters `given`. -/
def IsObject (given : List (Counter × UInt64)) (text : String) : Prop :=
  ∃ cs, IsBraced given cs ∧ Padded cs text.toList

/-- The text is an array of the numbers `ns`. -/
def IsArray (ns : List UInt64) (text : String) : Prop :=
  ∃ cs, AreCounts ns cs ∧ Padded ('[' :: (cs ++ [']'])) text.toList

/-! ### The exported text -/

/-- A count is given by its decimal digits. -/
theorem isCount_toDigits (n : UInt64) : IsCount n (Nat.toDigits 10 n.toNat) :=
  .intro (isWhole_toDigits n.toNat) (ofDigits_toDigits n.toNat) (.refl _)

/-- The characters that may stand for themselves in a string. -/
def isPlain (c : Char) : Bool := c != '"' && c != '\\' && 0x20 ≤ c.toNat

/-- Plain characters spell themselves. -/
theorem spells_plain {cs : List Char} (h : cs.all isPlain = true) :
    StringBody.Spells (cs.map .char) cs := by
  induction cs with
  | nil => exact .nil
  | cons c cs ih =>
    simp only [List.all_cons, isPlain, Bool.and_eq_true, bne_iff_ne, decide_eq_true_eq] at h
    obtain ⟨⟨⟨hquote, hescape⟩, hcontrol⟩, hrest⟩ := h
    exact .plain hquote hescape hcontrol (ih hrest)

/-- Characters denote themselves. -/
theorem denotes_chars (cs : List Char) : StringBody.Denotes (cs.map .char) cs := by
  induction cs with
  | nil => exact .nil
  | cons c cs ih => exact .char ih

/-- A name of plain characters between quotes. -/
theorem isName_plain {s : String} (h : s.toList.all isPlain = true) :
    IsName s ('"' :: (s.toList ++ ['"'])) :=
  .intro (denotes_chars s.toList) (.intro (spells_plain h)) (.refl _)

/-- The names of counters are plain. -/
theorem isName_counter (c : Counter) : IsName c.name ('"' :: (c.name.toList ++ ['"'])) := by
  apply isName_plain
  cases c <;> decide

/-- A counter with its value. -/
def entry (s : Stats) (c : Counter) : Counter × UInt64 := (c, s.count c)

/-- A member of the exported text. -/
theorem isMember_member (s : Stats) (c : Counter) : IsMember [s.entry c] (s.member c) := by
  have h := IsMember.counter (isName_counter c) (isCount_toDigits (s.count c))
  have htext : s.member c =
      '"' :: (c.name.toList ++ ['"']) ++ ':' :: Nat.toDigits 10 (s.count c).toNat := by
    simp [member]
  rw [htext]
  exact h

/-- Members of the exported text, in any order. -/
theorem areMembers_intercalate (s : Stats) {l : List Counter} (hl : l ≠ []) :
    AreMembers (l.map s.entry) (List.intercalate [','] (l.map s.member)) := by
  induction l with
  | nil => exact absurd rfl hl
  | cons c rest ih =>
    -- A comma follows the member only if there is another one.
    cases rest with
    | nil =>
      rw [List.map_singleton, List.map_singleton, List.intercalate_singleton]
      exact .last (isMember_member s c)
    | cons d rest =>
      have h := AreMembers.next (isMember_member s c) (ih (List.cons_ne_nil d rest))
      rw [List.map_cons] at h
      simp only [List.map_cons, List.intercalate_cons_cons, List.append_assoc]
      exact h

/-- The exported text is an object that gives every counter once, in their order. -/
theorem isObject_toText (s : Stats) : IsObject (Counter.all.map s.entry) s.toText := by
  refine ⟨_, .members (areMembers_intercalate s (by decide)), ?_⟩
  rw [toText, String.toList_ofList]
  exact .refl _

end RecencyCache.Stats
