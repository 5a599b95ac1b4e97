import RecencyCache.Json.Numeral
import RecencyCache.Json.StringBody

/-! # The grammar of JSON

  What a JSON text is, said by rules and not by a reader. The rules are laid
  out so that blanks stand around values and names only.

  - `Numeral.Spells` and `StringBody.Spells` relate what a number or a string
    is read as to its spelling. `StringBody.Denotes` is the text that a string
    means.
  - `Derives` is about values, and about what stands between brackets.

  Nothing here says where a phrase ends: a grammar has no need of that, and a
  reader finds it out by what comes after.
-/

namespace RecencyCache.Json

/-! ### Blanks -/

/-- Nothing but blanks. -/
def Blank (cs : List Char) : Prop := ∀ c ∈ cs, c ∈ [' ', '\t', '\n', '\r']

/-- `Padded inner cs`: `cs` is `inner` with blanks around it. -/
inductive Padded (inner : List Char) : List Char → Prop
  | intro {before after : List Char} :
      Blank before → Blank after → Padded inner (before ++ inner ++ after)

theorem Blank.nil : Blank [] := by
  intro c hc
  cases hc

/-- There may be no blanks at all. -/
theorem Padded.refl (inner : List Char) : Padded inner inner := by
  have h : Padded inner ([] ++ inner ++ []) := .intro .nil .nil
  rwa [List.nil_append, List.append_nil] at h

/-! ### Numbers -/

/-- Decimal digits, at least one. -/
def IsDigits (ds : List Char) : Prop := ds ≠ [] ∧ ∀ d ∈ ds, d.isDigit = true

/-- Decimal digits, at least one, that start with a zero only if that is all there is. -/
def IsWhole (ds : List Char) : Prop := IsDigits ds ∧ (ds.head? = some '0' → ds = ['0'])

namespace Numeral

/-- Digits after a point, or no point. -/
inductive SpellsFraction : List Char → List Char → Prop
  | absent : SpellsFraction [] []
  | present {ds : List Char} : IsDigits ds → SpellsFraction ds ('.' :: ds)

/-- A power of ten, with a sign if it likes. -/
inductive SpellsPower : Int → List Char → Prop
  | unsigned {ds : List Char} : IsDigits ds → SpellsPower (ofDigits ds) ds
  | plus {ds : List Char} : IsDigits ds → SpellsPower (ofDigits ds) ('+' :: ds)
  | minus {ds : List Char} : IsDigits ds → SpellsPower (-ofDigits ds) ('-' :: ds)

/-- A power of ten after its mark, or no mark. -/
inductive SpellsExponent : Option Int → List Char → Prop
  | absent : SpellsExponent none []
  | lower {n : Int} {cs : List Char} : SpellsPower n cs → SpellsExponent (some n) ('e' :: cs)
  | upper {n : Int} {cs : List Char} : SpellsPower n cs → SpellsExponent (some n) ('E' :: cs)

/-- `Spells n cs`: the numeral `n` is written `cs`. -/
inductive Spells : Numeral → List Char → Prop
  | positive {whole fraction fs es : List Char} {exponent : Option Int} :
      IsWhole whole → SpellsFraction fraction fs → SpellsExponent exponent es →
        Spells ⟨false, whole, fraction, exponent⟩ (whole ++ fs ++ es)
  | negative {whole fraction cs : List Char} {exponent : Option Int} :
      Spells ⟨false, whole, fraction, exponent⟩ cs →
        Spells ⟨true, whole, fraction, exponent⟩ ('-' :: cs)

end Numeral

/-! ### Strings -/

namespace StringBody

/-- `Spells ps cs`: the pieces `ps` are written `cs`, without the quotes around them. -/
inductive Spells : List Piece → List Char → Prop
  | nil : Spells [] []
  | plain {c : Char} {ps : List Piece} {cs : List Char} :
      c ≠ '"' → c ≠ '\\' → 0x20 ≤ c.toNat → Spells ps cs → Spells (.char c :: ps) (c :: cs)
  | letter {e c : Char} {ps : List Piece} {cs : List Char} :
      named? e = some c → Spells ps cs → Spells (.char c :: ps) ('\\' :: e :: cs)
  | number {a b c d : Char} {n : Nat} {ps : List Piece} {cs : List Char} :
      unit? a b c d = some n → Spells ps cs →
        Spells (.unit n :: ps) ('\\' :: 'u' :: a :: b :: c :: d :: cs)

/-- `Denotes ps cs`: the pieces `ps` mean the text `cs`. A unit by itself is half of no pair. -/
inductive Denotes : List Piece → List Char → Prop
  | nil : Denotes [] []
  | char {c : Char} {ps : List Piece} {cs : List Char} :
      Denotes ps cs → Denotes (.char c :: ps) (c :: cs)
  | unit {n : Nat} {ps : List Piece} {cs : List Char} :
      isHigh n = false → isLow n = false → Denotes ps cs →
        Denotes (.unit n :: ps) (Char.ofNat n :: cs)
  | pair {high low : Nat} {ps : List Piece} {cs : List Char} :
      isHigh high = true → isLow low = true → Denotes ps cs →
        Denotes (.unit high :: .unit low :: ps) (ofPair high low :: cs)

/-- `Quotes ps cs`: the pieces `ps` are written `cs`, quotes included. -/
inductive Quotes (ps : List Piece) : List Char → Prop
  | intro {cs : List Char} : Spells ps cs → Quotes ps ('"' :: (cs ++ ['"']))

end StringBody

/-! ### Values -/

/-- The phrases of the grammar. -/
inductive Phrase where
  /-- A value. -/
  | value
  /-- A value with blanks around it. -/
  | element
  /-- Elements with commas between them, at least one. -/
  | elements
  /-- A name with blanks around it, a colon and an element. -/
  | member
  /-- Members with commas between them, at least one. -/
  | members
deriving DecidableEq

/-- `Derives p cs`: the text `cs` is a phrase of kind `p`. -/
inductive Derives : Phrase → List Char → Prop
  | null : Derives .value ['n', 'u', 'l', 'l']
  | yes : Derives .value ['t', 'r', 'u', 'e']
  | no : Derives .value ['f', 'a', 'l', 's', 'e']
  | number {n : Numeral} {cs : List Char} : n.Spells cs → Derives .value cs
  | string {ps : List Piece} {cs : List Char} : StringBody.Quotes ps cs → Derives .value cs
  | emptyArray {cs : List Char} : Blank cs → Derives .value ('[' :: (cs ++ [']']))
  | array {cs : List Char} : Derives .elements cs → Derives .value ('[' :: (cs ++ [']']))
  | emptyObject {cs : List Char} : Blank cs → Derives .value ('{' :: (cs ++ ['}']))
  | object {cs : List Char} : Derives .members cs → Derives .value ('{' :: (cs ++ ['}']))
  | element {inner cs : List Char} : Derives .value inner → Padded inner cs → Derives .element cs
  | lastElement {cs : List Char} : Derives .element cs → Derives .elements cs
  | nextElement {cs rest : List Char} :
      Derives .element cs → Derives .elements rest → Derives .elements (cs ++ ',' :: rest)
  | member {ps : List Piece} {quoted name cs : List Char} :
      StringBody.Quotes ps quoted → Padded quoted name → Derives .element cs →
        Derives .member (name ++ ':' :: cs)
  | lastMember {cs : List Char} : Derives .member cs → Derives .members cs
  | nextMember {cs rest : List Char} :
      Derives .member cs → Derives .members rest → Derives .members (cs ++ ',' :: rest)

end RecencyCache.Json
