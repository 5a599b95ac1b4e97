/-! # Numerals of JSON

  A number as it is written: a sign, digits, perhaps digits after a point,
  perhaps a power of ten.

  - `Numeral.scan?` reads the longest numeral at the front of a text. A
    leading zero stands alone, and a point or an exponent mark is followed
    by at least one digit.
  - `Numeral.kind` says what a reader takes a numeral for. Whole numbers
    that fit into a 64-bit word, unsigned or signed, are exact. All others
    are floating-point numbers, of which those above the largest double
    are none at all.
-/

namespace RecencyCache.Json

/-! ### Digits -/

/-- The value of a decimal digit. -/
def digitValue (c : Char) : Nat := c.toNat - '0'.toNat

/-- The number written by decimal digits. -/
def ofDigits (ds : List Char) : Nat := Nat.ofDigitChars 10 ds 0

/-- Decimal digits of a number write that number. -/
theorem ofDigits_toDigits (n : Nat) : ofDigits (Nat.toDigits 10 n) = n :=
  Nat.ofDigitChars_toDigits (by decide) (by decide)

/-! ### The written form -/

/-- The parts of a numeral. -/
structure Numeral where
  /-- Whether a minus sign stands in front. -/
  negative : Bool
  /-- The digits before the point. -/
  whole : List Char
  /-- The digits after the point; none if there is no point. -/
  fraction : List Char
  /-- The power of ten, if one is given. -/
  exponent : Option Int
deriving DecidableEq

namespace Numeral

/-- Digits, at least one, and what follows them. -/
def scanDigits? (cs : List Char) : Option (List Char × List Char) :=
  match cs.takeWhile Char.isDigit with
  | [] => none
  | ds => some (ds, cs.dropWhile Char.isDigit)

/-- The digits before the point: a single zero, or digits that start with another one. -/
def scanWhole? (cs : List Char) : Option (List Char × List Char) :=
  match scanDigits? cs with
  | some ('0' :: _ :: _, _) => none
  | found => found

/-- The digits after a point, if there is a point. -/
def scanFraction? : List Char → Option (List Char × List Char)
  | '.' :: cs => scanDigits? cs
  | cs => some ([], cs)

/-- Changes what was read and leaves the rest of the text as it is. -/
def mapReading {α β : Type} (f : α → β) : Option (α × List Char) → Option (β × List Char) :=
  Option.map fun found => (f found.1, found.2)

/-- The sign and the digits of an exponent, after its mark. -/
def scanPower? : List Char → Option (Int × List Char)
  | '-' :: cs => mapReading (fun ds => -(ofDigits ds : Int)) (scanDigits? cs)
  | '+' :: cs => mapReading (fun ds => (ofDigits ds : Int)) (scanDigits? cs)
  | cs => mapReading (fun ds => (ofDigits ds : Int)) (scanDigits? cs)

/-- The exponent, if there is an exponent mark. -/
def scanExponent? : List Char → Option (Option Int × List Char)
  | 'e' :: cs => mapReading some (scanPower? cs)
  | 'E' :: cs => mapReading some (scanPower? cs)
  | cs => some (none, cs)

/-- The numeral at the front of a text, after its sign, and the rest of the text. -/
def scan? (negative : Bool) (cs : List Char) : Option (Numeral × List Char) := do
  let (whole, cs) ← scanWhole? cs
  let (fraction, cs) ← scanFraction? cs
  let (exponent, cs) ← scanExponent? cs
  return ({ negative, whole, fraction, exponent }, cs)

/-! ### What is left -/

/-- Digits are used up. -/
theorem length_scanDigits? {cs ds rest : List Char} (h : scanDigits? cs = some (ds, rest)) :
    rest.length < cs.length := by
  unfold scanDigits? at h
  split at h
  · cases h
  · rename_i hne
    have hlen := congrArg List.length (List.takeWhile_append_dropWhile (p := Char.isDigit) (l := cs))
    rw [List.length_append] at hlen
    have hpos := List.length_pos_iff.mpr hne
    have hrest : cs.dropWhile Char.isDigit = rest := (Prod.mk.inj (Option.some.inj h)).2
    rw [hrest] at hlen
    omega

/-- The digits before the point are used up. -/
theorem length_scanWhole? {cs ds rest : List Char} (h : scanWhole? cs = some (ds, rest)) :
    rest.length < cs.length := by
  unfold scanWhole? at h
  split at h
  · cases h
  · exact length_scanDigits? h

/-- The part after the point leaves no more than it is given. -/
theorem length_scanFraction? {cs ds rest : List Char} (h : scanFraction? cs = some (ds, rest)) :
    rest.length ≤ cs.length := by
  unfold scanFraction? at h
  split at h
  · have hlt := length_scanDigits? h
    rw [List.length_cons]
    omega
  · exact Nat.le_of_eq (congrArg List.length (Prod.mk.inj (Option.some.inj h)).2.symm)

/-- A changed reading leaves what it left before. -/
theorem of_mapReading {α β : Type} {f : α → β} {r : Option (α × List Char)} {b : β}
    {rest : List Char} (h : mapReading f r = some (b, rest)) : ∃ a, r = some (a, rest) := by
  obtain ⟨⟨a, left⟩, hr, heq⟩ := Option.map_eq_some_iff.mp h
  obtain ⟨_, rfl⟩ := Prod.mk.inj heq
  exact ⟨a, hr⟩

/-- The digits of an exponent are used up. -/
theorem length_scanPower? {cs rest : List Char} {n : Int} (h : scanPower? cs = some (n, rest)) :
    rest.length < cs.length := by
  unfold scanPower? at h
  split at h <;> obtain ⟨ds, hscan⟩ := of_mapReading h
  case h_1 => exact Nat.lt_succ_of_lt (length_scanDigits? hscan)
  case h_2 => exact Nat.lt_succ_of_lt (length_scanDigits? hscan)
  case h_3 => exact length_scanDigits? hscan

/-- The exponent leaves no more than it is given. -/
theorem length_scanExponent? {cs rest : List Char} {n : Option Int}
    (h : scanExponent? cs = some (n, rest)) : rest.length ≤ cs.length := by
  unfold scanExponent? at h
  split at h
  case h_1 =>
    obtain ⟨m, hscan⟩ := of_mapReading h
    exact Nat.le_succ_of_le (Nat.le_of_lt (length_scanPower? hscan))
  case h_2 =>
    obtain ⟨m, hscan⟩ := of_mapReading h
    exact Nat.le_succ_of_le (Nat.le_of_lt (length_scanPower? hscan))
  case h_3 =>
    exact Nat.le_of_eq (congrArg List.length (Prod.mk.inj (Option.some.inj h)).2.symm)

/-- A numeral is used up. -/
theorem length_scan? {negative : Bool} {cs rest : List Char} {n : Numeral}
    (h : scan? negative cs = some (n, rest)) : rest.length < cs.length := by
  unfold scan? at h
  obtain ⟨⟨_, afterWhole⟩, hwhole, h⟩ := Option.bind_eq_some_iff.mp h
  obtain ⟨⟨_, afterFraction⟩, hfraction, h⟩ := Option.bind_eq_some_iff.mp h
  obtain ⟨⟨_, afterExponent⟩, hexponent, h⟩ := Option.bind_eq_some_iff.mp h
  have hrest : afterExponent = rest := (Prod.mk.inj (Option.some.inj h)).2
  have h₁ := length_scanWhole? hwhole
  have h₂ := length_scanFraction? hfraction
  have h₃ := length_scanExponent? hexponent
  subst hrest
  omega

/-! ### The largest double -/

/-- The first number that a 64-bit word cannot hold, `2 ^ 64`. -/
def wordBound : Nat := 0x10000000000000000

/-- The number with 53 binary digits, followed by zeros, that is nearest to `n`; of two equally
    near ones the one whose last digit is even. -/
def nearestDouble (n : Nat) : Nat :=
  let unit := Nat.pow 2 (n.log2 - 52)
  let q := n / unit
  let r := n % unit
  if unit < 2 * r ∨ (2 * r = unit ∧ q % 2 = 1) then (q + 1) * unit else q * unit

/-- Reads digits after `n` as long as the number stays below `2 ^ 64`. Returns the number and
    how many digits were read. -/
def leading : (n : Nat) → List Char → Nat × Nat
  | n, [] => (n, 0)
  | n, d :: ds =>
    let next := 10 * n + digitValue d
    if next < wordBound then
      let (m, count) := leading next ds
      (m, count + 1)
    else (n, 0)

/-- The first digits as a number below `2 ^ 64`, and the power of ten that it is multiplied
    with. Digits that no longer fit count only towards the power. -/
def scaled (n : Numeral) : Nat × Int :=
  let (m, wholeRead) := leading 0 n.whole
  let (m, fractionRead) := leading m n.fraction
  (m, (n.whole.length - wholeRead : Nat) - (fractionRead : Int) + n.exponent.getD 0)

/-- Whether a floating-point reading passes the largest double. The significand and the power
    of ten are each rounded to a double, and so is their product. -/
def overflows (n : Numeral) : Bool :=
  let (m, power) := n.scaled
  if m = 0 ∨ power < 0 then false
  else if 308 < power then true
  else Nat.pow 2 1024 ≤ nearestDouble (nearestDouble m * nearestDouble (Nat.pow 10 power.toNat))

/-! ### What a numeral is taken for -/

/-- What a reader takes a numeral for. -/
inductive Kind where
  /-- A whole number of 64 bits, with its sign. -/
  | integer (n : Int)
  /-- A floating-point number. -/
  | floating
  /-- A number with no double near it. -/
  | overflow
deriving DecidableEq

/-- A numeral without point, exponent and minus sign is exact below `2 ^ 64`, and one with a
    minus sign down to `-2 ^ 63`, except for a negative zero. -/
def kind (n : Numeral) : Kind :=
  let m := ofDigits n.whole
  let plain := n.fraction = [] ∧ n.exponent = none
  if plain ∧ n.negative = false ∧ m < wordBound then .integer m
  else if plain ∧ n.negative = true ∧ 0 < m ∧ m ≤ wordBound / 2 then .integer (-m)
  else if n.overflows then .overflow
  else .floating

end Numeral

end RecencyCache.Json
