/-! # Strings of JSON

  What stands between the double quotes of a JSON string.

  - `StringBody.scan?` reads up to the closing quote. It refuses control
    characters and escapes that JSON does not have.
  - `StringBody.text?` is the text that is meant. An escape by number gives
    a UTF-16 unit; a unit that starts a pair has to be followed at once by
    one that ends a pair, and the two are one character.

  The steps are apart because a reader that only skips a string does not
  ask what it means.
-/

namespace RecencyCache.Json

/-- A piece of a string: a character, or a UTF-16 unit given by number. -/
inductive Piece where
  /-- A character that stands for itself or has an escape of its own. -/
  | char (c : Char)
  /-- A unit that was written as four hexadecimal digits. -/
  | unit (n : Nat)
deriving DecidableEq

namespace StringBody

/-! ### Reading up to the closing quote -/

/-- The value of a hexadecimal digit, in either case. -/
def hexValue? (c : Char) : Option Nat :=
  if '0' ≤ c ∧ c ≤ '9' then some (c.toNat - '0'.toNat)
  else if 'a' ≤ c ∧ c ≤ 'f' then some (c.toNat - 'a'.toNat + 10)
  else if 'A' ≤ c ∧ c ≤ 'F' then some (c.toNat - 'A'.toNat + 10)
  else none

/-- The unit written by four hexadecimal digits. -/
def unit? (a b c d : Char) : Option Nat := do
  return (((← hexValue? a) * 16 + (← hexValue? b)) * 16 + (← hexValue? c)) * 16 + (← hexValue? d)

/-- The character that an escape with one letter stands for. -/
def named? : Char → Option Char
  | '"' => some '"'
  | '\\' => some '\\'
  | '/' => some '/'
  | 'b' => some '\x08'
  | 'f' => some '\x0c'
  | 'n' => some '\n'
  | 'r' => some '\r'
  | 't' => some '\t'
  | _ => none

/-- The pieces up to the closing quote, and what follows it. -/
def scan? : List Char → Option (List Piece × List Char)
  | [] => none
  | '"' :: rest => some ([], rest)
  | '\\' :: 'u' :: a :: b :: c :: d :: rest => do
    let n ← unit? a b c d
    let (ps, rest) ← scan? rest
    return (.unit n :: ps, rest)
  | '\\' :: e :: rest => do
    let c ← named? e
    let (ps, rest) ← scan? rest
    return (.char c :: ps, rest)
  | c :: rest =>
    if c = '\\' ∨ c.toNat < 0x20 then none
    else do
      let (ps, rest) ← scan? rest
      return (.char c :: ps, rest)

/-- Reading a string uses up its closing quote at least. -/
theorem length_scan? {cs : List Char} {ps : List Piece} {rest : List Char}
    (h : scan? cs = some (ps, rest)) : rest.length < cs.length := by
  fun_induction scan? cs generalizing ps rest with
  | case1 => simp at h
  | case2 => simp_all
  | case3 a b c d cs ih =>
    simp only [Option.bind_eq_bind, Option.bind_eq_some_iff] at h
    obtain ⟨_, _, ⟨_, _⟩, hscan, h⟩ := h
    have hlt := ih hscan
    simp_all
    omega
  | case4 e cs _ ih =>
    simp only [Option.bind_eq_bind, Option.bind_eq_some_iff] at h
    obtain ⟨_, _, ⟨_, _⟩, hscan, h⟩ := h
    have hlt := ih hscan
    simp_all
    omega
  | case5 => simp at h
  | case6 c cs _ _ _ _ ih =>
    simp only [Option.bind_eq_bind, Option.bind_eq_some_iff] at h
    obtain ⟨⟨_, _⟩, hscan, h⟩ := h
    have hlt := ih hscan
    simp_all
    omega

/-! ### The text that is meant -/

/-- The units that start a pair. -/
def isHigh (n : Nat) : Bool := 0xd800 ≤ n && n ≤ 0xdbff

/-- The units that end a pair. -/
def isLow (n : Nat) : Bool := 0xdc00 ≤ n && n ≤ 0xdfff

/-- The character that a pair of units stands for. -/
def ofPair (high low : Nat) : Char := Char.ofNat ((high - 0xd800) * 0x400 + (low - 0xdc00) + 0x10000)

/-- The characters that pieces stand for, when `open?` is the start of a pair just read. -/
def textFrom? : (open? : Option Nat) → List Piece → Option (List Char)
  | none, [] => some []
  | none, .char c :: ps => (textFrom? none ps).map (c :: ·)
  | none, .unit n :: ps =>
    if isHigh n then textFrom? (some n) ps
    else if isLow n then none
    else (textFrom? none ps).map (Char.ofNat n :: ·)
  | some high, .unit n :: ps =>
    if isLow n then (textFrom? none ps).map (ofPair high n :: ·) else none
  | some _, _ => none

/-- The text that pieces stand for, unless half of a pair stands alone. -/
def text? (ps : List Piece) : Option String := (textFrom? none ps).map String.ofList

end StringBody

end RecencyCache.Json
