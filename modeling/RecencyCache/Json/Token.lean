import RecencyCache.Json.Numeral
import RecencyCache.Json.StringBody

/-! # Tokens of JSON

  A JSON text as a list of tokens. Blanks between tokens are dropped. The
  list always exists: where the text has no token, it ends with `malformed`,
  so that a reader gets to everything before the first slip.

  - `lexeme` reads one token; what it leaves is no longer than what it was
    given (`length_lexeme`).
  - `tokens` reads them all.
-/

namespace RecencyCache.Json

/-- A token of a JSON text. -/
inductive Token where
  /-- An opening square bracket. -/
  | openArray
  /-- A closing square bracket. -/
  | closeArray
  /-- An opening brace. -/
  | openObject
  /-- A closing brace. -/
  | closeObject
  /-- A comma. -/
  | comma
  /-- A colon. -/
  | colon
  /-- The word for the null value. -/
  | null
  /-- The word for a truth value. -/
  | boolean (b : Bool)
  /-- A number. -/
  | number (n : Numeral)
  /-- A string, with the text that it stands for, if it stands for one. -/
  | string (text : Option String)
  /-- Not a token. Nothing is read beyond this point. -/
  | malformed
deriving DecidableEq

/-- The blanks of JSON. -/
def isBlank (c : Char) : Bool := c == ' ' || c == '\n' || c == '\t' || c == '\r'

/-- The token `t` if the text goes on with `word`. -/
def lexWord (word : List Char) (t : Token) (cs : List Char) : Token × List Char :=
  if word.isPrefixOf cs then (t, cs.drop word.length) else (.malformed, [])

/-- The number at the front of a text, after its sign. -/
def lexNumber (negative : Bool) (cs : List Char) : Token × List Char :=
  match Numeral.scan? negative cs with
  | some (n, rest) => (.number n, rest)
  | none => (.malformed, [])

/-- The string at the front of a text, after its opening quote. -/
def lexString (cs : List Char) : Token × List Char :=
  match StringBody.scan? cs with
  | some (ps, rest) => (.string (StringBody.text? ps), rest)
  | none => (.malformed, [])

/-- The token that starts with `c` and goes on in `cs`, and the rest of the text. -/
def lexeme (c : Char) (cs : List Char) : Token × List Char :=
  match c with
  | '[' => (.openArray, cs)
  | ']' => (.closeArray, cs)
  | '{' => (.openObject, cs)
  | '}' => (.closeObject, cs)
  | ',' => (.comma, cs)
  | ':' => (.colon, cs)
  | 'n' => lexWord ['u', 'l', 'l'] .null cs
  | 't' => lexWord ['r', 'u', 'e'] (.boolean true) cs
  | 'f' => lexWord ['a', 'l', 's', 'e'] (.boolean false) cs
  | '"' => lexString cs
  | '-' => lexNumber true cs
  | c => if c.isDigit then lexNumber false (c :: cs) else (.malformed, [])

/-! ### What is left -/

theorem length_lexWord (word : List Char) (t : Token) (cs : List Char) :
    (lexWord word t cs).2.length ≤ cs.length := by
  unfold lexWord
  split
  · rw [List.length_drop]
    omega
  · exact Nat.zero_le _

theorem length_lexNumber (negative : Bool) (cs : List Char) :
    (lexNumber negative cs).2.length ≤ cs.length - 1 := by
  unfold lexNumber
  split
  · rename_i hscan
    exact Nat.le_sub_one_of_lt (Numeral.length_scan? hscan)
  · exact Nat.zero_le _

theorem length_lexString (cs : List Char) : (lexString cs).2.length ≤ cs.length := by
  unfold lexString
  split
  · rename_i hscan
    exact Nat.le_of_lt (StringBody.length_scan? hscan)
  · exact Nat.zero_le _

/-- A token takes its first character at least. -/
theorem length_lexeme (c : Char) (cs : List Char) : (lexeme c cs).2.length ≤ cs.length := by
  unfold lexeme
  split
  case h_7 => exact length_lexWord _ _ _
  case h_8 => exact length_lexWord _ _ _
  case h_9 => exact length_lexWord _ _ _
  case h_10 => exact length_lexString _
  case h_11 => exact Nat.le_trans (length_lexNumber _ _) (Nat.sub_le _ _)
  case h_12 =>
    split
    · exact length_lexNumber false (c :: cs)
    · exact Nat.zero_le _
  all_goals exact Nat.le_refl _

/-! ### The whole text -/

/-- All tokens of a text. -/
def tokens : List Char → List Token
  | [] => []
  | c :: cs =>
    if isBlank c then tokens cs
    else (lexeme c cs).1 :: tokens (lexeme c cs).2
termination_by cs => cs.length
decreasing_by
  · exact Nat.lt_succ_self _
  · exact Nat.lt_succ_of_le (length_lexeme c cs)

end RecencyCache.Json
