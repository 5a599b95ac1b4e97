import RecencyCache.Json.Token

/-! # Skipping a value

  A reader that meets a value it has no use for reads on to the value's end.
  All it has to remember are the brackets that are open, and what may come
  next.

  A `Nesting` is that memory. `advance` takes one token, and refuses one
  that no JSON text has at this place. The value has ended when the nesting
  is `complete`.
-/

namespace RecencyCache.Json

/-- The two kinds of brackets. -/
inductive Bracket where
  /-- Square brackets, around the elements of an array. -/
  | array
  /-- Braces, around the members of an object. -/
  | object
deriving DecidableEq

/-- What may come next. -/
inductive Awaited where
  /-- A value. -/
  | value
  /-- The first element of an array, or the bracket that closes it. -/
  | firstElement
  /-- The name of a member. -/
  | key
  /-- The name of an object's first member, or the bracket that closes it. -/
  | firstKey
  /-- The colon between a name and its value. -/
  | colon
  /-- A comma, or the bracket that closes the innermost open one. -/
  | separator
deriving DecidableEq

/-- The place of a reader within a value. -/
structure Nesting where
  /-- The brackets that are open, the innermost first. -/
  brackets : List Bracket
  /-- What may come next. -/
  awaited : Awaited
deriving DecidableEq

namespace Nesting

/-- The place before a value. -/
def start : Nesting := ⟨[], .value⟩

/-- Whether the value has ended: nothing is open, and no value is due. -/
def complete (n : Nesting) : Bool := n.brackets.isEmpty && n.awaited == .separator

/-- The place after the first token of a value within `brackets`. -/
def enter (brackets : List Bracket) : Token → Option Nesting
  | .null | .boolean _ | .number _ | .string _ => some ⟨brackets, .separator⟩
  | .openArray => some ⟨.array :: brackets, .firstElement⟩
  | .openObject => some ⟨.object :: brackets, .firstKey⟩
  | _ => none

/-- The place after the closing bracket of an innermost `b`. -/
def leave (b : Bracket) : List Bracket → Option Nesting
  | [] => none
  | innermost :: outer => if innermost = b then some ⟨outer, .separator⟩ else none

/-- The place after a comma. -/
def proceed : List Bracket → Option Nesting
  | [] => none
  | .array :: outer => some ⟨.array :: outer, .value⟩
  | .object :: outer => some ⟨.object :: outer, .key⟩

/-- The place after one more token. -/
def advance (n : Nesting) (t : Token) : Option Nesting :=
  match n.awaited, t with
  | .value, t => enter n.brackets t
  | .firstElement, .closeArray => leave .array n.brackets
  | .firstElement, t => enter n.brackets t
  | .firstKey, .closeObject => leave .object n.brackets
  | .firstKey, .string _ => some ⟨n.brackets, .colon⟩
  | .key, .string _ => some ⟨n.brackets, .colon⟩
  | .colon, .colon => some ⟨n.brackets, .value⟩
  | .separator, .comma => proceed n.brackets
  | .separator, .closeArray => leave .array n.brackets
  | .separator, .closeObject => leave .object n.brackets
  | _, _ => none

end Nesting

end RecencyCache.Json
