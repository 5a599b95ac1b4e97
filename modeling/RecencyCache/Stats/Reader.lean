import RecencyCache.Json.Nesting
import RecencyCache.Stats.Mismatch

/-! # Reading statistics

  Exported statistics are read back from JSON. Two forms are accepted:

  - an **object** with a member for each counter, in any order, among any
    number of other members;
  - an **array** of the seven counters in their order.

  The reader takes the tokens of the text one by one. A `Reader` is its
  place between two tokens, and `advance` takes a token or finds fault with
  it, so the fault reported is the first one in the text. What is missing
  from an object is found at its closing bracket.
-/

namespace RecencyCache.Stats

open Json (Token Nesting)

/-- The counters read so far, the last one first. -/
abbrev Counted := List (Counter × UInt64)

/-- The statistics that the members of an object amount to. -/
def ofCounted (counted : Counted) : Except Mismatch Stats :=
  match Counter.all.find? fun c => (counted.lookup c).isNone with
  | some c => .error (.missing c)
  | none => .ok (ofCount fun c => (counted.lookup c).getD 0)

/-- The place of a reader between two tokens. -/
inductive Reader where
  /-- Before the text. -/
  | start
  /-- After the bracket that opens an array. -/
  | arrayStart
  /-- In an array, after some elements and a comma. -/
  | elementDue (counts : List UInt64)
  /-- In an array, after an element. -/
  | elementRead (counts : List UInt64)
  /-- After the bracket that opens an object. -/
  | objectStart
  /-- In an object, after some members and a comma. -/
  | keyDue (counted : Counted)
  /-- In an object, after the name of a counter. -/
  | counterNamed (counted : Counted) (c : Counter)
  /-- In an object, after the name of a counter and a colon. -/
  | countDue (counted : Counted) (c : Counter)
  /-- In an object, after a name that is no counter's. -/
  | otherNamed (counted : Counted)
  /-- In an object, within the value of a member that is no counter. -/
  | skipping (counted : Counted) (place : Nesting)
  /-- In an object, after a member. -/
  | memberRead (counted : Counted)
  /-- After the text. -/
  | finished (s : Stats)
deriving DecidableEq

namespace Reader

/-- What a reader has to say about a token, or the place after it. -/
abbrev Outcome := Except Unreadable Reader

/-- What the first token of a value shows it to be. A number beyond all doubles is nothing, and
    so is a string that stands for no text. -/
def found? : Token → Option Found
  | .null => some .null
  | .boolean b => some (.boolean b)
  | .number n =>
    match n.kind with
    | .integer i => some (.integer i)
    | .floating => some .floating
    | .overflow => none
  | .string text => text.map .string
  | .openArray => some .sequence
  | .openObject => some .mapping
  | _ => none

/-- The counter given by a token. -/
def count (t : Token) : Except Unreadable UInt64 :=
  match found? t with
  | none => .error .malformed
  | some (.integer (.ofNat n)) => .ok (UInt64.ofNat n)
  | some found => .error (.mismatch (.notCount found))

/-- The first token of the text. -/
def begin : Token → Outcome
  | .openArray => .ok .arrayStart
  | .openObject => .ok .objectStart
  | t =>
    match found? t with
    | none => .error .malformed
    | some found => .error (.mismatch (.notStats found))

/-- An element of an array, after `counts`. -/
def element (counts : List UInt64) (t : Token) : Outcome := do
  return .elementRead (counts ++ [← count t])

/-- The bracket that closes an array. -/
def endArray (counts : List UInt64) : Outcome :=
  if counts.length < Counter.all.length then .error (.mismatch (.short counts.length))
  else
    match ofCounted (Counter.all.zip counts) with
    | .ok s => .ok (.finished s)
    | .error m => .error (.mismatch m)

/-- A comma, or the bracket that closes an array, after an element. -/
def afterElement (counts : List UInt64) : Token → Outcome
  | .closeArray => endArray counts
  | .comma =>
    if counts.length < Counter.all.length then .ok (.elementDue counts) else .error .malformed
  | _ => .error .malformed

/-- The bracket that closes an object. -/
def endObject (counted : Counted) : Outcome :=
  match ofCounted counted with
  | .ok s => .ok (.finished s)
  | .error m => .error (.mismatch m)

/-- The name of a member, which must not be that of a counter read before. -/
def key (counted : Counted) : Token → Outcome
  | .string (some name) =>
    match Counter.ofName? name with
    | none => .ok (.otherNamed counted)
    | some c =>
      if (counted.lookup c).isSome then .error (.mismatch (.duplicate c))
      else .ok (.counterNamed counted c)
  | _ => .error .malformed

/-- A token within the value of a member that is no counter. -/
def skip (counted : Counted) (place : Nesting) (t : Token) : Outcome :=
  match place.advance t with
  | none => .error .malformed
  | some next => .ok (if next.complete then .memberRead counted else .skipping counted next)

/-- Takes one more token. -/
def advance (r : Reader) (t : Token) : Outcome :=
  match r with
  | .start => begin t
  | .arrayStart => if t = .closeArray then endArray [] else element [] t
  | .elementDue counts => element counts t
  | .elementRead counts => afterElement counts t
  | .objectStart => if t = .closeObject then endObject [] else key [] t
  | .keyDue counted => key counted t
  | .counterNamed counted c => if t = .colon then .ok (.countDue counted c) else .error .malformed
  | .countDue counted c => do return .memberRead ((c, ← count t) :: counted)
  | .otherNamed counted =>
    if t = .colon then .ok (.skipping counted Nesting.start) else .error .malformed
  | .skipping counted place => skip counted place t
  | .memberRead counted =>
    if t = .comma then .ok (.keyDue counted)
    else if t = .closeObject then endObject counted
    else .error .malformed
  | .finished _ => .error .malformed

/-- What was read, once there are no more tokens. -/
def result : Reader → Except Unreadable Stats
  | .finished s => .ok s
  | _ => .error .malformed

end Reader

/-- The statistics that a list of tokens stands for. -/
def ofTokens (ts : List Token) : Except Unreadable Stats :=
  ts.foldlM Reader.advance Reader.start >>= Reader.result

/-- The statistics that a text stands for. -/
def ofText (text : String) : Except Unreadable Stats := ofTokens (Json.tokens text.toList)

end RecencyCache.Stats
