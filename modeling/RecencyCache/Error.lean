/-! # Errors

  The two ways a cache says no. A missing key is never an error: lookups
  answer with an `Option`, deletions with a flag.

  `Error` is the public form, a kind and a sentence. The causes behind it
  (`Options.Invalid`, `Damage`, `Breach`) are types of their own, and each
  has a `toError` that words it.
-/

namespace RecencyCache

/-- A refusal or a report of damage, with its wording. -/
inductive Error where
  /-- The options given for a new cache contradict each other. -/
  | invalidArgument (detail : String)
  /-- The slot table is in a state that no sequence of operations produces. -/
  | corruption (detail : String)
deriving DecidableEq

namespace Error

/-- The sentence shown to a reader: the kind, then the detail. -/
def message : Error → String
  | .invalidArgument detail => "Invalid argument: " ++ detail
  | .corruption detail => "Data corruption: " ++ detail

end Error

end RecencyCache
