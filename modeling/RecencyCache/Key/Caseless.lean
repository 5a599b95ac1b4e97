/-! # Letters without case

  A key type whose equality is coarser than identity: two characters are
  the same key if they differ at most in the case of an ASCII letter. Equal
  keys can still be told apart by their spelling.

  Main statement: the equality is an equivalence (`EquivBEq CaselessChar`),
  which is all that a key index asks of a key type.
-/

namespace RecencyCache

/-- A character that is compared without regard to ASCII case. -/
structure CaselessChar where
  /-- The character as it was given. -/
  spelling : Char

namespace CaselessChar

/-- What comparison looks at: ASCII capitals become small, other characters stay. -/
def folded (c : CaselessChar) : Char := c.spelling.toLower

instance : BEq CaselessChar := ⟨fun a b => a.folded == b.folded⟩

instance : Ord CaselessChar := ⟨fun a b => compare a.folded b.folded⟩

/-- Two characters are equal keys exactly when they fold to the same character. -/
theorem beq_iff (a b : CaselessChar) : (a == b) = true ↔ a.folded = b.folded :=
  beq_iff_eq (a := a.folded) (b := b.folded)

instance : EquivBEq CaselessChar where
  rfl := (beq_iff _ _).mpr rfl
  symm h := (beq_iff _ _).mpr ((beq_iff _ _).mp h).symm
  trans h₁ h₂ := (beq_iff _ _).mpr (((beq_iff _ _).mp h₁).trans ((beq_iff _ _).mp h₂))

end CaselessChar

end RecencyCache
