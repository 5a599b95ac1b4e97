import RecencyCache.Json.Token
import RecencyCache.Proofs.Json.Grammar

/-! # Tokens of what the grammar derives

  Each word, number and string of the grammar is one token, whatever stands
  after it, and blanks are none.

  Only a number needs to know what comes next, since it ends where it cannot
  go on. `Closes` says that it cannot. What may follow a value does that: a
  blank, a comma, a closing bracket, or nothing.
-/

namespace RecencyCache.Json

/-! ### The end of a number -/

/-- The characters with which a number may go on. -/
def extendsNumber (c : Char) : Bool := c.isDigit || c == '.' || c == 'e' || c == 'E'

/-- No number goes on with what the text begins with. -/
def Closes (rest : List Char) : Prop := ∀ c ∈ rest.head?, extendsNumber c = false

theorem Closes.nil : Closes [] := by
  intro c hc
  cases hc

theorem Closes.cons {c : Char} (h : extendsNumber c = false) (rest : List Char) :
    Closes (c :: rest) := by
  intro d hd
  obtain rfl := Option.mem_some.mp hd
  exact h

/-- Blanks close a number, and where there are none the rest has to. -/
theorem Closes.blank_append {bs rest : List Char} (hb : Blank bs) (h : Closes rest) :
    Closes (bs ++ rest) := by
  cases bs with
  | nil => exact h
  | cons b bs =>
    apply Closes.cons
    have hmem := hb b List.mem_cons_self
    simp only [List.mem_cons, List.not_mem_nil, or_false] at hmem
    obtain rfl | rfl | rfl | rfl := hmem <;> rfl

/-- What closes a number starts with none of the characters that go on with it. -/
theorem Closes.head?_ne {rest : List Char} (h : Closes rest) {c : Char}
    (hc : extendsNumber c = true) : rest.head? ≠ some c := by
  intro heq
  have hfalse := h c heq
  rw [hc] at hfalse
  cases hfalse

theorem Closes.isDigit_head? {rest : List Char} (h : Closes rest) :
    ∀ c ∈ rest.head?, c.isDigit = false := by
  intro c hc
  have hends := h c hc
  simp only [extendsNumber, Bool.or_eq_false_iff] at hends
  exact hends.1.1.1

/-! ### Digits -/

section Digits

variable {ds rest : List Char}

/-- Digits are read up to what is no digit. -/
theorem Numeral.scanDigits?_append (hds : IsDigits ds)
    (hrest : ∀ c ∈ rest.head?, c.isDigit = false) :
    scanDigits? (ds ++ rest) = some (ds, rest) := by
  have htake : rest.takeWhile Char.isDigit = [] := by
    cases rest with
    | nil => rfl
    | cons c cs => exact List.takeWhile_cons_of_neg (by simp [hrest c rfl])
  have hdrop : rest.dropWhile Char.isDigit = rest := by
    cases rest with
    | nil => rfl
    | cons c cs => exact List.dropWhile_cons_of_neg (by simp [hrest c rfl])
  unfold scanDigits?
  rw [List.takeWhile_append_of_pos hds.2, List.dropWhile_append_of_pos hds.2, htake, hdrop,
    List.append_nil]
  cases ds with
  | nil => exact absurd rfl hds.1
  | cons d ds => rfl

/-- So are digits before a point. -/
theorem Numeral.scanWhole?_append (hds : IsWhole ds)
    (hrest : ∀ c ∈ rest.head?, c.isDigit = false) :
    scanWhole? (ds ++ rest) = some (ds, rest) := by
  unfold scanWhole?
  rw [scanDigits?_append hds.1 hrest]
  split
  · rename_i heq
    obtain ⟨rfl, rfl⟩ := Prod.mk.inj (Option.some.inj heq)
    cases hds.2 rfl
  · rfl

end Digits

/-- The decimal digits of a number do not start with a zero, but for the number zero. -/
theorem isWhole_toDigits (n : Nat) : IsWhole (Nat.toDigits 10 n) := by
  refine ⟨⟨Nat.toDigits_ne_nil, fun d hd => Nat.isDigit_of_mem_toDigits (by decide) (by decide) hd⟩,
    ?_⟩
  induction n using Nat.strongRecOn with
  | _ n ih =>
    by_cases hn : n < 10
    · rw [Nat.toDigits_of_lt_base hn]
      intro hz
      exact congrArg (fun d => [d]) (Option.some.inj hz)
    · -- All digits but the last are those of `n / 10`, which is not zero.
      rw [Nat.toDigits_of_base_le (by decide) (by omega)]
      intro hz
      have hfront := ih (n / 10) (by omega)
      obtain ⟨d, ds, hd⟩ := List.exists_cons_of_ne_nil (Nat.toDigits_ne_nil (n := n / 10) (b := 10))
      rw [hd, List.cons_append] at hz
      have hzero : n / 10 = 0 := by
        rw [← ofDigits_toDigits (n / 10), hfront (hd ▸ hz)]
        rfl
      omega

/-! ### Numbers -/

namespace Numeral

variable {cs rest : List Char}

/-- A point and digits after it are read as such. -/
theorem scanFraction?_append {ds : List Char} (h : SpellsFraction ds cs)
    (hdigit : ∀ c ∈ rest.head?, c.isDigit = false) (hpoint : rest.head? ≠ some '.') :
    scanFraction? (cs ++ rest) = some (ds, rest) := by
  cases h with
  | absent =>
    rw [List.nil_append]
    unfold scanFraction?
    split
    · exact absurd rfl hpoint
    · rfl
  | present hds => exact scanDigits?_append hds hdigit

/-- The sign and the digits of a power are read as such. -/
theorem scanPower?_append {n : Int} (h : SpellsPower n cs)
    (hdigit : ∀ c ∈ rest.head?, c.isDigit = false) :
    scanPower? (cs ++ rest) = some (n, rest) := by
  cases h with
  | unsigned hds =>
    -- Digits start with no sign.
    obtain ⟨d, ds, rfl⟩ := List.exists_cons_of_ne_nil hds.1
    have hd := hds.2 d List.mem_cons_self
    unfold scanPower?
    split
    · rename_i heq
      obtain ⟨rfl, -⟩ := List.cons.inj heq
      cases hd
    · rename_i heq
      obtain ⟨rfl, -⟩ := List.cons.inj heq
      cases hd
    · rw [scanDigits?_append hds hdigit]
      rfl
  | plus hds =>
    have hscan := scanDigits?_append hds hdigit
    exact congrArg (mapReading fun ds => (ofDigits ds : Int)) hscan
  | minus hds =>
    have hscan := scanDigits?_append hds hdigit
    exact congrArg (mapReading fun ds => -(ofDigits ds : Int)) hscan

/-- A power after its mark is read as such. -/
theorem scanExponent?_append {n : Option Int} (h : SpellsExponent n cs) (hrest : Closes rest) :
    scanExponent? (cs ++ rest) = some (n, rest) := by
  have hdigit := hrest.isDigit_head?
  cases h with
  | absent =>
    rw [List.nil_append]
    unfold scanExponent?
    split
    · exact absurd rfl (hrest.head?_ne rfl)
    · exact absurd rfl (hrest.head?_ne rfl)
    · rfl
  | lower hpower => exact congrArg (mapReading some) (scanPower?_append hpower hdigit)
  | upper hpower => exact congrArg (mapReading some) (scanPower?_append hpower hdigit)

/-- What stands before an exponent ends there, or where the number does. -/
theorem head?_exponent {n : Option Int} (h : SpellsExponent n cs) (hrest : Closes rest) :
    ∀ c ∈ (cs ++ rest).head?, c.isDigit = false ∧ c ≠ '.' := by
  intro c hc
  cases h with
  | absent =>
    refine ⟨hrest.isDigit_head? c hc, ?_⟩
    rintro rfl
    exact hrest.head?_ne rfl hc
  | lower =>
    obtain rfl := Option.mem_some.mp hc
    decide
  | upper =>
    obtain rfl := Option.mem_some.mp hc
    decide

/-- A numeral without a sign is read as such, and with the sign that was read before. -/
theorem scan?_append {whole fraction : List Char} {exponent : Option Int}
    (h : Spells ⟨false, whole, fraction, exponent⟩ cs) (hrest : Closes rest) (negative : Bool) :
    scan? negative (cs ++ rest) = some (⟨negative, whole, fraction, exponent⟩, rest) := by
  cases h with
  | @positive _ _ fs es _ hwhole hfraction hexponent =>
    -- Each part ends because the part after it, if it is there, starts with a mark.
    have hends := head?_exponent hexponent hrest
    have hwhole' : ∀ c ∈ (fs ++ (es ++ rest)).head?, c.isDigit = false := by
      cases hfraction with
      | absent => exact fun c hc => (hends c hc).1
      | present =>
        intro c hc
        obtain rfl := Option.mem_some.mp hc
        rfl
    have hpoint : (es ++ rest).head? ≠ some '.' := fun heq => (hends '.' heq).2 rfl
    unfold scan?
    rw [List.append_assoc, List.append_assoc, scanWhole?_append hwhole hwhole']
    simp only [Option.bind_eq_bind, Option.bind_some]
    rw [scanFraction?_append hfraction (fun c hc => (hends c hc).1) hpoint]
    simp only [Option.bind_some]
    rw [scanExponent?_append hexponent hrest]
    rfl

/-- A numeral without a sign starts with a digit. -/
theorem Spells.exists_digit {whole fraction : List Char} {exponent : Option Int}
    (h : Spells ⟨false, whole, fraction, exponent⟩ cs) :
    ∃ d ds, cs = d :: ds ∧ d.isDigit = true := by
  cases h with
  | positive hwhole =>
    obtain ⟨d, ds, rfl⟩ := List.exists_cons_of_ne_nil hwhole.1.1
    exact ⟨d, _, rfl, hwhole.1.2 d List.mem_cons_self⟩

end Numeral

/-! ### Strings -/

namespace StringBody

variable {ps : List Piece} {cs : List Char}

/-- A string is read up to its closing quote. -/
theorem Spells.scan?_append (h : Spells ps cs) (rest : List Char) :
    scan? (cs ++ '"' :: rest) = some (ps, rest) := by
  induction h with
  | nil => rfl
  | plain hquote hescape hcontrol _ ih =>
    rw [List.cons_append]
    unfold scan?
    split <;> simp_all
  | @letter e c ps cs hletter _ ih =>
    -- The letter of an escape by number is no other escape.
    have hu : e ≠ 'u' := by
      rintro rfl
      cases hletter
    simp [scan?, hu, hletter, ih]
  | number hunit _ ih => simp [scan?, hunit, ih]

/-- The text that pieces mean is the one they are read as. -/
theorem Denotes.text?_eq (h : Denotes ps cs) : text? ps = some (String.ofList cs) := by
  have hfrom : textFrom? none ps = some cs := by
    induction h with
    | nil => rfl
    | char _ ih => rw [textFrom?, ih, Option.map_some]
    | unit hhigh hlow _ ih => simp [textFrom?, hhigh, hlow, ih]
    | pair hhigh hlow _ ih => simp [textFrom?, hhigh, hlow, ih]
  rw [text?, hfrom, Option.map_some]

end StringBody

/-! ### Tokens -/

/-- Blanks are no tokens. -/
theorem tokens_blank_append {bs : List Char} (h : Blank bs) (cs : List Char) :
    tokens (bs ++ cs) = tokens cs := by
  induction bs with
  | nil => rfl
  | cons b bs ih =>
    have hb : isBlank b = true := by
      have hmem := h b List.mem_cons_self
      simp only [List.mem_cons, List.not_mem_nil, or_false] at hmem
      obtain rfl | rfl | rfl | rfl := hmem <;> rfl
    rw [List.cons_append, tokens, if_pos hb]
    exact ih fun c hc => h c (List.mem_cons_of_mem b hc)

/-- A text that starts with a token. -/
theorem tokens_cons {c : Char} {cs rest : List Char} {t : Token} (hc : isBlank c = false)
    (h : lexeme c cs = (t, rest)) : tokens (c :: cs) = t :: tokens rest := by
  rw [tokens, if_neg (by simp [hc]), h]

/-- `Mark c t`: the character `c` is the token `t` all by itself. -/
structure Mark (c : Char) (t : Token) : Prop where
  /-- It is no blank. -/
  visible : isBlank c = false
  /-- It takes nothing of what comes after. -/
  alone : ∀ cs, lexeme c cs = (t, cs)

theorem mark_openArray : Mark '[' .openArray := ⟨rfl, fun _ => rfl⟩

theorem mark_closeArray : Mark ']' .closeArray := ⟨rfl, fun _ => rfl⟩

theorem mark_openObject : Mark '{' .openObject := ⟨rfl, fun _ => rfl⟩

theorem mark_closeObject : Mark '}' .closeObject := ⟨rfl, fun _ => rfl⟩

theorem mark_comma : Mark ',' .comma := ⟨rfl, fun _ => rfl⟩

theorem mark_colon : Mark ':' .colon := ⟨rfl, fun _ => rfl⟩

/-- `Reads cs t`: the text `cs` is the token `t`, unless it is a number that goes on. -/
def Reads (cs : List Char) (t : Token) : Prop :=
  ∀ rest, Closes rest → tokens (cs ++ rest) = t :: tokens rest

/-- Blanks around a token change nothing. -/
theorem Reads.padded {inner cs : List Char} {t : Token} (h : Reads inner t)
    (hpad : Padded inner cs) : Reads cs t := by
  intro rest hrest
  obtain ⟨hbefore, hafter⟩ := hpad
  rw [List.append_assoc, List.append_assoc, tokens_blank_append hbefore,
    h _ (hrest.blank_append hafter), tokens_blank_append hafter]

/-- A word is the token that it names. -/
theorem lexWord_append (word : List Char) (t : Token) (rest : List Char) :
    lexWord word t (word ++ rest) = (t, rest) := by
  rw [lexWord, if_pos (List.isPrefixOf_iff_prefix.mpr (List.prefix_append word rest)),
    List.drop_left]

theorem reads_null : Reads ['n', 'u', 'l', 'l'] .null :=
  fun rest _ => tokens_cons rfl (lexWord_append ['u', 'l', 'l'] .null rest)

theorem reads_true : Reads ['t', 'r', 'u', 'e'] (.boolean true) :=
  fun rest _ => tokens_cons rfl (lexWord_append ['r', 'u', 'e'] (.boolean true) rest)

theorem reads_false : Reads ['f', 'a', 'l', 's', 'e'] (.boolean false) :=
  fun rest _ => tokens_cons rfl (lexWord_append ['a', 'l', 's', 'e'] (.boolean false) rest)

/-- A quoted string is a token. -/
theorem reads_string {ps : List Piece} {cs : List Char} (h : StringBody.Quotes ps cs) :
    Reads cs (.string (StringBody.text? ps)) := by
  intro rest _
  obtain ⟨hspells⟩ := h
  rw [List.cons_append, List.append_assoc]
  refine tokens_cons rfl ?_
  change lexString _ = _
  rw [lexString, List.singleton_append, hspells.scan?_append]

/-- A digit starts a number. -/
theorem lexeme_digit {c : Char} (hc : c.isDigit = true) (cs : List Char) :
    lexeme c cs = lexNumber false (c :: cs) := by
  unfold lexeme
  split
  case h_12 => rw [if_pos hc]
  all_goals cases hc

/-- A digit is no blank. -/
theorem isBlank_digit {c : Char} (hc : c.isDigit = true) : isBlank c = false := by
  rw [Bool.eq_false_iff]
  intro hb
  simp only [isBlank, Bool.or_eq_true, beq_iff_eq] at hb
  obtain ((rfl | rfl) | rfl) | rfl := hb <;> cases hc

theorem lexNumber_eq {negative : Bool} {n : Numeral} {cs rest : List Char}
    (h : Numeral.scan? negative cs = some (n, rest)) : lexNumber negative cs = (.number n, rest) := by
  rw [lexNumber, h]

/-- A number is a token. -/
theorem reads_number {n : Numeral} {cs : List Char} (h : n.Spells cs) : Reads cs (.number n) := by
  intro rest hrest
  obtain ⟨negative, whole, fraction, exponent⟩ := n
  cases negative with
  | false =>
    have hscan := Numeral.scan?_append h hrest false
    obtain ⟨d, ds, rfl, hd⟩ := h.exists_digit
    exact tokens_cons (isBlank_digit hd) ((lexeme_digit hd _).trans (lexNumber_eq hscan))
  | true =>
    cases h with
    | negative h => exact tokens_cons rfl (lexNumber_eq (Numeral.scan?_append h hrest true))

end RecencyCache.Json
