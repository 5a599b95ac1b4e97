import RecencyCache.Stats.Reader
import RecencyCache.Proofs.Json.Lexing

/-! # Values that are skipped

  A reader of statistics that has met a name of no counter gets to the end of
  the value behind it, whatever that value is and however deep it is nested,
  and has learned nothing on the way.

  `Leads r r' cs` says that reading `cs` takes a reader from `r` to `r'`. It
  can be put together from shorter texts, so `Derives.leads` is one induction
  on how the grammar derives a value.
-/

namespace RecencyCache.Stats.Reader

open Json

/-! ### From one place to another -/

/-- Takes all tokens of a text. -/
def read (r : Reader) (cs : List Char) : Outcome := (tokens cs).foldlM advance r

theorem read_nil (r : Reader) : read r [] = .ok r := by
  rw [read, tokens]
  rfl

/-- A reader does not notice blanks. -/
theorem read_blank_append {bs : List Char} (hb : Blank bs) (r : Reader) (cs : List Char) :
    read r (bs ++ cs) = read r cs := by
  rw [read, tokens_blank_append hb, read]

theorem read_blank {bs : List Char} (hb : Blank bs) (r : Reader) : read r bs = .ok r := by
  have h := read_blank_append hb r []
  rwa [List.append_nil, read_nil] at h

/-- A text whose first token is known is read by taking that token. -/
theorem read_of_tokens {cs rest : List Char} {t : Token} (h : tokens cs = t :: tokens rest)
    (r : Reader) : read r cs = advance r t >>= fun r' => read r' rest := by
  rw [read, h, List.foldlM_cons]
  rfl

theorem read_mark {c : Char} {t : Token} (hc : Mark c t) (r : Reader) (cs : List Char) :
    read r (c :: cs) = advance r t >>= fun r' => read r' cs :=
  read_of_tokens (tokens_cons hc.visible (hc.alone cs)) r

theorem read_mark_of_step {c : Char} {t : Token} (hc : Mark c t) {r r' : Reader}
    (hstep : advance r t = .ok r') (cs : List Char) : read r (c :: cs) = read r' cs := by
  rw [read_mark hc, hstep]
  rfl

/-- After the last mark there are only blanks. -/
theorem read_last_mark {c : Char} {t : Token} (hc : Mark c t) {bs : List Char} (hb : Blank bs)
    (r : Reader) : read r (c :: bs) = advance r t := by
  simp only [read_mark hc, read_blank hb]
  exact bind_pure _

/-- `Leads r r' cs`: reading `cs` takes a reader from `r` to `r'`, whatever comes after. -/
def Leads (r r' : Reader) (cs : List Char) : Prop :=
  ∀ rest, Closes rest → read r (cs ++ rest) = read r' rest

namespace Leads

variable {r r' s : Reader} {c : Char} {cs ds : List Char} {t : Token}

theorem refl (r : Reader) : Leads r r [] := fun _ _ => rfl

/-- One token is one step. -/
theorem of_reads (h : Reads cs t) (hstep : advance r t = .ok r') : Leads r r' cs := by
  intro rest hrest
  rw [read_of_tokens (h rest hrest), hstep]
  rfl

/-- A mark is one step. It does not matter what comes after. -/
theorem mark (hc : Mark c t) (hstep : advance r t = .ok s) (h : Leads s r' cs) :
    Leads r r' (c :: cs) := by
  intro rest hrest
  rw [List.cons_append, read_mark_of_step hc hstep]
  exact h rest hrest

/-- Two texts one after the other, of which the second starts with no part of a number. -/
theorem append (h : Leads r s cs) (h' : Leads s r' (c :: ds)) (hc : extendsNumber c = false) :
    Leads r r' (cs ++ c :: ds) := by
  intro rest hrest
  rw [List.append_assoc, List.cons_append, h _ (.cons hc _)]
  exact h' rest hrest

/-- Blanks in front lead nowhere. -/
theorem blank_append {bs : List Char} (hb : Blank bs) (h : Leads r r' cs) :
    Leads r r' (bs ++ cs) := by
  intro rest hrest
  rw [List.append_assoc, read_blank_append hb]
  exact h rest hrest

/-- Nor do blanks on both sides. -/
theorem padded {inner : List Char} (h : Leads r r' inner) (hpad : Padded inner cs) :
    Leads r r' cs := by
  intro rest hrest
  obtain ⟨hbefore, hafter⟩ := hpad
  rw [List.append_assoc, List.append_assoc, read_blank_append hbefore,
    h _ (hrest.blank_append hafter), read_blank_append hafter]

end Leads

/-! ### Places within a value -/

/-- The place after `n`, once what was awaited there has come. -/
def ended (n : Nesting) : Nesting := ⟨n.brackets, .separator⟩

/-- The place of a reader that skips a value: within it, or after its member. -/
def within (counted : Counted) (n : Nesting) : Reader :=
  if n.complete then .memberRead counted else .skipping counted n

/-- A step within a value. At its end there is none. -/
theorem advance_within {n next : Nesting} {t : Token} (h : n.advance t = some next)
    (counted : Counted) : advance (within counted n) t = .ok (within counted next) := by
  have hopen : n.complete = false := by
    -- With nothing open and no value due, no token is taken.
    obtain ⟨brackets, awaited⟩ := n
    cases brackets with
    | cons b outer => rfl
    | nil =>
      cases awaited with
      | separator => cases t <;> cases h
      | _ => rfl
  rw [within, if_neg (by simp [hopen]), advance, skip, h, within]

/-- A value may come next. -/
def TakesValue (n : Nesting) : Prop := n.awaited = .value ∨ n.awaited = .firstElement

/-- A name may come next. -/
def TakesName (n : Nesting) : Prop := n.awaited = .key ∨ n.awaited = .firstKey

/-- The first token of a value enters it. -/
theorem advance_value {n : Nesting} (hn : TakesValue n) {t : Token} (ht : t ≠ .closeArray) :
    n.advance t = Nesting.enter n.brackets t := by
  obtain ⟨brackets, awaited⟩ := n
  obtain rfl | rfl := hn
  · rfl
  · cases t with
    | closeArray => exact absurd rfl ht
    | _ => rfl

/-- A name is followed by a colon. -/
theorem advance_name {n : Nesting} (hn : TakesName n) (text : Option String) :
    n.advance (.string text) = some ⟨n.brackets, .colon⟩ := by
  obtain ⟨brackets, awaited⟩ := n
  obtain rfl | rfl := hn <;> rfl

/-- The places at which a phrase may start. Only a value may stand outside of all brackets. -/
def Fits : Phrase → Nesting → Prop
  | .value, n | .element, n => TakesValue n
  | .elements, n => TakesValue n ∧ ∃ outer, n.brackets = .array :: outer
  | .member, n | .members, n => TakesName n ∧ ∃ outer, n.brackets = .object :: outer

/-! ### Whatever the grammar derives -/

/-- A value of one token. -/
theorem leads_scalar {n : Nesting} {cs : List Char} {t : Token} (hn : TakesValue n)
    (h : Reads cs t) (ht : Nesting.enter n.brackets t = some (ended n)) (counted : Counted) :
    Leads (within counted n) (within counted (ended n)) cs := by
  have hne : t ≠ .closeArray := by
    rintro rfl
    cases ht
  exact .of_reads h (advance_within ((advance_value hn hne).trans ht) counted)

/-- A reader that skips gets past any phrase. -/
theorem leads_phrase {p : Phrase} {cs : List Char} (h : Derives p cs) (counted : Counted) :
    ∀ n, Fits p n → Leads (within counted n) (within counted (ended n)) cs := by
  -- On the derivation. A phrase leaves the open brackets as it finds them, so the place that
  -- it ends at is the one that the next comma or closing bracket needs.
  induction h with
  | null =>
    intro n hn
    exact leads_scalar hn reads_null rfl counted
  | yes =>
    intro n hn
    exact leads_scalar hn reads_true rfl counted
  | no =>
    intro n hn
    exact leads_scalar hn reads_false rfl counted
  | number hspells =>
    intro n hn
    exact leads_scalar hn (reads_number hspells) rfl counted
  | string hquotes =>
    intro n hn
    exact leads_scalar hn (reads_string hquotes) rfl counted
  | emptyArray hblank =>
    intro n hn
    have henter := advance_value hn (t := .openArray) (by decide)
    exact .mark mark_openArray (advance_within henter counted) <| .blank_append hblank <|
      .mark mark_closeArray (advance_within rfl counted) (.refl _)
  | array _ ih =>
    intro n hn
    have henter := advance_value hn (t := .openArray) (by decide)
    have hinner := ih ⟨.array :: n.brackets, .firstElement⟩ ⟨.inr rfl, n.brackets, rfl⟩
    exact .mark mark_openArray (advance_within henter counted) <| hinner.append
      (.mark mark_closeArray (advance_within rfl counted) (.refl _)) rfl
  | emptyObject hblank =>
    intro n hn
    have henter := advance_value hn (t := .openObject) (by decide)
    exact .mark mark_openObject (advance_within henter counted) <| .blank_append hblank <|
      .mark mark_closeObject (advance_within rfl counted) (.refl _)
  | object _ ih =>
    intro n hn
    have henter := advance_value hn (t := .openObject) (by decide)
    have hinner := ih ⟨.object :: n.brackets, .firstKey⟩ ⟨.inr rfl, n.brackets, rfl⟩
    exact .mark mark_openObject (advance_within henter counted) <| hinner.append
      (.mark mark_closeObject (advance_within rfl counted) (.refl _)) rfl
  | element _ hpad ih =>
    intro n hn
    exact (ih n hn).padded hpad
  | lastElement _ ih =>
    rintro ⟨_, awaited⟩ ⟨hn, outer, rfl⟩
    exact ih _ hn
  | nextElement _ _ ihfirst ihrest =>
    rintro ⟨_, awaited⟩ ⟨hn, outer, rfl⟩
    have hfirst := ihfirst _ hn
    have hrest := ihrest ⟨.array :: outer, .value⟩ ⟨.inl rfl, outer, rfl⟩
    exact hfirst.append (.mark mark_comma (advance_within rfl counted) hrest) rfl
  | member hquotes hpad _ ih =>
    rintro ⟨_, awaited⟩ ⟨hn, outer, rfl⟩
    have hname := (reads_string hquotes).padded hpad
    have hvalue := ih ⟨.object :: outer, .value⟩ (.inl rfl)
    exact (Leads.of_reads hname (advance_within (advance_name hn _) counted)).append
      (.mark mark_colon (advance_within rfl counted) hvalue) rfl
  | lastMember _ ih =>
    rintro ⟨_, awaited⟩ ⟨hn, outer, rfl⟩
    exact ih _ ⟨hn, outer, rfl⟩
  | nextMember _ _ ihfirst ihrest =>
    rintro ⟨_, awaited⟩ ⟨hn, outer, rfl⟩
    have hfirst := ihfirst _ ⟨hn, outer, rfl⟩
    have hrest := ihrest ⟨.object :: outer, .key⟩ ⟨.inl rfl, outer, rfl⟩
    exact hfirst.append (.mark mark_comma (advance_within rfl counted) hrest) rfl

/-- A reader that has met a name of no counter gets past the colon and the value behind it. -/
theorem leads_otherNamed {cs : List Char} (h : Derives .element cs) (counted : Counted) :
    Leads (.otherNamed counted) (.memberRead counted) (':' :: cs) :=
  .mark mark_colon rfl (leads_phrase h counted Nesting.start (.inl rfl))

end RecencyCache.Stats.Reader
