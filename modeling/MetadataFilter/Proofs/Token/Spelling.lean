import MetadataFilter.Proofs.Text.Numeral
import MetadataFilter.Proofs.Token.Stream

/-!
# Pieces of text and the tokens they spell

`Spells P cs` says that the characters `cs` are cut into tokens of which `P` holds wherever they
stand in a text, unless what follows them carries their last lexeme on. Pieces with this property
are put together with blanks and punctuation marks between them.

## Key results

- `Spells.append`: a piece in front of one that does not carry it on
- `Spells.blank`, `Spells.mark`: a blank or a punctuation mark in front of a piece
- `Spells.stream`: a whole text that is one piece
-/

namespace MetadataFilter

open Text

/-- A character that carries on a lexeme of some kind. -/
def carriesOn (c : Char) : Bool := Token.isWordChar c || c == '.' || c == '='

/-- In front of anything that does not carry it on, `cs` is cut into tokens of which `P` holds. -/
def Spells (P : List Token → Prop) (cs : List Char) : Prop :=
  ∀ rest p, Ends carriesOn rest →
    ∃ ts p', P ts ∧ Cursor.Reads ⟨cs ++ rest, p⟩ ts ⟨rest, p'⟩

namespace Spells

variable {P Q R : List Token → Prop} {cs ds : List Char}

/-- What is spelled has all properties that follow. -/
theorem imp (h : ∀ ts, P ts → Q ts) (hP : Spells P cs) : Spells Q cs := by
  intro rest p hrest
  obtain ⟨ts, p', hts, hreads⟩ := hP rest p hrest
  exact ⟨ts, p', h ts hts, hreads⟩

/-- A piece in front of one that does not carry it on. -/
theorem append {c : Char} (hc : carriesOn c = false) (hP : Spells P cs) (hQ : Spells Q (c :: ds))
    (h : ∀ ts us, P ts → Q us → R (ts ++ us)) : Spells R (cs ++ c :: ds) := by
  intro rest p hrest
  obtain ⟨ts, p', hts, hreads⟩ := hP (c :: ds ++ rest) p (Ends.cons hc _)
  obtain ⟨us, p'', hus, hreads'⟩ := hQ rest p' hrest
  refine ⟨ts ++ us, p'', h ts us hts hus, ?_⟩
  rw [List.append_assoc]
  exact hreads.append hreads'

/-- A blank spells nothing. -/
theorem blank (hP : Spells P cs) : Spells P (' ' :: cs) := by
  intro rest p hrest
  obtain ⟨ts, p', hts, hreads⟩ := hP rest (p.advance ' ') hrest
  have hblank := Cursor.Reads.blank (c := ' ') (by decide) (cs ++ rest) p
  exact ⟨ts, p', hts, hblank.append hreads⟩

/-- No character spells no token. -/
theorem nil : Spells (· = []) [] := fun _ p _ => ⟨[], p, rfl, .nil _⟩

/-- A lexeme that is found in front of anything that does not carry it on. -/
theorem lexeme {c : Char} {kind : Token.Kind}
    (hfront : ∀ rest, Ends carriesOn rest →
      Token.front (c :: cs ++ rest) = .token kind (c :: cs))
    (hkind : kind ≠ .endOfInput) (hc : isBlank c = false) :
    Spells (fun ts => ∃ p, ts = [⟨kind, String.ofList (c :: cs), p⟩]) (c :: cs) := by
  intro rest p hrest
  have hreads := Cursor.Reads.lexeme (hfront rest hrest) hkind (Ends.cons hc _) p
  exact ⟨_, _, ⟨p, rfl⟩, hreads⟩

/-- A lexeme of one character, whatever follows it. -/
theorem mark {c : Char} (kind : Token.Kind)
    (hfront : ∀ rest, Token.front (c :: rest) = .token kind [c]) (hkind : kind ≠ .endOfInput)
    (hc : isBlank c = false) (hP : Spells P cs)
    (h : ∀ t ts, t.kind = kind → P ts → Q (t :: ts)) : Spells Q (c :: cs) := by
  intro rest p hrest
  have hmark := Cursor.Reads.mark (hfront (cs ++ rest)) hkind hc p
  obtain ⟨ts, p', hts, hreads⟩ := hP rest _ hrest
  exact ⟨_ :: ts, p', h _ ts rfl hts, hmark.append hreads⟩

/-- A piece between two marks, of which the closing one does not carry it on. -/
theorem enclosed {opening closing : Char} (kind kind' : Token.Kind)
    (hopen : ∀ rest, Token.front (opening :: rest) = .token kind [opening])
    (hclose : ∀ rest, Token.front (closing :: rest) = .token kind' [closing])
    (hkind : kind ≠ .endOfInput) (hkind' : kind' ≠ .endOfInput) (ho : isBlank opening = false)
    (hc : isBlank closing = false) (hcarries : carriesOn closing = false) (hP : Spells P cs)
    (h : ∀ t ts t', t.kind = kind → P ts → t'.kind = kind' → Q (t :: ts ++ [t'])) :
    Spells Q (opening :: (cs ++ [closing])) := by
  -- from the inside out: the closing mark, then the piece in front of it, then the opening mark
  have hlast : Spells (fun ts => ∃ t : Token, ts = [t] ∧ t.kind = kind') [closing] :=
    mark kind' hclose hkind' hc nil fun t ts ht hts => ⟨t, hts ▸ rfl, ht⟩
  have hinner : Spells (fun ts => ∃ us t, ts = us ++ [t] ∧ P us ∧ t.kind = kind')
      (cs ++ [closing]) := by
    refine hP.append hcarries hlast ?_
    intro ts us hts hus
    obtain ⟨t, rfl, ht⟩ := hus
    exact ⟨ts, t, rfl, hts, ht⟩
  refine mark kind hopen hkind ho hinner ?_
  intro t ts ht hts
  obtain ⟨us, t', rfl, hus, ht'⟩ := hts
  exact h t us t' ht hus ht'

end Spells

/-! ### Lexemes -/

/-- What carries no lexeme on carries no word on. -/
theorem isWordChar_of_carriesOn {rest : List Char} (h : Ends carriesOn rest) :
    Ends Token.isWordChar rest := by
  intro c hc
  have := h c hc
  simp only [carriesOn, Bool.or_eq_false_iff] at this
  exact this.1.1

/-- What carries no lexeme on carries no number on. -/
theorem isDigit_of_carriesOn {rest : List Char} (h : Ends carriesOn rest) :
    Ends (fun c => c.isDigit || c == '.') rest := by
  intro c hc
  have := h c hc
  simp only [carriesOn, Token.isWordChar, Char.isAlphanum, Bool.or_eq_false_iff] at this ⊢
  exact ⟨this.1.1.1.2, this.1.2⟩

namespace Spells

/-- A word is one token. -/
theorem word {s : String} (h : Token.isWord s = true) :
    Spells (fun ts => ∃ p, ts = [⟨Token.wordKind s, s, p⟩]) s.toList := by
  obtain ⟨c, cs, htext, hc, -⟩ := isWord_iff.1 h
  have hfront : ∀ rest, Ends carriesOn rest →
      Token.front (s.toList ++ rest) = .token (Token.wordKind s) s.toList := by
    intro rest hrest
    exact Token.front_word h (isWordChar_of_carriesOn hrest)
  have hlexeme := htext ▸ String.ofList_toList (s := s)
  rw [htext] at hfront ⊢
  simpa only [hlexeme] using
    lexeme hfront (Token.wordKind_ne_endOfInput s) (isBlank_of_isWordStart hc)

/-- A text between delimiters. -/
theorem quote {delimiter : Char} (hd : Token.isDelimiter delimiter = true)
    (h : ∀ c ∈ cs, Token.isLineBreak c = false) :
    Spells (fun ts => ∃ p, ts = [⟨.quotedString, String.ofList (Text.quote delimiter cs), p⟩])
      (Text.quote delimiter cs) := by
  have hblank : isBlank delimiter = false := by
    rcases Token.eq_of_isDelimiter hd with rfl | rfl <;> decide
  exact lexeme (fun rest _ => Token.front_quote delimiter hd h rest) (by decide) hblank

/-- Digits are one token. -/
theorem integer {ds : List Char} (hne : ds ≠ []) (h : ∀ c ∈ ds, c.isDigit = true) :
    Spells (fun ts => ∃ p, ts = [⟨.integer, String.ofList ds, p⟩]) ds := by
  obtain ⟨d, ds, rfl⟩ := List.exists_cons_of_ne_nil hne
  exact lexeme (fun rest hrest => Token.front_integer hne h (isDigit_of_carriesOn hrest))
    (by decide) (isBlank_of_isDigit (h d (by simp)))

/-- Digits with a point among them are one token. -/
theorem decimal {ds es : List Char} (hne : ds ≠ []) (hds : ∀ c ∈ ds, c.isDigit = true)
    (hes : ∀ c ∈ es, c.isDigit = true) :
    Spells (fun ts => ∃ p, ts = [⟨.decimal, String.ofList (ds ++ '.' :: es), p⟩])
      (ds ++ '.' :: es) := by
  have hfront : ∀ rest, Ends carriesOn rest →
      Token.front (ds ++ '.' :: es ++ rest) = .token .decimal (ds ++ '.' :: es) := by
    intro rest hrest
    refine Token.front_decimal hne hds hes fun c hc => ?_
    exact (Bool.or_eq_false_iff.1 (isDigit_of_carriesOn hrest c hc)).1
  obtain ⟨d, ds, rfl⟩ := List.exists_cons_of_ne_nil hne
  exact lexeme hfront (by decide) (isBlank_of_isDigit (hds d List.mem_cons_self))

/-- Digits are an integer without a point among them, and a decimal with one. -/
theorem numeral {ds : List Char} (h : IsNumeral ds) :
    Spells (fun ts => ∃ p, ts = [⟨if '.' ∈ ds then .decimal else .integer, String.ofList ds, p⟩])
      ds := by
  cases h with
  | whole ne_nil isDigit =>
    have hpoint : '.' ∉ ds := fun hmem => absurd (isDigit '.' hmem) (by decide)
    rw [if_neg hpoint]
    exact integer ne_nil isDigit
  | fraction ne_nil isDigit isDigit_fraction =>
    rw [if_pos (List.mem_append_right _ List.mem_cons_self)]
    exact decimal ne_nil isDigit isDigit_fraction

/-! ### Whole texts -/

/-- The tokens of a whole text. -/
theorem stream (hP : Spells P cs) (p : Position) :
    ∃ ts p', P ts ∧ (⟨cs, p⟩ : Cursor).stream = ts.foldr Token.Stream.next (.finish p') := by
  obtain ⟨ts, p', hts, hreads⟩ := hP [] p (Ends.nil _)
  rw [List.append_nil] at hreads
  refine ⟨ts, p', hts, hreads.trans ?_⟩
  rw [Cursor.stream_eq]
  rfl

end Spells

end MetadataFilter
