import MetadataFilter.Text.Blank
import MetadataFilter.Token

/-!
# Cutting a text into tokens

`front` says what stands at the front of a text that does not start with a blank: a token with its
lexeme, or a fault with the characters it uses up. A `Cursor` is the rest of a text with the place
it starts at; `Cursor.next` skips blanks and takes what stands at the front. `Token.stream` takes
tokens up to the end of a text or its first fault.

Main statements:

* `front_token_isPrefix`  a lexeme is a piece of the text's front
* `front_token_ne_nil`    only the end of the text has an empty lexeme
* `next_rest_lt`          every other token shortens the rest
-/

namespace MetadataFilter

namespace Token

/-- A character that an identifier or keyword can start with. -/
def isWordStart (c : Char) : Bool := c.isAlpha || c == '_'

/-- A character that an identifier or keyword can go on with. -/
def isWordChar (c : Char) : Bool := c.isAlphanum || c == '_'

/-- A character that ends a line and so cannot stand in a string. -/
def isLineBreak (c : Char) : Bool := c == '\n' || c == '\r'

/-- The two characters that delimit strings. -/
def isDelimiter (c : Char) : Bool := c == '\'' || c == '\x22'

/-- The kind of a word. Only the spellings all in upper case and all in lower case are reserved. -/
def wordKind : String → Kind
  | "WHERE" | "where" => .whereWord
  | "AND" | "and" => .andWord
  | "OR" | "or" => .orWord
  | "IN" | "in" => .inWord
  | "NIN" | "nin" => .ninWord
  | "NOT" | "not" => .notWord
  | "TRUE" | "true" | "FALSE" | "false" => .boolean
  | _ => .identifier

/-- Whether a text is a word: a letter or underscore, then letters, digits and underscores. -/
def isWord (text : String) : Bool :=
  match text.toList with
  | [] => false
  | c :: cs => isWordStart c && cs.all isWordChar

/-- Whether a text is a word that is not reserved. -/
def isIdentifier (text : String) : Bool :=
  isWord text && wordKind text == .identifier

/-- The operator or punctuation mark that starts with `c` before `next`, with its length. -/
def markKind (c : Char) (next : Option Char) : Option (Kind × Nat) :=
  match c, next with
  | '=', some '=' => some (.equal, 2)
  | '!', some '=' => some (.notEqual, 2)
  | '>', some '=' => some (.greaterEqual, 2)
  | '<', some '=' => some (.lessEqual, 2)
  | '&', some '&' => some (.andWord, 2)
  | '|', some '|' => some (.orWord, 2)
  | '>', _ => some (.greater, 1)
  | '<', _ => some (.less, 1)
  | '.', _ => some (.dot, 1)
  | ',', _ => some (.comma, 1)
  | '[', _ => some (.leftBracket, 1)
  | ']', _ => some (.rightBracket, 1)
  | '(', _ => some (.leftParen, 1)
  | ')', _ => some (.rightParen, 1)
  | '-', _ => some (.minus, 1)
  | '+', _ => some (.plus, 1)
  | _, _ => none

/-- A character that starts only marks of two characters: alone it is used up by its fault. -/
def needsPartner (c : Char) : Bool := c == '=' || c == '!' || c == '&' || c == '|'

/-- What stands at the front of a text. -/
inductive Front where
  /-- A token and its lexeme; the end of the text is a token with none. -/
  | token (kind : Kind) (lexeme : List Char)
  /-- A fault and the characters that it uses up. -/
  | fault (fault : LexFault) (consumed : List Char)
deriving DecidableEq

/-- What follows the opening delimiter of a string: on success the characters up to and with the
closing delimiter, else those used up before the fault. A backslash protects the character after
it, but not a line break. -/
def closeString (delimiter : Char) : List Char → Except (List Char) (List Char)
  | [] => .error []
  | ['\\'] => .error ['\\']
  | '\\' :: c :: rest =>
    if isLineBreak c then .error ['\\']
    else
      match closeString delimiter rest with
      | .ok taken => .ok ('\\' :: c :: taken)
      | .error taken => .error ('\\' :: c :: taken)
  | c :: rest =>
    if isLineBreak c then .error [c]
    else if c == delimiter then .ok [c]
    else
      match closeString delimiter rest with
      | .ok taken => .ok (c :: taken)
      | .error taken => .error (c :: taken)

/-- A number: digits with at most one point, and at least one digit. -/
def numberFront (cs : List Char) : Front :=
  match cs.dropWhile Char.isDigit with
  | '.' :: rest => .token .decimal (cs.takeWhile Char.isDigit ++ '.' :: rest.takeWhile Char.isDigit)
  | _ => .token .integer (cs.takeWhile Char.isDigit)

/-- A word: the longest run of word characters. -/
def wordFront (cs : List Char) : Front :=
  .token (wordKind (String.ofList (cs.takeWhile isWordChar))) (cs.takeWhile isWordChar)

/-- A string that starts with `delimiter`. -/
def stringFront (delimiter : Char) (rest : List Char) : Front :=
  match closeString delimiter rest with
  | .ok taken => .token .quotedString (delimiter :: taken)
  | .error taken => .fault .unterminated (delimiter :: taken)

/-- An operator or punctuation mark. -/
def markFront (c : Char) (rest : List Char) : Front :=
  match markKind c rest.head? with
  | some (kind, n) => .token kind ((c :: rest).take n)
  | none => .fault (.unexpected c) (if needsPartner c then [c] else [])

/-- What stands at the front of a text that does not start with a blank. -/
def front : List Char → Front
  | [] => .token .endOfInput []
  | c :: rest =>
    if c.isDigit || (c == '.' && rest.head?.any Char.isDigit) then numberFront (c :: rest)
    else if isWordStart c then wordFront (c :: rest)
    else if isDelimiter c then stringFront c rest
    else markFront c rest

/-! ### What a lexeme is -/

/-- What closes a string is a piece of the text's front. -/
theorem closeString_isPrefix {delimiter : Char} {cs taken : List Char}
    (h : closeString delimiter cs = .ok taken) : taken <+: cs := by
  fun_induction closeString delimiter cs generalizing taken with
  | case1 => cases h
  | case2 => cases h
  | case3 => cases h
  | case4 c rest _ taken' _ ih => cases h; simpa using ih ‹_›
  | case5 => cases h
  | case6 => cases h
  | case7 => cases h; simp
  | case8 c rest _ _ _ _ taken' _ ih => cases h; simpa using ih ‹_›
  | case9 => cases h

/-- A number is a piece of the text's front. -/
theorem numberFront_isPrefix {cs lexeme : List Char} {kind : Kind}
    (h : numberFront cs = .token kind lexeme) : lexeme <+: cs := by
  have split := List.takeWhile_append_dropWhile (p := Char.isDigit) (l := cs)
  unfold numberFront at h
  split at h
  · next rest heq =>
    cases h
    rw [heq] at split
    refine ⟨rest.dropWhile Char.isDigit, ?_⟩
    rw [List.append_assoc, List.cons_append, List.takeWhile_append_dropWhile]
    exact split
  · cases h
    exact List.takeWhile_prefix _

/-- No word is the end of the text. -/
theorem wordKind_ne_endOfInput (word : String) : wordKind word ≠ .endOfInput := by
  unfold wordKind; split <;> simp

/-- A mark is not the end of the text and has at least one character. -/
theorem markKind_ne_endOfInput {c : Char} {next : Option Char} {kind : Kind} {n : Nat}
    (h : markKind c next = some (kind, n)) : kind ≠ .endOfInput ∧ 0 < n := by
  unfold markKind at h
  split at h <;> simp_all <;> (obtain ⟨rfl, rfl⟩ := h; simp)

/-- A lexeme is a piece of the text's front. -/
theorem front_token_isPrefix {cs lexeme : List Char} {kind : Kind}
    (h : front cs = .token kind lexeme) : lexeme <+: cs := by
  cases cs with
  | nil => simp only [front, Front.token.injEq] at h; simp [← h.2]
  | cons c rest =>
    simp only [front] at h
    -- The cases of `front` in its order: number, word, string, mark.
    split at h
    · exact numberFront_isPrefix h
    · split at h
      · cases h; exact List.takeWhile_prefix _
      · split at h
        · unfold stringFront at h
          split at h
          · next taken ht => cases h; simpa using closeString_isPrefix ht
          · cases h
        · unfold markFront at h
          split at h
          · cases h; exact List.take_prefix _ _
          · cases h

/-- Only the end of the text has an empty lexeme. -/
theorem front_token_ne_nil {cs lexeme : List Char} {kind : Kind}
    (h : front cs = .token kind lexeme) (hk : kind ≠ .endOfInput) : lexeme ≠ [] := by
  cases cs with
  | nil => simp only [front, Front.token.injEq] at h; exact absurd h.1.symm hk
  | cons c rest =>
    simp only [front] at h
    -- One case for each thing a front can be, in the order in which `front` asks: number, word,
    -- string, mark.
    split at h
    · next hd =>
      unfold numberFront at h
      split at h
      · cases h; simp
      · next hno =>
        cases h
        -- without a digit in front there is a point, which the number keeps
        by_cases hc : c.isDigit = true
        · simp [hc]
        · simp [hc] at hno
          simp_all
    · split at h
      · next hw =>
        cases h
        have : isWordChar c = true := by
          simp only [isWordStart, isWordChar, Char.isAlphanum, Bool.or_eq_true] at hw ⊢
          rcases hw with hw | hw <;> simp [hw]
        simp [this]
      · split at h
        · unfold stringFront at h
          split at h
          · cases h; simp
          · cases h
        · unfold markFront at h
          -- every mark takes up one character or two
          split at h
          · next kind' n hm =>
            cases h
            obtain ⟨_, hn⟩ := markKind_ne_endOfInput hm
            cases n with
            | zero => omega
            | succ n => simp
          · cases h

end Token

/-- The rest of a text and the place where it starts. -/
structure Cursor where
  rest : List Char
  position : Position
deriving DecidableEq

namespace Cursor

/-- The whole of a text. -/
def ofString (text : String) : Cursor := ⟨text.toList, .start⟩

/-- The cursor after the first `n` characters. -/
def drop (s : Cursor) (n : Nat) : Cursor :=
  ⟨s.rest.drop n, s.position.advanceBy (s.rest.take n)⟩

/-- The cursor after the blanks at the front. -/
def skipBlank (s : Cursor) : Cursor :=
  ⟨s.rest.dropWhile Text.isBlank, s.position.advanceBy (s.rest.takeWhile Text.isBlank)⟩

/-- The next token or fault, and the cursor after it. A fault uses up what `Token.front` says, so
that taking can go on after it; at the end of the text the end is given again. -/
def next (s : Cursor) : Except LexError Token × Cursor :=
  let s := s.skipBlank
  match Token.front s.rest with
  | .token kind lexeme => (.ok ⟨kind, String.ofList lexeme, s.position⟩, s.drop lexeme.length)
  | .fault fault consumed => (.error ⟨fault, s.position⟩, s.drop consumed.length)

/-- Skipping makes a text no longer. -/
theorem length_dropWhile_le {α : Type} (p : α → Bool) (l : List α) :
    (l.dropWhile p).length ≤ l.length :=
  (List.dropWhile_suffix p).length_le

/-- Every token but the end shortens the rest. -/
theorem next_rest_lt {s s' : Cursor} {t : Token} (h : s.next = (.ok t, s'))
    (hk : t.kind ≠ .endOfInput) : s'.rest.length < s.rest.length := by
  unfold next at h
  simp only at h
  split at h
  · next kind lexeme hf =>
    cases h
    have hne := Token.front_token_ne_nil hf hk
    have hle := (Token.front_token_isPrefix hf).length_le
    have hsk : s.skipBlank.rest.length ≤ s.rest.length := length_dropWhile_le _ _
    have hpos : 0 < lexeme.length := List.length_pos_iff.2 hne
    simp only [drop, List.length_drop]
    omega
  · simp at h

end Cursor

/-- The tokens of a text. Nothing comes after its end or after its first fault. -/
inductive Token.Stream where
  /-- What stands here is no token. -/
  | fault (e : LexError)
  /-- The text ends here. -/
  | finish (position : Position)
  /-- A token, and what comes after it. -/
  | next (token : Token) (rest : Stream)
deriving DecidableEq

namespace Token.Stream

/-- The tokens up to the first fault or up to the end, which counts as one. -/
def tokens : Stream → List Token
  | fault _ => []
  | finish position => [.endOfInput position]
  | next token rest => token :: rest.tokens

/-- The first fault. -/
def fault? : Stream → Option LexError
  | fault e => some e
  | finish _ => none
  | next _ rest => rest.fault?

/-- How many tokens there are besides the end. -/
def length : Stream → Nat
  | fault _ => 0
  | finish _ => 0
  | next _ rest => rest.length + 1

end Token.Stream

/-- The tokens from a cursor on. -/
def Cursor.stream (s : Cursor) : Token.Stream :=
  match h : s.next with
  | (.error e, _) => .fault e
  | (.ok t, s') =>
    if hk : t.kind = .endOfInput then .finish t.position
    else
      have := next_rest_lt h hk
      .next t s'.stream
termination_by s.rest.length

/-- The tokens of a text. -/
def Token.stream (text : String) : Token.Stream := (Cursor.ofString text).stream

end MetadataFilter
