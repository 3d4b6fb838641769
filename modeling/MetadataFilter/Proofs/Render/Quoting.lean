import MetadataFilter.Proofs.Render.RoundTrip
import MetadataFilter.Proofs.Token.StringRun

/-!
# Strings of the filter language, written and read

Three functions agree on which backslash escapes which character: `Text.escape` writes backslashes,
`Token.closeString` passes over what they protect, and `Text.unescape` resolves them. What has been
written between delimiters is one token in front of anything and stands for the text that was meant.
Conversely no string token makes `unquote` run out of characters, in front of a missing delimiter or
behind a last backslash.

## Key results

- `unescape_eq_steps`, `unquote_eq_unquoting`: reading a string, step by step
- `trailing_notMem_steps`: no backslash is left over between two delimiters
- `next_quoted`: a written string is the first token, in front of anything
- `exists_readIn_of_front`: every string token is read in regular steps
- `strings_written_and_read`: both directions
-/

namespace MetadataFilter

/-! ### Steps of reading -/

namespace Text

/-- What is done with one character between delimiters, or with two. -/
inductive UnescapeStep where
  /-- A character that is no backslash stays. -/
  | plain (c : Char)
  /-- The backslash in front of a backslash or of the delimiter goes. -/
  | escaped (c : Char)
  /-- A backslash in front of any other character stays with it. -/
  | kept (c : Char)
  /-- A backslash with nothing behind it stays. -/
  | trailing
deriving DecidableEq

/-- What a step gives. -/
def UnescapeStep.text : UnescapeStep → List Char
  | plain c => [c]
  | escaped c => [c]
  | kept c => ['\\', c]
  | trailing => ['\\']

/-- The steps that `unescape` takes. -/
def unescapeSteps (delimiter : Char) : List Char → List UnescapeStep
  | [] => []
  | ['\\'] => [.trailing]
  | '\\' :: c :: cs =>
    (if c = '\\' ∨ c = delimiter then .escaped c else .kept c) :: unescapeSteps delimiter cs
  | c :: cs => .plain c :: unescapeSteps delimiter cs

/-- Backslashes are resolved step by step. -/
theorem unescape_eq_steps (delimiter : Char) (cs : List Char) :
    unescape delimiter cs = (unescapeSteps delimiter cs).flatMap UnescapeStep.text := by
  fun_induction unescapeSteps delimiter cs with
  | case1 => rfl
  | case2 => rfl
  -- a backslash takes the next character with it
  | case3 c cs ih =>
    rw [unescape, ih]
    split <;> rfl
  | case4 c cs hlast hslash ih =>
    rw [unescape, ih]
    · rfl
    · exact hslash

/-- How `unquote` goes about a text. -/
inductive Unquoting where
  /-- There is no delimiter. -/
  | nothing
  /-- There is no room for two delimiters. -/
  | tooShort
  /-- What stands between the delimiters is read in steps. -/
  | between (steps : List UnescapeStep)
deriving DecidableEq

/-- What comes out of it. -/
def Unquoting.text : Unquoting → List Char
  | nothing => []
  | tooShort => []
  | between steps => steps.flatMap UnescapeStep.text

/-- How `unquote` goes about a text. The room is counted in bytes. -/
def unquoting (s : String) : Unquoting :=
  match s.toList with
  | [] => .nothing
  | delimiter :: cs =>
    if s.utf8ByteSize < 2 * delimiter.utf8Size then .tooShort
    else .between (unescapeSteps delimiter cs.dropLast)

/-- A text has the bytes of its first character and those of the rest. -/
theorem utf8ByteSize_eq_of_toList {s : String} {c : Char} {cs : List Char}
    (h : s.toList = c :: cs) :
    s.utf8ByteSize = c.utf8Size + (String.ofList cs).utf8ByteSize := by
  rw [← s.ofList_toList, h]
  simp

/-- On what starts with a delimiter, `unquote` goes about as described. -/
theorem unquote_eq_unquoting {s : String}
    (h : ∀ c ∈ s.toList.head?, Token.isDelimiter c = true) :
    unquote s.toList = (unquoting s).text := by
  unfold unquoting
  cases htext : s.toList with
  | nil => rfl
  | cons delimiter cs =>
    have hsize := utf8ByteSize_eq_of_toList htext
    have hdelimiter : delimiter.utf8Size = 1 := by
      rcases Token.eq_of_isDelimiter (h delimiter (by simp [htext])) with rfl | rfl <;> rfl
    simp only
    split
    -- both delimiters have one byte, so nothing stands behind the first one
    · next hshort =>
      have hzero : (String.ofList cs).utf8ByteSize = 0 := by omega
      have hempty : cs = [] := by simpa using hzero
      rw [hempty]
      rfl
    -- there is room for a second delimiter, and the last character is left out
    · rw [unquote, unescape_eq_steps]
      rfl

end Text

open Text

/-! ### Strings as tokens -/

/-- No backslash is left over between two delimiters. -/
theorem Token.trailing_notMem_steps {delimiter : Char} {body : List Char}
    (h : StringBody delimiter body) : .trailing ∉ unescapeSteps delimiter body := by
  induction h with
  | nil => exact List.not_mem_nil
  | @plain c cs not_delimiter not_slash not_break rest ih =>
    rw [unescapeSteps]
    · simpa using ih
    · exact fun h => absurd h not_slash
    -- a character of its own is a plain step
    · exact fun _ _ h => absurd h not_slash
  | @escaped c cs not_break rest ih =>
    rw [unescapeSteps, List.mem_cons, not_or]
    -- the escaped character is there, so the step is not the one for a backslash at the end
    refine ⟨?_, ih⟩
    split <;> simp

/-- What is found as a string is one. -/
theorem Token.exists_stringLiteral {cs lexeme : List Char}
    (h : front cs = .token .quotedString lexeme) : ∃ l : StringLiteral, lexeme = l.text := by
  obtain ⟨c, rest, rfl⟩ := exists_cons_of_front h (by simp)
  cases matches_of_front h with
  | reserved mem => exact absurd (by decide) (notMem_unlistedKinds_of_reserved mem)
  | quoted delimiter_mem inner => exact ⟨⟨_, _, delimiter_mem, inner⟩, rfl⟩
  | mark mem => exact absurd (by decide) (notMem_unlistedKinds_of_mark mem)

/-- The token is a string between delimiters that `unquote` reads in the given steps, and no
backslash is left over. What comes out has no line break, and stays the same when it is written and
read once more. -/
structure Token.ReadIn (t : Token) (delimiter : Char) (steps : List UnescapeStep) : Prop where
  isDelimiter : Token.isDelimiter delimiter = true
  head?_eq : t.lexeme.toList.head? = some delimiter
  unquoting_eq : unquoting t.lexeme = .between steps
  trailing_notMem : .trailing ∉ steps
  unquote_eq : unquote t.lexeme.toList = steps.flatMap UnescapeStep.text
  isLineBreak : ∀ c ∈ unquote t.lexeme.toList, Token.isLineBreak c = false
  unquote_quoted : ∃ literal,
    FilterText.quoted delimiter (String.ofList (unquote t.lexeme.toList)) = .ok literal ∧
      unquote literal.toList = unquote t.lexeme.toList

namespace StringLiteral

/-- The text of a string is its body between two delimiters. -/
theorem toList_token (l : StringLiteral) (p : Position) :
    (l.token p).lexeme.toList = l.delimiter :: (l.body ++ [l.delimiter]) := by
  rw [token, String.toList_ofList, text]

/-- A string is taken in front of anything. -/
theorem next_eq (l : StringLiteral) (rest : List Char) (p : Position) :
    (⟨l.text ++ rest, p⟩ : Cursor).next = (.ok (l.token p), ⟨rest, p.advanceBy l.text⟩) := by
  have hstart : Ends isBlank (l.text ++ rest) := by
    refine Ends.cons ?_ _
    rcases Token.eq_of_isDelimiter l.isDelimiter with h | h <;> rw [h] <;> decide
  have hfront : Token.front (l.text ++ rest) = .token .quotedString l.text :=
    Token.front_string l.isDelimiter l.inner rest
  unfold Cursor.next
  rw [Cursor.skipBlank_of_ends hstart]
  simp only [hfront, Cursor.drop, List.drop_left, List.take_left]
  rfl

/-- There is room for both delimiters, so a string is read in steps. -/
theorem unquoting_token (l : StringLiteral) (p : Position) :
    unquoting (l.token p).lexeme = .between (unescapeSteps l.delimiter l.body) := by
  have htext := l.toList_token p
  have hsize := utf8ByteSize_eq_of_toList htext
  have hlast : (String.ofList (l.body ++ [l.delimiter])).utf8ByteSize =
      (String.ofList l.body).utf8ByteSize + l.delimiter.utf8Size := by
    simp
  unfold unquoting
  rw [htext]
  simp only
  rw [if_neg (by omega), List.dropLast_concat]

/-- Every string is read in the steps of its body. -/
theorem readIn (l : StringLiteral) (p : Position) :
    (l.token p).ReadIn l.delimiter (unescapeSteps l.delimiter l.body) := by
  have htext := l.toList_token p
  have hhead : (l.token p).lexeme.toList.head? = some l.delimiter := by rw [htext]; rfl
  have hunquote : unquote (l.token p).lexeme.toList = unescape l.delimiter l.body :=
    (congrArg unquote htext).trans l.unquote_text
  -- what stands between the delimiters has no line break, and nothing is added to it
  have hbreak : ∀ c ∈ unquote (l.token p).lexeme.toList, Token.isLineBreak c = false := by
    intro c hc
    rw [hunquote] at hc
    exact Token.isLineBreak_of_body l.inner c (mem_of_mem_unescape hc)
  have hdelimiter : ∀ c ∈ (l.token p).lexeme.toList.head?, Token.isDelimiter c = true := by
    rw [hhead]
    rintro c ⟨⟩
    exact l.isDelimiter
  refine ⟨l.isDelimiter, hhead, l.unquoting_token p, Token.trailing_notMem_steps l.inner, ?_,
    hbreak, _, FilterText.quoted_of_isLineBreak _ (by simpa using hbreak), ?_⟩
  -- written again, the value is read the same way
  · rw [unquote_eq_unquoting hdelimiter, l.unquoting_token p, Unquoting.text]
  · rw [String.toList_ofList, String.toList_ofList, unquote_quote]

end StringLiteral

/-- What is written for a text is the first token of every text that starts with it. -/
theorem Cursor.next_quoted {delimiter : Char} (hd : Token.isDelimiter delimiter = true) {v : String}
    (hv : ∀ c ∈ v.toList, Token.isLineBreak c = false) (rest : String) :
    (ofString (String.ofList (quote delimiter v.toList) ++ rest)).next =
      (.ok ⟨.quotedString, String.ofList (quote delimiter v.toList), .start⟩,
        ⟨rest.toList, Position.start.advanceBy (quote delimiter v.toList)⟩) := by
  let l : StringLiteral :=
    ⟨delimiter, escape delimiter v.toList, hd, Token.stringBody_escape delimiter hv⟩
  rw [ofString, String.toList_append, String.toList_ofList]
  exact l.next_eq rest.toList .start

/-- Every string that is found is read in regular steps. -/
theorem Token.exists_readIn_of_front {cs lexeme : List Char}
    (h : front cs = .token .quotedString lexeme) (p : Position) :
    ∃ delimiter steps,
      (⟨.quotedString, String.ofList lexeme, p⟩ : Token).ReadIn delimiter steps := by
  obtain ⟨l, rfl⟩ := exists_stringLiteral h
  exact ⟨_, _, l.readIn p⟩

/-- A string that is found anywhere in a text is read in regular steps. -/
theorem Cursor.exists_readIn {s : Cursor} {t : Token} (h : s.next.1 = .ok t)
    (hk : t.kind = .quotedString) : ∃ delimiter steps, t.ReadIn delimiter steps := by
  unfold Cursor.next at h
  cases hfront : Token.front s.skipBlank.rest with
  | fault => simp [hfront] at h
  | token kind lexeme =>
    simp only [hfront, Except.ok.injEq] at h
    subst h
    obtain rfl : kind = .quotedString := hk
    exact Token.exists_readIn_of_front hfront _

/-- A string among the tokens of a text is read in regular steps. -/
theorem Token.exists_readIn_of_mem {text : String} {t : Token} (h : t ∈ (stream text).tokens)
    (hk : t.kind = .quotedString) : ∃ delimiter steps, t.ReadIn delimiter steps := by
  rcases Stream.mem_taken_or_kind _ t h with ht | hend
  · refine Cursor.forall_mem_taken
      (P := fun t => t.kind = .quotedString → ∃ delimiter steps, t.ReadIn delimiter steps)
      ?_ _ t ht hk
    rintro cs kind lexeme position hfront - rfl
    exact exists_readIn_of_front hfront position
  · rw [hend] at hk
    cases hk

/-- A text without line breaks can be written between any delimiters. What is written is the first
token of every text that starts with it, whatever follows, and is read as the text. Conversely every
string that a text has among its tokens, or that a cursor takes anywhere, is read in regular steps,
and what it is read as can be written and read again. -/
theorem strings_written_and_read :
    (∀ delimiter, Token.isDelimiter delimiter = true → ∀ v : String,
      (∀ c ∈ v.toList, Token.isLineBreak c = false) → ∀ rest : String,
        ∃ literal, FilterText.quoted delimiter v = .ok literal ∧
          literal.toList = delimiter :: (escape delimiter v.toList ++ [delimiter]) ∧
          (Cursor.ofString (literal ++ rest)).next =
            (.ok ⟨.quotedString, literal, .start⟩,
              ⟨rest.toList, Position.start.advanceBy literal.toList⟩) ∧
          unquote literal.toList = v.toList) ∧
    ∀ t : Token, t.kind = .quotedString →
      ((∃ text, t ∈ (Token.stream text).tokens) ∨ ∃ s : Cursor, s.next.1 = .ok t) →
        ∃ delimiter steps, t.ReadIn delimiter steps := by
  constructor
  · intro delimiter hd v hv rest
    have hliteral : (String.ofList (quote delimiter v.toList)).toList = quote delimiter v.toList :=
      String.toList_ofList
    refine ⟨_, FilterText.quoted_of_isLineBreak delimiter hv, hliteral, ?_, ?_⟩
    · rw [hliteral]
      exact Cursor.next_quoted hd hv rest
    · rw [hliteral, unquote_quote]
  · rintro t hk (⟨text, ht⟩ | ⟨s, hs⟩)
    · exact Token.exists_readIn_of_mem ht hk
    · exact s.exists_readIn hs hk

/-- A text that ends with a backslash, in front of another string; and a string with backslashes of
both kinds behind a fault. -/
theorem strings_written_and_read_with_slashes :
    (∃ literal, FilterText.quoted '\'' "it's \\" = .ok literal ∧
      literal.toList = '\'' :: (escape '\'' "it's \\".toList ++ ['\'']) ∧
      (Cursor.ofString (literal ++ "'x'")).next =
        (.ok ⟨.quotedString, literal, .start⟩,
          ⟨['\'', 'x', '\''], Position.start.advanceBy literal.toList⟩) ∧
      unquote literal.toList = "it's \\".toList) ∧
    (Cursor.ofString "= \x22\\d\\\x22\x22").next.2.next.1 =
      .ok ⟨.quotedString, "\x22\\d\\\x22\x22", ⟨2, 1, 2⟩⟩ ∧
    ∃ delimiter steps,
      (⟨.quotedString, "\x22\\d\\\x22\x22", ⟨2, 1, 2⟩⟩ : Token).ReadIn delimiter steps := by
  have hbreak : ∀ c ∈ "it's \\".toList, Token.isLineBreak c = false := by
    simp [Token.isLineBreak]
  have htoken : (Cursor.ofString "= \x22\\d\\\x22\x22").next.2.next.1 =
      .ok ⟨.quotedString, "\x22\\d\\\x22\x22", ⟨2, 1, 2⟩⟩ := by
    rfl
  exact ⟨strings_written_and_read.1 '\'' (by decide) "it's \\" hbreak "'x'", htoken,
    strings_written_and_read.2 _ rfl (.inr ⟨_, htoken⟩)⟩

end MetadataFilter
