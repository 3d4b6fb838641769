import MetadataFilter.Proofs.Grammar.Expected
import MetadataFilter.Proofs.Token.Positions

/-!
# Errors point into the text and quote it

Every error about a text that is not blank has a place in the text: that of a token, of the end or
of the first fault. What the error says besides is what stands there: it quotes the token, and a
number with its sign, or it names a limit at a token that makes a filter deeper or larger.

## Key results

- `State.Next.negative_iff`: the sign that counts for a number is the token in front of it
- `quotes_of_refusal`: errors about a token quote it
- `errors_quote_text`: every error with a place
-/

namespace MetadataFilter

open Expr.Parser Feed Grammar

/-! ### Numbers and their signs -/

/-- The whole number that a token stands for with its sign. -/
def Grammar.wholeValue (negative : Bool) (t : Token) : Int :=
  if negative then -(Text.ofDigits t.lexeme.toList : Int) else Text.ofDigits t.lexeme.toList

/-- With its sign, a number is none of 64 bits, or no finite double if it has a point. -/
inductive Grammar.OutOfRange (negative : Bool) (t : Token) : Prop
  | integer (kind : t.kind = .integer)
      (range : wholeValue negative t < Int64.minValue.toInt ∨
        Int64.maxValue.toInt < wholeValue negative t)
  | decimal (kind : t.kind = .decimal) (infinite : (decimalValue negative t).isFinite = false)

/-- A number that is refused for its range lies outside the bounds of its kind. -/
theorem Grammar.outOfRange_of_inRange {negative : Bool} {t : Token}
    (hk : t.kind = .integer ∨ t.kind = .decimal) (h : inRange negative t = false) :
    OutOfRange negative t := by
  have hno : ∀ v, ¬Number negative t v := by
    intro v hv
    rw [(inRange_iff hk).2 ⟨v, hv⟩] at h
    cases h
  rcases hk with hk | hk
  · refine .integer hk ?_
    -- a number within the bounds would be the one of 64 bits with this value
    by_contra hbounds
    rw [not_or, Int.not_lt, Int.not_lt, Int64.toInt_minValue, Int64.toInt_maxValue] at hbounds
    refine hno _ (.integer (n := Int64.ofInt (wholeValue negative t)) hk ?_)
    rw [Int64.toInt_ofInt_of_le (by omega) (by omega)]
    rfl
  · refine .decimal hk ?_
    rw [Bool.eq_false_iff]
    exact fun hfinite => hno _ (.decimal hk hfinite)

namespace Grammar.State

/-- Behind a token where a number can stand, the number is negative exactly if the token is a
minus. -/
theorem Next.negative_iff {s s' : State} {kind : Token.Kind} {negative : Bool} (h : Next s kind s')
    (hsign : s'.spot.negative? = some negative) : negative = true ↔ kind = .minus := by
  cases h with
  | comparison _ op => cases op <;> cases hsign <;> simp [compareKind]
  | leftBracket | comma | minus | plus => cases hsign; simp
  | _ => cases hsign

/-- The sign that counts for a number is the token in front of it. -/
theorem negative_iff {s : State} {ts : List Token} {negative : Bool}
    (h : start.run? ts = some s) (hsign : s.spot.negative? = some negative) :
    negative = true ↔ ∃ t ∈ ts.getLast?, t.kind = .minus := by
  rcases exists_next_of_run? h with ⟨rfl, rfl⟩ | ⟨us, t, s', rfl, -, hnext⟩
  · cases hsign
  · simpa using hnext.negative_iff hsign

end Grammar.State

/-! ### What errors quote -/

/-- `Quotes ts refused e`: behind the tokens `ts`, the error `e` says what stands there. -/
inductive FilterError.Quotes (ts : List Token) : Token.Stream → FilterError → Prop
  /-- A piece of the text that is no token. -/
  | fault (e : LexError) : Quotes ts (.fault e) (.lex e)
  /-- A token that does not fit is quoted. -/
  | token {t : Token} {rest : Token.Stream} {e : ParseError}
      (reason_ne : e.reason ≠ .numberOutOfRange) (found_eq : e.found = t.lexeme) :
      Quotes ts (.next t rest) (.parse e)
  /-- The end of the text, which does not fit. -/
  | finish {p : Position} {e : ParseError} (reason_ne : e.reason ≠ .numberOutOfRange)
      (found_eq : e.found = "<EOF>") : Quotes ts (.finish p) (.parse e)
  /-- A number is quoted, with a minus in front if there is one in front of it. -/
  | number {t : Token} {rest : Token.Stream} {e : ParseError} {negative : Bool}
      (reason_eq : e.reason = .numberOutOfRange)
      (found_eq : e.found = if negative then "-" ++ t.lexeme else t.lexeme)
      (negative_iff : negative = true ↔ ∃ sign ∈ ts.getLast?, sign.kind = .minus)
      (range : OutOfRange negative t) : Quotes ts (.next t rest) (.parse e)
  /-- A limit is passed at a token that makes the filter deeper or larger. -/
  | tooDeep {t : Token} {rest : Token.Stream}
      (kind : t.kind = .leftParen ∨ t.kind = .andWord ∨ t.kind = .orWord) :
      Quotes ts (.next t rest) (.tooDeep t.position)
  | tooLarge {t : Token} {rest : Token.Stream}
      (kind : t.kind = .leftParen ∨ t.kind = .andWord ∨ t.kind = .orWord) :
      Quotes ts (.next t rest) (.tooLarge t.position)

/-- Errors about a token quote it. -/
theorem quotes_of_refusal {s : State} {ts : List Token} {rest : Feed} {e : ParseError}
    (hrun : State.start.run? ts = some s) (h : Refusal s rest.current e)
    (hkind : ∀ t ∈ rest.stream.taken, t.kind ≠ .endOfInput) :
    FilterError.Quotes ts rest.stream (.parse e) := by
  -- what is found is the text of the token, unless it is a number
  have text : e.reason ≠ .numberOutOfRange → e.found = rest.current.text →
      FilterError.Quotes ts rest.stream (.parse e) := by
    intro hreason hfound
    cases rest with
    | done position => exact .finish hreason hfound
    | more t after =>
      exact .token hreason (hfound.trans (if_neg (hkind t List.mem_cons_self)))
  -- Only a number out of range is quoted with its sign; the other errors have the text of the
  -- token.
  cases h with
  | noViableAlternative | mismatchedInput | emptyKey => exact text (fun h => nomatch h) rfl
  | numberOutOfRange sign kind range =>
    cases rest with
    | done position => rcases kind with kind | kind <;> cases kind
    | more t after =>
      exact .number rfl rfl (State.negative_iff hrun sign) (outOfRange_of_inRange kind range)

/-- An error about a limit quotes no more than its place. -/
theorem quotes_of_limit {ts : List Token} {rest : Feed} {e : FilterError}
    (h : LimitError rest.current e) : e.Quotes ts rest.stream := by
  cases rest with
  | done position => rcases h.kind with kind | kind | kind <;> cases kind
  | more t after =>
    rcases h.names with rfl | rfl
    · exact .tooDeep h.kind
    · exact .tooLarge h.kind

/-- Every error with a place quotes what comes after some tokens of the text. -/
theorem exists_quotes {text : String} {e : FilterError} (h : Expr.parse text = .error e)
    (hne : e ≠ .emptyExpression) :
    ∃ ts refused, Token.stream (normalize text) = ts.foldr .next refused ∧
      e.position? = some refused.position ∧ e.Quotes ts refused := by
  obtain ⟨feed, hstream, hstuck⟩ := exists_stuck h hne
  -- A fault is reported as it is; in the other cases the tokens are split where the error is.
  cases hstuck with
  | fault first =>
    rw [← hstream] at first
    obtain ⟨ts, hts⟩ := Token.Stream.exists_of_fault? first
    exact ⟨ts, _, hts, rfl, .fault _⟩
  | @refused ts rest s e split run refusal =>
    have hfront : Token.stream (normalize text) = ts.foldr .next rest.stream := by
      rw [hstream, split, stream_prepend]
    -- the end is reported for itself and is no token in front of another one
    have hkind : ∀ t ∈ rest.stream.taken, t.kind ≠ .endOfInput := by
      intro t ht
      refine Cursor.kind_ne_endOfInput_of_mem_taken (Cursor.ofString (normalize text)) t ?_
      rw [← Token.stream, hstream, split, taken_prepend]
      exact List.mem_append_right ts ht
    have hposition : e.position = rest.stream.position := by
      rw [position_stream]
      cases refusal <;> rfl
    exact ⟨ts, _, hfront, congrArg some hposition, quotes_of_refusal run refusal hkind⟩
  -- a limit is reported where the reader stands
  | @limit ts rest e split limit =>
    refine ⟨ts, rest.stream, ?_, ?_, quotes_of_limit limit⟩
    · rw [hstream, split, stream_prepend]
    · rw [position_stream]
      rcases limit.names with rfl | rfl <;> rfl
  | passed mem => cases mem

/-! ### Where errors point -/

/-- No token is spelled like the end of a text: the angle is a token of its own. -/
theorem lexeme_ne_of_mem_taken (s : Cursor) : ∀ t ∈ s.stream.taken, t.lexeme ≠ "<EOF>" := by
  refine s.forall_mem_taken fun cs kind lexeme position hfront _ heq => ?_
  obtain ⟨rest, rfl⟩ := Token.front_token_isPrefix hfront
  have hlexeme : String.ofList lexeme = "<EOF>" := heq
  obtain rfl : lexeme = "<EOF>".toList := by rw [← hlexeme, String.toList_ofList]
  cases hfront

/-- The end is quoted exactly if there is no token. -/
theorem FilterError.Quotes.found_eq_iff {ts : List Token} {refused : Token.Stream} {e : ParseError}
    (h : (FilterError.parse e).Quotes ts refused) (hreason : e.reason ≠ .numberOutOfRange)
    (hlexeme : ∀ t rest, refused = .next t rest → t.lexeme ≠ "<EOF>") :
    e.found = "<EOF>" ↔ ∃ p, refused = .finish p := by
  cases h with
  | @token t rest _ _ found_eq =>
    rw [found_eq]
    simpa using hlexeme t rest rfl
  | finish _ found_eq => simp [found_eq]
  | number reason_eq => exact absurd reason_eq hreason

/-- The error `e` points into the text: behind the tokens `ts`, at a token, at the end of the text
or at a fault. It quotes what stands there. -/
structure FilterError.PointsInto (e : FilterError) (text : String) (ts : List Token)
    (refused : Token.Stream) : Prop where
  stream_eq : Token.stream text = ts.foldr .next refused
  position_eq : e.position? = some refused.position
  position_true : refused.position.TrueTo text
  at_end_iff : refused.position.offset = text.utf8ByteSize ↔ ∃ p, refused = .finish p
  /-- A token stands in the text at its offset. -/
  lexeme : ∀ t rest, refused = .next t rest →
    String.Pos.Raw.extract text ⟨t.position.offset⟩
      ⟨t.position.offset + t.lexeme.utf8ByteSize⟩ = t.lexeme
  quotes : e.Quotes ts refused
  /-- The end is quoted exactly if the error is there. -/
  eof_iff : ∀ d, e = .parse d → d.reason ≠ .numberOutOfRange →
    (d.found = "<EOF>" ↔ refused.position.offset = text.utf8ByteSize)

/-- The offset in front of what is refused is the length of the text exactly if the text ends
there. -/
theorem offset_eq_iff {text : String} {front rest : List Char} {refused : Token.Stream}
    (htext : text.toList = front ++ rest) (hheads : refused.Heads rest) :
    (Position.start.advanceBy front).offset = text.utf8ByteSize ↔ ∃ p, refused = .finish p := by
  have hsize : text.utf8ByteSize =
      (Position.start.advanceBy front).offset + (String.ofList rest).utf8ByteSize := by
    rw [Position.offset_start_advanceBy, ← String.utf8ByteSize_append, ← String.ofList_append,
      ← htext, String.ofList_toList]
  have hrest : (Position.start.advanceBy front).offset = text.utf8ByteSize ↔ rest = [] := by
    rw [hsize, Nat.left_eq_add, String.utf8ByteSize_eq_zero_iff]
    -- Nothing is left behind the offset exactly if what is refused has no characters.
    simp
  rw [hrest]
  cases refused with
  | fault e =>
    obtain ⟨c, cs, rfl, -⟩ := hheads
    simp
  | finish p => exact ⟨fun _ => ⟨p, rfl⟩, fun _ => hheads⟩
  | next t after =>
    obtain ⟨hlexeme, hprefix⟩ := hheads
    have hrest : rest ≠ [] := by
      rintro rfl
      exact hlexeme (List.prefix_nil.1 hprefix)
    simp [hrest]

/-- Every error about a text that is not blank points into the text, behind the tokens before it,
and quotes what stands there: the token that does not fit or the end of the text, a number out of
range with its sign, or a token that makes the filter deeper or larger. -/
theorem errors_quote_text {text : String} {e : FilterError} (h : Expr.parse text = .error e)
    (hne : e ≠ .emptyExpression) :
    ∃ ts refused, e.PointsInto (normalize text) ts refused := by
  obtain ⟨ts, refused, hstream, hposition, hquotes⟩ := exists_quotes h hne
  obtain ⟨front, rest, htext, hplace, hheads, -⟩ := Cursor.exists_place hstream
  have hplace : refused.position = Position.start.advanceBy front := hplace
  have htext : (normalize text).toList = front ++ rest := htext
  have hend : refused.position.offset = (normalize text).utf8ByteSize ↔
      ∃ p, refused = .finish p := by
    rw [hplace]
    exact offset_eq_iff htext hheads
  -- Position, offset, text of the token, quotation and the name of the end, in the order of the
  -- fields.
  refine ⟨ts, refused, hstream, hposition, ?_, hend, ?_, hquotes, ?_⟩
  · rw [hplace]
    exact Position.trueTo_advanceBy htext
  · rintro t after rfl
    obtain ⟨-, ⟨tail, rfl⟩⟩ := hheads
    have hplace : t.position = Position.start.advanceBy front := hplace
    have hpiece := Position.extract_eq htext
    rwa [String.ofList_toList, ← hplace] at hpiece
  · rintro d rfl hreason
    rw [hend]
    refine hquotes.found_eq_iff hreason ?_
    rintro t after rfl
    refine lexeme_ne_of_mem_taken (Cursor.ofString (normalize text)) t ?_
    rw [← Token.stream, hstream]
    exact Token.Stream.mem_taken_foldr ts t after

/-- A number that its sign takes out of range is quoted with the sign, and its place is behind
it. -/
theorem errors_quote_negative_number :
    ∃ ts refused, (FilterError.parse
      ⟨.numberOutOfRange, ⟨12, 1, 12⟩, "-9223372036854775809", []⟩).PointsInto
        (normalize "x == -9223372036854775809") ts refused :=
  errors_quote_text (by decide +kernel) (by simp)

end MetadataFilter
