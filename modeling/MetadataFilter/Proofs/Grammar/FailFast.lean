import MetadataFilter.Proofs.Grammar.Lookahead
import MetadataFilter.Proofs.Grammar.Parse
import MetadataFilter.Proofs.Token.Normalize
import MetadataFilter.Proofs.Token.Places

/-!
# The first token that does not fit is reported

A text is refused at a token, and what comes after the token can be replaced without changing the
error. Only two errors are found after one more token has been looked for, so that they give way to
a fault right after their token.

## Key results

- `filter_of_parse_error`, `exists_place_of_parse_error`: errors are found in the tokens
- `parse_replace_after_error`: what comes after the token of an error does not change the error
-/

namespace MetadataFilter

open Text Expr.Parser Expr.Parser.Feed

/-- A text that is not blank is read from its tokens. -/
theorem parse_eq_filter {text : String} {feed : Feed} (hblank : text.toList.all isBlank = false)
    (h : Token.stream (normalize text) = feed.stream) :
    Expr.parse text = (filter .standard feed).map fun r => r.1.expr := by
  unfold Expr.parse
  rw [parseWithin_eq hblank, h, ofStream_stream]
  rfl

/-- Every error but the one about blank texts is found in the tokens, which start with the word
WHERE. -/
theorem filter_of_parse_error {text : String} {e : FilterError} (h : Expr.parse text = .error e)
    (hne : e ≠ .emptyExpression) :
    ∃ (opening : Token) (after : Token.Stream),
      Token.stream (normalize text) = .next opening after ∧ opening.kind = .whereWord ∧
        filter .standard (.more opening after) = .error e := by
  -- a blank text would have been reported as such
  have hblank : text.toList.all isBlank = false := by
    rw [Bool.eq_false_iff]
    intro hblank
    unfold Expr.parse Expr.parseWithin at h
    simp only [hblank, if_true] at h
    cases h
    exact hne rfl
  obtain ⟨opening, after, hstream, hopen⟩ := exists_stream_normalize text
  refine ⟨opening, after, hstream, hopen, ?_⟩
  have hparse : Expr.parse text = (filter .standard (.more opening after)).map _ :=
    parse_eq_filter hblank hstream
  rw [h] at hparse
  -- the reader has gone wrong as well, for the same reason
  cases hresult : filter .standard (.more opening after) with
  | error e' => rw [hresult] at hparse; cases hparse; rfl
  | ok r => rw [hresult] at hparse; cases hparse

/-- What is left has the place of its first token. -/
theorem position_stream (feed : Feed) : feed.stream.position = feed.current.position := by
  cases feed <;> rfl

/-- Every error but the one about blank texts has the place of a token, of the end or of the first
fault. -/
theorem exists_place_of_parse_error {text : String} {e : FilterError}
    (h : Expr.parse text = .error e) (hne : e ≠ .emptyExpression) :
    ∃ (ts : List Token) (after : Token.Stream),
      Token.stream (normalize text) = ts.foldr .next after ∧
        e.position? = some after.position := by
  obtain ⟨opening, after, hstream, -, hfilter⟩ := filter_of_parse_error h hne
  have hstream : Token.stream (normalize text) = (Feed.more opening after).stream := hstream
  -- The reader looks at a feed token by token, so its failures have the four forms of `Failure`.
  have hfailure : Failure [] (filter .standard) (.more opening after) e :=
    filter_local.error hfilter
  cases hfailure with
  | fault first =>
    rw [← hstream] at first
    obtain ⟨ts, hts⟩ := Token.Stream.exists_of_fault? first
    exact ⟨ts, _, hts, rfl⟩
  | @token ts rest e split names =>
    rw [split, stream_prepend] at hstream
    refine ⟨ts, _, hstream, ?_⟩
    rw [position_stream, ← names.position_eq]
    rfl
  | @limit ts rest e split names =>
    rw [split, stream_prepend] at hstream
    refine ⟨ts, _, hstream, ?_⟩
    rw [position_stream]
    rcases names with rfl | rfl <;> rfl
  | passed mem => cases mem

/-- An error about a token is reported whatever comes after the token; only errors that are found
late give way to a fault. -/
theorem parse_eq_verdict {text : String} {e : ParseError} {t : Token}
    (h : Expr.parse text = .error (.parse e))
    (hmem : t ∈ (Token.stream (normalize text)).taken) (hposition : t.position = e.position) :
    ∃ before kept dropped : String, normalize text = before ++ t.lexeme ++ dropped ∧
      t.position = Position.start.advanceBy before.toList ∧ text = kept ++ dropped ∧
      ∀ (blank : Char) (other : String), isBlank blank = true →
        Expr.parse (kept ++ String.singleton blank ++ other) = .error (e.verdict
          (⟨blank :: other.toList, t.position.advanceBy t.lexeme.toList⟩ : Cursor).stream) := by
  -- The reader is run again with another rest behind the token: by `filter_error` it stops at the
  -- same token.
  obtain ⟨opening, after, hstream, hopen, hfilter⟩ := filter_of_parse_error h (by simp)
  obtain ⟨ts, rest, rfl, names, hsame⟩ := filter_error hopen hfilter
  have hsplit : Token.stream (normalize text) = (opening :: ts).foldr .next rest.stream := by
    rw [hstream, stream_prepend]
    rfl
  -- the error names the token, as no other one has its place
  have hplace : rest.stream.position = t.position := by
    rw [hposition, names.position_eq, position_stream]
  obtain ⟨last, hlast⟩ := Cursor.eq_next_of_position_eq hsplit hmem hplace.symm
  cases rest with
  | done position => cases hlast
  | more u last =>
    cases hlast
    obtain ⟨before, kept, dropped, hbefore, hplace, hkept, hreplace⟩ :=
      stream_normalize_replace hsplit
    refine ⟨before, kept, dropped, hbefore, hplace, hkept, fun blank other hother => ?_⟩
    have hnew := hreplace blank other hother
    generalize (⟨blank :: other.toList, t.position.advanceBy t.lexeme.toList⟩ : Cursor).stream =
      next at hnew ⊢
    have hfeed : Token.stream (normalize (kept ++ String.singleton blank ++ other)) =
        (prepend (opening :: ts) (.more t next)).stream := by
      rw [hnew, stream_prepend]
      rfl
    rw [parse_eq_filter (not_all_blank_of_stream hnew) hfeed, hsame _ (.more t last next)]
    rfl

/-- Results can be compared, so that what a given text is read as can be computed. -/
instance decidableEqExcept {ε α : Type} [DecidableEq ε] [DecidableEq α] :
    DecidableEq (Except ε α)
  | .error e, .error e' => decidable_of_iff (e = e') (by simp)
  | .ok x, .ok y => decidable_of_iff (x = y) (by simp)
  | .error _, .ok _ => isFalse (by simp)
  | .ok _, .error _ => isFalse (by simp)

/-- A text that is refused because of a token is refused for the same reason if everything after
the token is replaced by a blank and any other text, exactly unless the reason is an empty key or a
number out of range and the other text starts with a fault. That fault is reported then. -/
theorem parse_replace_after_error {text : String} {e : ParseError} {t : Token}
    (h : Expr.parse text = .error (.parse e))
    (hmem : t ∈ (Token.stream (normalize text)).taken) (hposition : t.position = e.position) :
    ∃ before kept dropped : String, normalize text = before ++ t.lexeme ++ dropped ∧
      t.position = Position.start.advanceBy before.toList ∧ text = kept ++ dropped ∧
      ∀ (blank : Char) (other : String), isBlank blank = true →
        let parsed := Expr.parse (kept ++ String.singleton blank ++ other)
        let next := (⟨blank :: other.toList, t.position.advanceBy t.lexeme.toList⟩ : Cursor).stream
        (parsed = .error (.parse e) ↔ e.reason.late = false ∨ ∀ fault, next ≠ .fault fault) ∧
          (e.reason.late = true → ∀ fault, next = .fault fault → parsed = .error (.lex fault)) := by
  obtain ⟨before, kept, dropped, hbefore, hplace, hkept, hverdict⟩ :=
    parse_eq_verdict h hmem hposition
  refine ⟨before, kept, dropped, hbefore, hplace, hkept, fun blank other hblank => ?_⟩
  intro parsed next
  have hparsed : parsed = .error (e.verdict next) := hverdict blank other hblank
  rw [hparsed]
  constructor
  -- a verdict is the error itself unless a fault comes first
  · rw [← ParseError.verdict_eq_parse_iff]
    constructor
    · intro heq
      injection heq
    · exact congrArg Except.error
  · intro hlate fault hfault
    rw [hfault]
    exact congrArg Except.error (if_pos hlate)

/-- A word where a predicate has to start is reported, whatever comes after the blank behind it. -/
theorem parse_replace_after_word :
    ∃ kept dropped : String, "a b c" = kept ++ dropped ∧
      ∀ (blank : Char) (other : String), isBlank blank = true →
        Expr.parse (kept ++ String.singleton blank ++ other) =
          .error (.parse ⟨.noViableAlternative, ⟨8, 1, 8⟩, "b", predicateStart⟩) := by
  have hparse : Expr.parse "a b c" =
      .error (.parse ⟨.noViableAlternative, ⟨8, 1, 8⟩, "b", predicateStart⟩) := by decide +kernel
  have hmem : (⟨.identifier, "b", ⟨8, 1, 8⟩⟩ : Token) ∈
      (Token.stream (normalize "a b c")).taken := by decide +kernel
  obtain ⟨before, kept, dropped, -, -, hkept, hsame⟩ := parse_replace_after_error hparse hmem rfl
  exact ⟨kept, dropped, hkept, fun blank other hblank => (hsame blank other hblank).1.2 (.inl rfl)⟩

/-- A number out of range in front of a character that is no token: the number is the first token
that does not fit, and the character is reported. -/
theorem number_masked_by_fault :
    Expr.parse "x == 9223372036854775808" = .error (.parse
      ⟨.numberOutOfRange, ⟨11, 1, 11⟩, "9223372036854775808", []⟩) ∧
    Expr.parse "x == 9223372036854775808 #" = .error (.lex ⟨.unexpected '#', ⟨31, 1, 31⟩⟩) := by
  decide +kernel

end MetadataFilter
