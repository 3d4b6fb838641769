import MetadataFilter.Diagnostic
import MetadataFilter.Proofs.Grammar.Expected
import MetadataFilter.Proofs.Token.Moved

/-!
# Hints that help

A word that starts no alternative gets a hint: the keyword that it is near to, or that it has to be
quoted. What a hint offers is one token, which is found wherever the word is found, and which the
automaton takes where it refuses the word. So the text with the token in place of the word is not
refused at the token or in front of it.

## Key results

- `wordHint?_eq_some`: what a hint says about the expected kinds
- `behind_of_run`: an error lies behind all tokens that the automaton takes
- `hint_helps`: following a hint
- `keyword_hint`: the nearest keyword is hinted at
-/

namespace MetadataFilter

open Text Expr.Parser Feed Grammar

/-! ### Errors behind a place -/

/-- The error is about a later place, if it is no error about a limit of the whole filter. -/
inductive FilterError.Behind (p : Position) : FilterError → Prop
  | lex {e : LexError} (lt : p.offset < e.position.offset) : Behind p (.lex e)
  | parse {e : ParseError} (lt : p.offset < e.position.offset) : Behind p (.parse e)
  | tooDeep (q : Position) : Behind p (.tooDeep q)
  | tooLarge (q : Position) : Behind p (.tooLarge q)

/-- What comes after a token, or after tokens that follow it, has a later place. -/
theorem Cursor.offset_lt_foldr {s : Cursor} {ts us : List Token} {t : Token} {after : Token.Stream}
    (h : s.stream = ts.foldr .next (.next t (us.foldr .next after))) :
    t.position.offset < after.position.offset := by
  obtain ⟨read, rest, -, hafter, -⟩ := Cursor.exists_reads h
  exact Cursor.offset_lt hafter.symm

/-- A token that has no step comes after all tokens that lead somewhere. -/
theorem exists_stream_of_run {s s' s'' : State} {ts us : List Token} {rest : Feed}
    {after : Token.Stream} (hstream : (prepend ts rest).stream = us.foldr .next after)
    (hus : s.run? us = some s') (hts : s.run? ts = some s'')
    (hnone : s''.step? rest.current = none) : ∃ vs, after = (prepend vs rest).stream := by
  -- Both lists of tokens are in front of the same stream, so they agree as far as both go; the
  -- induction removes one token from each.
  induction us generalizing s ts with
  | nil => exact ⟨ts, hstream.symm⟩
  | cons u us ih =>
    rw [State.run?_cons, Option.bind_eq_some_iff] at hus
    obtain ⟨mid, hstep, hus⟩ := hus
    cases ts with
    -- the token would be the one that leads on
    | nil =>
      cases hts
      cases rest with
      | done position => cases hstream
      | more t rest =>
        cases hstream
        have hnone : s''.step? u = none := hnone
        rw [hstep] at hnone
        cases hnone
    | cons t ts =>
      injection hstream with ht hrest
      subst ht
      rw [State.run?_cons, hstep] at hts
      exact ih hrest hus hts

/-- A refusal is about the place of its token. -/
theorem Expr.Parser.Refusal.position_eq {s : State} {t : Token} {e : ParseError} (h : Refusal s t e) :
    e.position = t.position := by
  cases h <;> rfl

/-- An error lies behind the tokens that the automaton takes. -/
theorem behind_of_run {text : String} {opening u : Token} {ts : List Token} {s : State}
    {after : Token.Stream} {e : FilterError}
    (hstream : Token.stream (normalize text) = (opening :: ts).foldr .next (.next u after))
    (hrun : State.start.run? (opening :: ts ++ [u]) = some s) (h : Expr.parse text = .error e) :
    e.Behind u.position := by
  let feed := prepend (opening :: ts) (.more u after)
  have hfeed : Token.stream (normalize text) = feed.stream := by
    rw [hstream, stream_prepend]
    rfl
  -- The new text is read by the automaton too, and each way to get stuck has a place behind the
  -- tokens that were taken.
  rw [parse_eq_filter (not_all_blank_of_stream hstream) hfeed] at h
  have herror : filter .standard feed = .error e := by
    cases hfilter : filter .standard feed with
    | error e' => rw [hfilter] at h; cases h; rfl
    | ok r => rw [hfilter] at h; cases h
  have hstuck : Stuck [] State.start feed e := filter_tracks.error herror
  cases hstuck with
  | fault first =>
    -- the tokens that lead somewhere stand in front of the fault
    have hfirst : after.fault? = some _ := (fault?_prepend (opening :: ts) _).symm.trans first
    obtain ⟨vs, rfl⟩ := Token.Stream.exists_of_fault? hfirst
    exact .lex (Cursor.offset_lt_foldr hstream)
  | @refused us rest s' e split run refusal =>
    have hsplit : (prepend us rest).stream = (opening :: ts ++ [u]).foldr .next after := by
      rw [← split, ← hfeed, hstream, List.foldr_append]
      rfl
    obtain ⟨vs, rfl⟩ := exists_stream_of_run hsplit hrun run refusal.step?_eq_none
    rw [stream_prepend] at hstream
    refine .parse ?_
    rw [refusal.position_eq, ← position_stream]
    exact Cursor.offset_lt_foldr hstream
  | limit split limit =>
    rcases limit.names with rfl | rfl
    · exact .tooDeep _
    · exact .tooLarge _
  | passed mem => cases mem

/-- A word that starts no alternative is refused by the automaton, which has led from the word WHERE
up to it. -/
theorem exists_refused_word {text : String} {e : ParseError}
    (h : Expr.parse text = .error (.parse e)) (hreason : e.reason = .noViableAlternative)
    (hword : Token.isWord e.found = true) :
    ∃ (opening t : Token) (ts : List Token) (after : Token.Stream) (s : State),
      Token.stream (normalize text) = (opening :: ts).foldr .next (.next t after) ∧
      opening.kind = .whereWord ∧ State.start.run? (opening :: ts) = some s ∧
      t.position = e.position ∧ t.lexeme = e.found ∧ e.expected = s.expected := by
  obtain ⟨feed, hstream, hstuck⟩ := exists_stuck h (by simp)
  obtain ⟨opening, tail, hopening, hopen⟩ := exists_stream_normalize text
  -- The automaton is stuck at a word, so this is the refusal that names no alternative.
  cases hstuck with
  | @refused ts rest s _ split run refusal =>
    cases refusal with
    | mismatchedInput | emptyKey | numberOutOfRange => cases hreason
    | noViableAlternative none =>
      rw [split, stream_prepend] at hstream
      -- the end of the text is no word
      have hkind : rest.current.kind ≠ .endOfInput := by
        intro hend
        have hfound : Token.isWord "<EOF>" = true := (if_pos hend : rest.current.text = _) ▸ hword
        exact absurd hfound (by decide)
      cases rest with
      | done position => exact absurd rfl hkind
      | more t after =>
        rw [hopening] at hstream
        cases ts with
        -- the word WHERE is taken where nothing has been read
        | nil =>
          cases run
          cases hstream
          rw [show (Feed.more opening tail).current.kind = .whereWord from hopen] at none
          cases none
        | cons first ts =>
          injection hstream with hfirst hrest
          subst hfirst
          exact ⟨opening, t, ts, after, s, by rw [hopening, hrest]; rfl, hopen, run, rfl,
            (if_neg hkind).symm, rfl⟩
  | limit split limit => rcases limit.names with h | h <;> cases h
  | passed mem => cases mem

/-! ### What a hint offers -/

namespace Diagnostic

/-- A keyword as messages show it is a word that is read as that keyword. -/
theorem isWord_display {kind : Token.Kind} (h : isKeyword kind = true) :
    Token.isWord kind.display = true ∧ Token.wordKind kind.display = kind := by
  cases kind <;> first | exact absurd h Bool.false_ne_true | exact ⟨by decide, by decide⟩

/-- How many edits make a keyword of a word, the word taken in upper case. -/
def editsTo (word : String) (kind : Token.Kind) : Nat :=
  edits (word.map Char.toUpper).toList kind.display.toList

/-- The distance to a keyword counts the fewest edits. -/
theorem keywordDistance_eq_editsTo (word : String) : keywordDistance word = editsTo word :=
  funext fun kind => editDistance_eq_edits _ kind.display

/-- The keyword `kind` is one of the nearest among the expected ones. -/
structure Nearest (word : String) (expected : List Token.Kind) (kind : Token.Kind) : Prop where
  mem : kind ∈ expected
  keyword : isKeyword kind = true
  least : ∀ other ∈ expected, isKeyword other = true → editsTo word kind ≤ editsTo word other

section

variable {word : String} {expected : List Token.Kind} {kind : Token.Kind}

/-- A least distance among the expected keywords belongs to a nearest one. -/
theorem nearest_of_leastBy
    (h : leastBy (keywordDistance word) (expected.filter isKeyword) = some kind) :
    Nearest word expected kind := by
  obtain ⟨hmem, hkeyword⟩ := List.mem_filter.1 (leastBy_mem h)
  refine ⟨hmem, hkeyword, fun other hother hisKeyword => ?_⟩
  rw [← keywordDistance_eq_editsTo]
  exact leastBy_le h other (List.mem_filter.2 ⟨hother, hisKeyword⟩)

/-- The keyword that a word is likely to stand for is one of the nearest, at one or two edits. -/
theorem similarKeyword?_eq_some (h : similarKeyword? word expected = some kind) :
    Nearest word expected kind ∧ 0 < editsTo word kind ∧ editsTo word kind ≤ 2 := by
  unfold similarKeyword? at h
  split at h
  · cases h
  · next nearest hleast =>
    simp only [Option.ite_none_right_eq_some, Option.some.injEq, Bool.and_eq_true,
      decide_eq_true_eq] at h
    obtain ⟨hdistance, rfl⟩ := h
    rw [keywordDistance_eq_editsTo] at hdistance
    exact ⟨nearest_of_leastBy hleast, hdistance⟩

/-- A keyword within two edits is reason enough, unless the word is a keyword itself. -/
theorem exists_similarKeyword? (hmem : kind ∈ expected) (hkeyword : isKeyword kind = true)
    (hnear : editsTo word kind ≤ 2)
    (hapart : ∀ other ∈ expected, isKeyword other = true → editsTo word other ≠ 0) :
    ∃ nearest, similarKeyword? word expected = some nearest := by
  cases hleast : leastBy (keywordDistance word) (expected.filter isKeyword) with
  | none =>
    have hfilter : kind ∈ expected.filter isKeyword := List.mem_filter.2 ⟨hmem, hkeyword⟩
    rw [leastBy_eq_none_iff.1 hleast] at hfilter
    cases hfilter
  | some nearest =>
    have hnearest := nearest_of_leastBy hleast
    -- the nearest keyword is no farther away than the one that is near enough
    have hpos := hapart nearest hnearest.mem hnearest.keyword
    have hle := hnearest.least kind hmem hkeyword
    have hdistance : (decide (0 < editsTo word nearest) && decide (editsTo word nearest ≤ 2)) = true
        := by
      simp only [Bool.and_eq_true, decide_eq_true_eq]
      omega
    refine ⟨nearest, ?_⟩
    unfold similarKeyword?
    simp only [hleast]
    rw [keywordDistance_eq_editsTo]
    exact if_pos hdistance

end

/-- A hint about a word: the keyword is one of the nearest among the expected ones, and the word is
to be quoted where a string is expected. -/
inductive WordHint (e : ParseError) : Hint → Prop
  | keyword {kind : Token.Kind} (nearest : Nearest e.found e.expected kind) :
      WordHint e (.keyword kind)
  | quoteWord (mem : .quotedString ∈ e.expected) : WordHint e (.quoteWord e.found)

/-- A hint is only given at a word that starts no alternative, and it is about that word. -/
theorem wordHint?_eq_some {e : ParseError} {hint : Hint} (h : wordHint? e = some hint) :
    e.reason = .noViableAlternative ∧ Token.isWord e.found = true ∧ WordHint e hint := by
  unfold wordHint? at h
  split at h
  · cases h
  · next hword =>
    simp only [Bool.or_eq_true, bne_iff_ne, ne_eq, Bool.not_eq_true', not_or, Decidable.not_not,
      Bool.not_eq_false] at hword
    refine ⟨hword.1, hword.2, ?_⟩
    -- a keyword is close, or the word can be quoted
    split at h
    · next kind hsimilar =>
      cases h
      exact .keyword (similarKeyword?_eq_some hsimilar).1
    · simp only [Option.ite_none_right_eq_some, Option.some.injEq] at h
      obtain ⟨hmem, rfl⟩ := h
      exact .quoteWord hmem

/-- What a hint offers in place of the word, and of which kind it is. -/
inductive Hint.Offers : Hint → Token.Kind → String → Prop
  | keyword (kind : Token.Kind) : Offers (.keyword kind) kind kind.display
  | quoteWord (word : String) : Offers (.quoteWord word) .quotedString s!"'{word}'"

end Diagnostic

/-- No character of a word has to be escaped. -/
theorem escape_of_isWord {word : String} (h : Token.isWord word = true) :
    escape '\'' word.toList = word.toList := by
  have hslash : '\\' ∉ word.toList := notMem_of_isWord h (by decide)
  have hquote : '\'' ∉ word.toList := notMem_of_isWord h (by decide)
  generalize word.toList = cs at hslash hquote
  induction cs with
  | nil => rfl
  | cons c cs ih =>
    simp only [List.mem_cons, not_or] at hslash hquote
    rw [escape, if_neg (by simp [Ne.symm hslash.1, Ne.symm hquote.1]), ih hslash.2 hquote.2]

/-- The quoted word of a hint is the word between apostrophes, since nothing in it is escaped. -/
theorem toList_quoteWord {word : String} (h : Token.isWord word = true) :
    s!"'{word}'".toList = quote '\'' word.toList := by
  show ("'" ++ word ++ "'").toList = _
  rw [quote, escape_of_isWord h]
  simp

/-- A word is found as it is only if nothing carries it on. -/
theorem ends_of_front_word {word : String} {kind : Token.Kind} {rest : List Char}
    (h : Token.isWord word = true)
    (hfront : Token.front (word.toList ++ rest) = .token kind word.toList) :
    Ends Token.isWordChar rest := by
  obtain ⟨c, cs, htext, hc, hall⟩ := isWord_iff.1 h
  have hrun := Token.front_word_append hc (fun d hd => hall d (List.mem_cons_of_mem c hd)) rest
  rw [← htext, hfront] at hrun
  injection hrun with _ hlexeme
  exact ends_of_takeWhile (List.append_right_eq_self.1 hlexeme.symm)

section

variable {e : ParseError} {hint : Diagnostic.Hint} {kind : Token.Kind} {lexeme : String}
  {rest : List Char}

/-- What a hint offers is found wherever the word is found, and ends what is in front of it. -/
theorem Diagnostic.WordHint.leads (h : WordHint e hint) (hoffers : hint.Offers kind lexeme)
    (hword : Token.isWord e.found = true) (hrest : Ends Token.isWordChar rest) (p : Position) :
    (⟨lexeme.toList ++ rest, p⟩ : Cursor).Leads ⟨kind, lexeme, p⟩ [] rest ∧
      Token.EndsAlike (e.found.toList ++ rest) (lexeme.toList ++ rest) := by
  have hnil : AllBlank [] := by simp [AllBlank]
  -- A keyword is found as a word and a quoted word as a string; both end what is in front as the
  -- word did.
  cases h with
  | keyword nearest =>
    cases hoffers
    obtain ⟨hdisplay, hkind⟩ := isWord_display nearest.keyword
    have hfront := Token.front_word hdisplay hrest
    rw [hkind] at hfront
    have hne : kind ≠ .endOfInput := hkind ▸ Token.wordKind_ne_endOfInput kind.display
    -- one word takes the place of another
    obtain ⟨c, cs, hfound, hc, -⟩ := isWord_iff.1 hword
    obtain ⟨d, ds, hlexeme, hd, -⟩ := isWord_iff.1 hdisplay
    refine ⟨⟨hnil, rfl, rfl, ?_, hfront, hne⟩, ?_⟩
    · show Ends isBlank (kind.display.toList ++ rest)
      rw [hlexeme]
      exact Ends.cons (isBlank_of_isWordStart hd) _
    · rw [hfound, hlexeme]
      exact Token.endsAlike_of_wordStart hc hd _ _
  | quoteWord =>
    cases hoffers
    have hbreak : ∀ c ∈ e.found.toList, Token.isLineBreak c = false := by
      obtain ⟨d, ds, hfound, -, hchars⟩ := isWord_iff.1 hword
      exact fun c hc => Token.isLineBreak_of_class (by decide) (by decide) (hchars c (hfound ▸ hc))
    have hfront := Token.front_quote '\'' (by decide) hbreak rest
    rw [← toList_quoteWord hword] at hfront
    have hcons : s!"'{e.found}'".toList = '\'' :: (escape '\'' e.found.toList ++ ['\'']) :=
      toList_quoteWord hword
    refine ⟨⟨hnil, rfl, rfl, ?_, hfront, by simp⟩, ?_⟩
    · show Ends isBlank (s!"'{e.found}'".toList ++ rest)
      rw [hcons]
      exact Ends.cons (by decide) _
    · rw [hcons]
      refine Token.endsAlike_of_head? fun c hc => .inr ?_
      cases hc
      decide

/-- The text of what a hint offers is admitted everywhere. -/
theorem Diagnostic.WordHint.admits (h : WordHint e hint) (hoffers : hint.Offers kind lexeme)
    (hword : Token.isWord e.found = true) (spot : Grammar.Spot) (p : Position) :
    spot.admits ⟨kind, lexeme, p⟩ = true := by
  cases h with
  | keyword nearest =>
    cases hoffers
    have hkeyword := nearest.keyword
    -- A keyword has neither a range nor characters that matter, at any spot.
    cases spot <;> cases kind <;> first | exact absurd hkeyword Bool.false_ne_true | rfl
  | quoteWord =>
    cases hoffers
    obtain ⟨d, ds, hfound, -⟩ := isWord_iff.1 hword
    have hunquote : unquote s!"'{e.found}'".toList ≠ [] := by
      rw [toList_quoteWord hword, unquote_quote, hfound]
      exact List.cons_ne_nil d ds
    cases spot with
    | operand =>
      rw [Spot.admits]
      exact Bool.or_eq_true_iff.2 (.inr (decide_eq_true hunquote))
    | _ => rfl

/-- What a hint offers is of an expected kind. -/
theorem Diagnostic.WordHint.mem (h : WordHint e hint) (hoffers : hint.Offers kind lexeme) :
    kind ∈ e.expected := by
  cases h with
  | keyword nearest =>
    cases hoffers
    exact nearest.mem
  | quoteWord mem =>
    cases hoffers
    exact mem

/-- What a hint offers leads on from where the word is refused. -/
theorem Diagnostic.WordHint.exists_run {ts : List Token} {s : State} (h : WordHint e hint)
    (hoffers : hint.Offers kind lexeme) (hword : Token.isWord e.found = true)
    (hrun : State.start.run? ts = some s) (hexpected : e.expected = s.expected) (p : Position) :
    ∃ s', State.start.run? (ts ++ [⟨kind, lexeme, p⟩]) = some s' := by
  have hmem : kind ∈ s.expected := hexpected ▸ h.mem hoffers
  obtain ⟨s', hnext⟩ := Option.isSome_iff_exists.1 ((s.next?_isSome_iff kind).2 (.inl hmem))
  refine ⟨s', ?_⟩
  rw [State.run?_concat_of_eq hrun]
  exact State.step?_eq_some_iff.2 ⟨h.admits hoffers hword s.spot p, hnext⟩

end

/-! ### Following a hint -/

/-- The text with what a hint offers in place of the word: the tokens in front of the word stay, and
what is offered comes next. -/
theorem exists_stream_offered {text : String} {e : ParseError} {hint : Diagnostic.Hint}
    {kind : Token.Kind} {lexeme : String} (h : Expr.parse text = .error (.parse e))
    (hhint : Diagnostic.wordHint? e = some hint) (hoffers : hint.Offers kind lexeme) :
    ∃ (before after : String) (opening : Token) (ts : List Token) (rest : Token.Stream) (s : State),
      normalize text = before ++ e.found ++ after ∧
      e.position = Position.start.advanceBy before.toList ∧
      Token.stream (before ++ lexeme ++ after) =
        (opening :: ts).foldr .next (.next ⟨kind, lexeme, e.position⟩ rest) ∧
      opening.kind = .whereWord ∧ State.start.run? (opening :: ts) = some s ∧
      e.expected = s.expected := by
  -- The text is cut at the word: what is in front is read as before, and then comes what is
  -- offered.
  obtain ⟨hreason, hword, hwordHint⟩ := Diagnostic.wordHint?_eq_some hhint
  obtain ⟨opening, t, ts, after, s, hstream, hopen, hrun, hposition, hfound, hexpected⟩ :=
    exists_refused_word h hreason hword
  obtain ⟨before, rest, htext, hplace, hleads, hreads⟩ := Cursor.exists_leads_at hstream
  have htext : (normalize text).toList = before ++ (t.lexeme.toList ++ rest) := htext
  rw [hposition] at hplace hreads
  rw [hfound] at htext hreads
  have hfront := hleads.front_eq
  rw [hfound] at hfront
  obtain ⟨hnew, hends⟩ :=
    hwordHint.leads hoffers hword (ends_of_front_word hword hfront) e.position
  have hread := (hreads _ hends).append (hnew.reads fun _ _ _ hfront => hfront)
  have hlist : (String.ofList before ++ lexeme ++ String.ofList rest).toList =
      before ++ (lexeme.toList ++ rest) := by simp
  refine ⟨String.ofList before, String.ofList rest, opening, ts,
    (⟨rest, e.position.advanceBy lexeme.toList⟩ : Cursor).stream, s, ?_, ?_, ?_, hopen, hrun,
    hexpected⟩
  · simp [← String.toList_inj, htext]
  · rw [String.toList_ofList]
    exact hplace
  · rw [Token.stream, Cursor.ofString, hlist]
    exact hread.trans List.foldr_append

/-- A hint that offers something in place of a word helps: the text with that in place of the word
is accepted, or refused because of what comes after it, or because it is too deep or too large. -/
theorem hint_helps {text : String} {e : ParseError} {hint : Diagnostic.Hint} {kind : Token.Kind}
    {lexeme : String} (h : Expr.parse text = .error (.parse e))
    (hhint : (Diagnostic.ofError (.parse e) text).hint = some hint)
    (hoffers : hint.Offers kind lexeme) :
    ∃ before after : String, normalize text = before ++ e.found ++ after ∧
      e.position = Position.start.advanceBy before.toList ∧
      ∀ error, Expr.parse (before ++ lexeme ++ after) = .error error →
        error.Behind e.position := by
  obtain ⟨-, hword, hwordHint⟩ := Diagnostic.wordHint?_eq_some hhint
  obtain ⟨before, after, opening, ts, rest, s, htext, hplace, hstream, hopen, hrun, hexpected⟩ :=
    exists_stream_offered h hhint hoffers
  refine ⟨before, after, htext, hplace, fun error herror => ?_⟩
  obtain ⟨s', hrun'⟩ := hwordHint.exists_run hoffers hword hrun hexpected e.position
  -- the word WHERE is in front already
  have hnormalize := normalize_of_startsWithWhere <|
    (startsWithWhere_iff_exists _).2 ⟨_, _, hstream, hopen⟩
  rw [← hnormalize] at hstream
  exact behind_of_run hstream hrun' herror

/-- A misspelt keyword in front of a list, and a word that has to be a string. -/
theorem hint_helps_after_key_and_operator :
    (∃ before after : String, normalize "year IM [2020] x" = before ++ "IM" ++ after ∧
      (⟨11, 1, 11⟩ : Position) = Position.start.advanceBy before.toList ∧
      ∀ error, Expr.parse (before ++ "IN" ++ after) = .error error →
        error.Behind ⟨11, 1, 11⟩) ∧
    ∃ before after : String, normalize "country == NL'" = before ++ "NL" ++ after ∧
      (⟨17, 1, 17⟩ : Position) = Position.start.advanceBy before.toList ∧
      ∀ error, Expr.parse (before ++ "'NL'" ++ after) = .error error →
        error.Behind ⟨17, 1, 17⟩ := by
  have hkeyword : Expr.parse "year IM [2020] x" = .error (.parse
      ⟨.noViableAlternative, ⟨11, 1, 11⟩, "IM", predicateStart⟩) := by decide +kernel
  have hquote : Expr.parse "country == NL'" = .error (.parse
      ⟨.noViableAlternative, ⟨17, 1, 17⟩, "NL", valueStart⟩) := by decide +kernel
  exact ⟨hint_helps hkeyword (by decide +kernel) (.keyword .inWord),
    hint_helps hquote (by decide +kernel) (.quoteWord "NL")⟩

/-! ### Misspelt keywords -/

/-- A word within two edits of an expected keyword, where nothing starts with the word and no
expected keyword is the word itself: the hint is the nearest of the expected keywords, and the
tokens in front of the word can go on with that keyword. -/
theorem keyword_hint {text : String} {e : ParseError} {near : Token.Kind}
    (h : Expr.parse text = .error (.parse e)) (hreason : e.reason = .noViableAlternative)
    (hword : Token.isWord e.found = true) (hmem : near ∈ e.expected)
    (hkeyword : Diagnostic.isKeyword near = true) (hnear : Diagnostic.editsTo e.found near ≤ 2)
    (hapart : ∀ other ∈ e.expected, Diagnostic.isKeyword other = true →
      Diagnostic.editsTo e.found other ≠ 0) :
    ∃ kind, Diagnostic.Nearest e.found e.expected kind ∧
      (Diagnostic.ofError (.parse e) text).hint = some (.keyword kind) ∧
      (Diagnostic.Hint.keyword kind).text = s!"did you mean '{kind.display}'?" ∧
      ∃ (ts : List Token) (t : Token) (after : Token.Stream),
        Token.stream (normalize text) = ts.foldr .next (.next t after) ∧
        t.position = e.position ∧ t.lexeme = e.found ∧
        Viable (ts ++ [⟨kind, kind.display, e.position⟩]) := by
  obtain ⟨kind, hsimilar⟩ := Diagnostic.exists_similarKeyword? hmem hkeyword hnear hapart
  have hhint : Diagnostic.wordHint? e = some (.keyword kind) := by
    unfold Diagnostic.wordHint?
    rw [hreason, hword, hsimilar]
    rfl
  -- the tokens in front of the word lead to where the keyword is expected
  obtain ⟨opening, t, ts, after, s, hstream, -, hrun, hposition, hfound, hexpected⟩ :=
    exists_refused_word h hreason hword
  have hnearest := (Diagnostic.similarKeyword?_eq_some hsimilar).1
  obtain ⟨s', hrun'⟩ := (Diagnostic.WordHint.keyword hnearest).exists_run (.keyword kind) hword hrun
    hexpected e.position
  refine ⟨kind, hnearest, hhint, rfl, opening :: ts, t, after, hstream, hposition, hfound, ?_⟩
  rw [viable_iff, hrun']
  rfl

/-- The word is one edit away from IN, and farther away from the other keywords that can come after
a key. -/
theorem keyword_hint_after_key :
    Expr.parse "year IM [2020]" = .error (.parse
      ⟨.noViableAlternative, ⟨11, 1, 11⟩, "IM", predicateStart⟩) ∧
    (Diagnostic.ofError (.parse ⟨.noViableAlternative, ⟨11, 1, 11⟩, "IM", predicateStart⟩)
      "year IM [2020]").hint = some (.keyword .inWord) ∧
    ∃ (ts : List Token) (t : Token) (after : Token.Stream),
      Token.stream (normalize "year IM [2020]") = ts.foldr .next (.next t after) ∧
      t.lexeme = "IM" ∧ Viable (ts ++ [⟨.inWord, "IN", ⟨11, 1, 11⟩⟩]) := by
  have hparse : Expr.parse "year IM [2020]" = .error (.parse
      ⟨.noViableAlternative, ⟨11, 1, 11⟩, "IM", predicateStart⟩) := by decide +kernel
  have hnear : Diagnostic.editsTo "IM" .inWord ≤ 2 := by
    rw [← Diagnostic.keywordDistance_eq_editsTo]
    decide +kernel
  have hapart : ∀ other ∈ predicateStart, Diagnostic.isKeyword other = true →
      Diagnostic.editsTo "IM" other ≠ 0 := by
    rw [← Diagnostic.keywordDistance_eq_editsTo]
    decide +kernel
  -- of all keywords that may stand here only one is close enough
  obtain ⟨kind, -, hhint, -, ts, t, after, hstream, -, hlexeme, hviable⟩ :=
    keyword_hint hparse rfl (by decide) (by decide) rfl hnear hapart
  have hin : (Diagnostic.ofError (.parse
      ⟨.noViableAlternative, ⟨11, 1, 11⟩, "IM", predicateStart⟩) "year IM [2020]").hint =
      some (.keyword .inWord) := by decide +kernel
  rw [hin] at hhint
  cases hhint
  exact ⟨hparse, hin, ts, t, after, hstream, hlexeme, hviable⟩

/-- No hint for a keyword in mixed case, which is no edit away from one keyword and one edit away
from another, nor for a misspelt connective. -/
theorem keyword_hint_missing :
    (∃ e, Expr.parse "year In [2020]" = .error (.parse e) ∧ Token.isWord e.found = true ∧
      .ninWord ∈ e.expected ∧ Diagnostic.editsTo e.found .ninWord = 1 ∧
      (Diagnostic.ofError (.parse e) "year In [2020]").hint = none) ∧
    ∃ e, Expr.parse "a == 1 AN b == 2" = .error (.parse e) ∧ Token.isWord e.found = true ∧
      .andWord ∈ e.expected ∧ Diagnostic.editsTo e.found .andWord = 1 ∧
      (Diagnostic.ofError (.parse e) "a == 1 AN b == 2").hint = none := by
  refine ⟨⟨⟨.noViableAlternative, ⟨11, 1, 11⟩, "In", predicateStart⟩, ?_⟩,
    ⟨⟨.mismatchedInput, ⟨13, 1, 13⟩, "AN", [.andWord, .orWord, .endOfInput]⟩, ?_⟩⟩
  · rw [← Diagnostic.keywordDistance_eq_editsTo]
    decide +kernel
  · rw [← Diagnostic.keywordDistance_eq_editsTo]
    decide +kernel

end MetadataFilter
