import MetadataFilter.Proofs.Grammar.Paraphrase
import MetadataFilter.Proofs.Grammar.ValueContext
import MetadataFilter.Proofs.Token.Moved
import MetadataFilter.Proofs.Token.StringRun

/-!
# Strings in place of constants

Where a constant can stand in a filter, strings in a row can stand as well, and the constant is what
the strings stand for. What follows them is read as before, although it stands at other places.

## Key results

- `Derives.of_symbols`: derivable tokens stay derivable where they say the same
- `exists_stream_append`: what is written behind a text that ends between two tokens
- `parse_iff_derives`: a text is a filter because of the tokens behind the word WHERE
- `parse_strings_of_truth`, `parse_truth_of_strings`: strings and truth values at the same places
- `strings_in_place_of_truth`: both, and text with doubled delimiters
-/

namespace MetadataFilter

open Text Expr.Parser Feed Grammar

/-! ### Tokens at other places say the same -/

namespace Token

/-- Tokens at other places have the same symbols. -/
theorem symbols_moved (f : Position → Position) (ts : List Token) :
    (ts.map (·.moved f)).flatMap symbols = ts.flatMap symbols := by
  induction ts with
  | nil => rfl
  | cons t ts ih =>
    rw [List.map_cons, List.flatMap_cons, List.flatMap_cons, ih]
    rfl

/-- Whether two tokens touch does not depend on where the text starts. -/
theorem touches_moved_behind (p : Position) (t u : Token) :
    (t.moved p.behind).touches (u.moved p.behind) = t.touches u := by
  simp only [touches, moved, Position.behind, Nat.add_assoc, Nat.add_left_cancel_iff]

/-- Whether neighbours touch does not depend on where the text starts. -/
theorem seams_moved_behind (p : Position) (ts : List Token) :
    seams (ts.map (·.moved p.behind)) = seams ts := by
  induction ts with
  | nil => rfl
  | cons t ts ih =>
    cases ts with
    | nil => rfl
    | cons u ts =>
      simp only [List.map_cons, seams] at ih ⊢
      rw [ih, touches_moved_behind]
      rfl

/-- Moving tokens does not change the kind of the first one. -/
theorem forall_head?_moved {f : Position → Position} {ts : List Token} {kind : Kind} :
    (∀ u ∈ (ts.map (·.moved f)).head?, u.kind ≠ kind) ↔ ∀ t ∈ ts.head?, t.kind ≠ kind := by
  cases ts <;> simp [moved]

/-- In front of no string, nothing is between tokens that counts. -/
theorem seams_append_of_head? {ts us : List Token} (h : ∀ u ∈ us.head?, u.kind ≠ .quotedString) :
    seams (ts ++ us) = seams ts ++ seams us := by
  -- Only the pair of tokens at the joint is new, and its second token is no string.
  induction ts with
  | nil => rfl
  | cons t ts ih =>
    cases ts with
    | nil =>
      cases us with
      | nil => rfl
      | cons u us => exact if_neg fun hk => h u rfl hk.2
    | cons t' ts =>
      simp only [List.cons_append, seams] at ih ⊢
      rw [ih]
      split <;> rfl

end Token

/-- What stands in front of an end is determined by the whole. -/
theorem eq_of_prepend_done {ts us : List Token} {p q : Position}
    (h : prepend ts (.done p) = prepend us (.done q)) : ts = us := by
  have htokens := congrArg (fun feed => feed.stream.tokens) h
  simp only [(tokens_stream_prepend _ _).2] at htokens
  exact (List.append_inj' htokens rfl).1

/-- Derivable tokens stay derivable where they say the same, and the tree is the same. -/
theorem Grammar.Derives.of_symbols {ts us : List Token} {e : Expr} (h : Derives (.run .or) ts e)
    (hsymbols : ts.flatMap Token.symbols = us.flatMap Token.symbols)
    (hseams : Token.seams ts = Token.seams us) : Derives (.run .or) us e := by
  -- limits that the tree does not pass
  let limits : Limits := ⟨e.depth, e.height + 1⟩
  let opening : Token := ⟨.whereWord, "WHERE", .start⟩
  have hread : filter limits (prepend (opening :: ts) (.done .start)) =
      .ok (.ofExpr e, .done .start) := by
    have hpos : 0 < limits.height := Nat.succ_pos _
    have hopen : opening.kind = .whereWord := rfl
    have hend : (Feed.done .start).current.kind = .endOfInput := rfl
    rcases filter_of_derives hpos hopen h hend with ⟨hread, -⟩ | ⟨-, -, hdeep⟩ | ⟨-, -, hlarge⟩
    · exact hread
    · exact absurd hdeep (Nat.lt_irrefl _)
    · exact absurd hlarge (Nat.not_lt_of_le (Nat.le_succ _))
  have hsame : Paraphrase (prepend (opening :: ts) (.done .start))
      (prepend (opening :: us) (.done .start)) := by
    refine paraphrase_of_symbols _ _ ?_ ?_
    · rw [List.flatMap_cons, List.flatMap_cons, hsymbols]
    · rw [Token.seams_cons_of_ne (by simp [opening]), Token.seams_cons_of_ne (by simp [opening]),
        hseams]
  have hagree : Agree Eq (filter limits _) (filter limits _) := filter_agree hsame
  rw [hread] at hagree
  generalize hresult : filter limits (prepend (opening :: us) (.done .start)) = result at hagree
  -- The two readings agree, so the second one succeeds too, and what it has taken are the other
  -- tokens.
  cases hagree with
  | ok value rest =>
    subst value
    cases rest
    obtain ⟨opening', us', -, hderives, hfeed, -⟩ := filter_sound hresult
    cases eq_of_prepend_done hfeed
    exact hderives

/-! ### What is written behind a text -/

/-- A stream without a fault is tokens and the end. -/
theorem Token.Stream.exists_foldr_finish {stream : Stream} (h : stream.fault? = none) :
    ∃ (ts : List Token) (p : Position), stream = ts.foldr next (finish p) := by
  obtain ⟨ts, p, -, hstream⟩ := stream_eq_prepend h
  exact ⟨ts, p, hstream.trans (stream_prepend ts _)⟩

/-- What does not carry a lexeme on can be written behind a text that ends between two tokens. -/
theorem Cursor.reads_append {s : Cursor} {ts : List Token} {p : Position}
    (h : s.stream = ts.foldr .next (.finish p)) {cs : List Char} (hcs : Ends carriesOn cs) :
    Reads ⟨s.rest ++ cs, s.position⟩ ts ⟨cs, s.position.advanceBy s.rest⟩ := by
  obtain ⟨read, rest, htext, hend, hreplace⟩ := exists_reads h
  -- before the end of the text nothing is left but blanks
  obtain ⟨-, hheads⟩ := heads_stream ⟨rest, s.position.advanceBy read⟩
  rw [← hend] at hheads
  have hblank : AllBlank rest := dropWhile_isBlank_eq_nil_iff.1 hheads
  have hends : Token.EndsAlike rest (rest ++ cs) := by
    refine Token.endsAlike_of_head? fun c hc => ?_
    cases rest with
    | nil => exact .inr (hcs c hc)
    | cons d rest => exact .inl hc
  have hskip := Reads.blanks hblank cs (s.position.advanceBy read)
  rw [htext, List.append_assoc, Position.advanceBy_append, ← List.append_nil ts]
  exact (hreplace _ hends).append hskip

/-- The first token of a text decides whether it starts with the word WHERE, so that what is written
behind the text does not matter, unless it starts with that word. -/
theorem startsWithWhere_append_iff {cs ds : List Char}
    (h : (⟨cs, .start⟩ : Cursor).stream.fault? = none) (hds : Ends carriesOn ds)
    (hwhere : ¬StartsWithWhere ds) : StartsWithWhere (cs ++ ds) ↔ StartsWithWhere cs := by
  obtain ⟨ts, p, hstream⟩ := Token.Stream.exists_foldr_finish h
  have hread := Cursor.reads_append hstream hds
  -- Either the text has a first token, which stays the first, or it is blank.
  cases ts with
  -- nothing but blanks, so that the first token is the one that follows
  | nil =>
    obtain ⟨-, hheads⟩ := Cursor.heads_stream ⟨cs, .start⟩
    rw [hstream] at hheads
    have hblank : cs.dropWhile isBlank = [] := hheads
    have hfirst : (cs ++ ds).dropWhile isBlank = ds.dropWhile isBlank := by
      rw [List.dropWhile_append, hblank]
      rfl
    refine ⟨fun hstarts => absurd ?_ hwhere, fun hstarts => ?_⟩
    · rwa [StartsWithWhere, hfirst] at hstarts
    · rw [StartsWithWhere, hblank] at hstarts
      obtain ⟨lexeme, hfront⟩ := hstarts
      cases hfront
  | cons t ts => rw [startsWithWhere_iff hread, startsWithWhere_iff hstream]

/-- What is written behind a text that ends between two tokens has its tokens behind those of the
text, of which the first one is the word WHERE. -/
theorem exists_stream_append {before : String} (h : (Token.stream before).fault? = none) :
    ∃ (opening : Token) (xs : List Token) (q : Position), opening.kind = .whereWord ∧
      ∀ text : String, Ends carriesOn text.toList → ¬StartsWithWhere text.toList →
        Token.stream (normalize (before ++ text)) =
          (opening :: xs).foldr .next (⟨text.toList, q⟩ : Cursor).stream := by
  obtain ⟨ts, p, hstream⟩ := Token.Stream.exists_foldr_finish h
  have hiff : ∀ text : String, Ends carriesOn text.toList → ¬StartsWithWhere text.toList →
      (StartsWithWhere (before ++ text).toList ↔ StartsWithWhere before.toList) := by
    intro text hends hwhere
    rw [String.toList_append]
    exact startsWithWhere_append_iff h hends hwhere
  by_cases hwhere : StartsWithWhere before.toList
  -- the word is the first token of the text, and stays that
  · obtain ⟨opening, after, hfirst, hopen⟩ := (startsWithWhere_iff_exists _).1 hwhere
    cases ts with
    | nil => cases hfirst.symm.trans hstream
    | cons t ts =>
      cases hfirst.symm.trans hstream
      refine ⟨opening, ts, Position.start.advanceBy before.toList, hopen,
        fun text hends hstarts => ?_⟩
      rw [normalize_of_startsWithWhere ((hiff text hends hstarts).2 hwhere), Token.stream,
        Cursor.ofString, String.toList_append]
      exact Cursor.reads_append hstream hends
  -- the word is put in front, and the text starts behind it
  · have hmoved : (⟨before.toList, ⟨6, 1, 6⟩⟩ : Cursor).stream =
        (ts.map (·.moved (Position.behind ⟨6, 1, 6⟩))).foldr .next
          (.finish (Position.behind ⟨6, 1, 6⟩ p)) := by
      have hstream : (⟨before.toList, .start⟩ : Cursor).stream = _ := hstream
      rw [Cursor.stream_behind, hstream, Token.Stream.moved_foldr]
      rfl
    refine ⟨⟨.whereWord, "WHERE", .start⟩, ts.map (·.moved (Position.behind ⟨6, 1, 6⟩)),
      Position.advanceBy ⟨6, 1, 6⟩ before.toList, rfl, fun text hends hstarts => ?_⟩
    have hnot := mt (hiff text hends hstarts).1 hwhere
    rw [(normalize_of_not_startsWithWhere hnot).2, String.toList_append, List.foldr_cons]
    exact congrArg _ (Cursor.reads_append hmoved hends)

/-- Tokens between a text that ends between two tokens and any other text. -/
theorem exists_stream_around {before : String} (h : (Token.stream before).fault? = none) :
    ∃ (opening : Token) (xs : List Token) (q : Position), opening.kind = .whereWord ∧
      ∀ (text after : String) (u : Token) (us : List Token) (q' : Position),
        Cursor.Reads ⟨text.toList ++ after.toList, q⟩ (u :: us) ⟨after.toList, q'⟩ →
        Ends carriesOn (text.toList ++ after.toList) → u.kind ≠ .whereWord →
        Token.stream (normalize (before ++ text ++ after)) =
          (opening :: (xs ++ u :: us)).foldr .next ((Token.stream after).moved q'.behind) := by
  obtain ⟨opening, xs, q, hopen, hstream⟩ := exists_stream_append h
  refine ⟨opening, xs, q, hopen, fun text after u us q' hread hends hk => ?_⟩
  have htext : (text ++ after).toList = text.toList ++ after.toList := String.toList_append
  -- the first token of the text decides whether the word is put in front
  have hwhere : ¬StartsWithWhere (text ++ after).toList := by
    rw [htext]
    exact mt (startsWithWhere_iff hread).1 hk
  rw [String.append_assoc, hstream _ (htext ▸ hends) hwhere, htext, hread, Cursor.stream_behind,
    ← List.foldr_append]
  rfl

/-- A text is read as a filter because of its tokens between the word WHERE and the end, if none of
the last ones is at fault. Where these stand does not matter to that. -/
theorem parse_iff_derives {text after : String} {opening : Token} {ts : List Token}
    {f : Position → Position} {e : Expr} (hopen : opening.kind = .whereWord)
    (hstream : Token.stream (normalize text) =
      (opening :: ts).foldr .next ((Token.stream after).moved f)) :
    Expr.parse text = .ok e ↔ (Token.stream after).fault? = none ∧
      Derives (.run .or) (ts ++ (Token.stream after).taken.map (·.moved f)) e ∧
      e.depth ≤ maxDepth ∧ e.height ≤ maxHeight := by
  have hfault : (Token.stream (normalize text)).fault? = none ↔
      (Token.stream after).fault? = none := by
    rw [hstream, Token.Stream.fault?_foldr, Token.Stream.fault?_moved, Option.map_eq_none_iff]
  rw [parse_eq_ok_iff, hfault, and_assoc]
  refine and_congr_right fun hnone => and_congr_left fun _ => ?_
  -- without a fault, the tokens behind `ts` are those of `after` up to the end
  obtain ⟨ys, p, hafter⟩ := Token.Stream.exists_foldr_finish hnone
  have htokens := (tokens_stream_prepend (opening :: (ts ++ ys.map (·.moved f))) (f p)).2
  rw [stream_prepend, ← List.cons_append, List.foldr_append] at htokens
  have htaken : (ys.foldr .next (.finish p) : Token.Stream).taken = ys :=
    (Token.Stream.taken_foldr ys _).trans (List.append_nil ys)
  rw [hstream, hafter, Token.Stream.moved_foldr, htaken]
  rw [show (Token.Stream.finish p).moved f = (Feed.done (f p)).stream from rfl, htokens]
  exact ⟨fun h => h.derives, fun h => .mk hopen h rfl⟩

/-! ### Strings in place of a truth value -/

/-- The tokens behind the place of a constant can stand at any other place. -/
theorem Grammar.Fills.literal_moved {xs ys us : List Token} {fill : Value → Expr} {v : Value}
    {q : Position} (h : Fills (Derives (.run .or)) xs (ys.map (·.moved q.behind)) fill)
    (hus : Literal us v) (q' : Position) :
    Derives (.run .or) (xs ++ us ++ ys.map (·.moved q'.behind)) (fill v) := by
  have hstops : ∀ p : Position, ∀ u ∈ (ys.map (·.moved p.behind)).head?,
      u.kind ≠ .quotedString := fun p =>
    Token.forall_head?_moved.2 (Token.forall_head?_moved.1 h.stops)
  -- no string follows, so that the seams are those inside the two parts
  refine (h.literal hus).of_symbols ?_ ?_
  · simp only [List.flatMap_append, Token.symbols_moved]
  · rw [Token.seams_append_of_head? (hstops q), Token.seams_append_of_head? (hstops q'),
      Token.seams_moved_behind, Token.seams_moved_behind]

/-- A run of strings starts with a character that carries nothing on. -/
theorem StringRun.ends_text (run : StringRun) (rest : List Char) :
    Ends carriesOn (run.text.toList ++ rest) := by
  rw [text, String.toList_ofList]
  refine Ends.cons ?_ _
  rcases Token.eq_of_isDelimiter run.first.isDelimiter with hd | hd <;> rw [hd] <;> decide

/-- A truth value between blanks is read in front of anything. -/
theorem Cursor.reads_true (rest : List Char) (q : Position) :
    Reads ⟨" true ".toList ++ rest, q⟩ [⟨.boolean, "true", q.advance ' '⟩]
      ⟨rest, q.advanceBy " true ".toList⟩ := by
  have hfront : Token.front ("true".toList ++ ' ' :: rest) = .token .boolean "true".toList :=
    Token.front_word (by decide) (Ends.cons (by decide) _)
  have hword := Reads.lexeme hfront (by simp) (Ends.cons (by decide) _) (q.advance ' ')
  have hblank := Reads.blank (c := ' ') (by decide)
  exact (hblank _ q).append (hword.append (hblank _ _))

/-- The token of the truth value stands for it. -/
theorem truthOf_true (p : Position) : truthOf ⟨.boolean, "true", p⟩ = .boolean true := by
  have hlower : "true".map Char.toLower = "true" := by decide +kernel
  exact congrArg Value.boolean (decide_eq_true hlower)

/-- A truth value and strings at the same place of a text have the same tokens in front of them, and
what comes after them differs in where it stands. -/
theorem exists_stream_of_place {before : String} (h : (Token.stream before).fault? = none) :
    ∃ (opening : Token) (xs : List Token) (q : Position), opening.kind = .whereWord ∧
      (∀ after : String, Token.stream (normalize (before ++ " true " ++ after)) =
        (opening :: (xs ++ [⟨.boolean, "true", q.advance ' '⟩])).foldr .next
          ((Token.stream after).moved (q.advanceBy " true ".toList).behind)) ∧
      ∀ (run : StringRun) (after : String), ∃ us : List Token, Literal us (.text run.meaning) ∧
        Token.stream (normalize (before ++ run.text ++ after)) =
          (opening :: (xs ++ us)).foldr .next
            ((Token.stream after).moved (q.advanceBy run.text.toList).behind) := by
  obtain ⟨opening, xs, q, hopen, hstream⟩ := exists_stream_around h
  refine ⟨opening, xs, q, hopen, fun after => ?_, fun run after => ?_⟩
  · exact hstream _ _ _ _ _ (Cursor.reads_true _ q) (Ends.cons (by decide) _) (by simp)
  · obtain ⟨us, hread, hliteral⟩ := run.exists_reads after.toList q
    exact ⟨_, hliteral, hstream _ _ _ _ _ hread (run.ends_text _) (by simp [StringLiteral.token])⟩

/-- Strings in a row can stand wherever a truth value can, and are read as the constant that they
stand for. -/
theorem parse_strings_of_truth {before after : String} {e : Expr}
    (hbefore : (Token.stream before).fault? = none)
    (h : Expr.parse (before ++ " true " ++ after) = .ok e) :
    ∃ context : ValueContext, e = context.fill (.boolean true) ∧ ∀ run : StringRun,
      Expr.parse (before ++ run.text ++ after) = .ok (context.fill (.text run.meaning)) := by
  obtain ⟨opening, xs, q, hopen, htruth, hstrings⟩ := exists_stream_of_place hbefore
  obtain ⟨hfault, hderives, hdepth, hheight⟩ := (parse_iff_derives hopen (htruth after)).1 h
  rw [List.append_assoc, List.singleton_append] at hderives
  obtain ⟨context, rfl, hfills⟩ := hderives.exists_fills rfl
  refine ⟨context, by rw [truthOf_true], fun run => ?_⟩
  -- strings at the place, and behind them the same tokens at later places
  obtain ⟨us, hliteral, hstream⟩ := hstrings run after
  refine (parse_iff_derives hopen hstream).2 ⟨hfault, hfills.literal_moved hliteral _, ?_, ?_⟩
  · rwa [context.depth_fill]
  · rwa [context.height_fill]

/-- Strings in a row that stand where a truth value can are read as the constant that they stand
for, if no other string comes next, and a truth value can stand in their place. -/
theorem parse_truth_of_strings {before after : String} {run : StringRun} {e : Expr}
    (hbefore : (Token.stream before).fault? = none)
    (hplace : Viable (Token.stream (normalize (before ++ " true "))).taken)
    (hafter : ∀ t ∈ (Token.stream after).taken.head?, t.kind ≠ .quotedString)
    (h : Expr.parse (before ++ run.text ++ after) = .ok e) :
    ∃ context : ValueContext, e = context.fill (.text run.meaning) ∧
      Expr.parse (before ++ " true " ++ after) = .ok (context.fill (.boolean true)) := by
  obtain ⟨opening, xs, q, hopen, htruth, hstrings⟩ := exists_stream_of_place hbefore
  obtain ⟨us, hliteral, hstream⟩ := hstrings run after
  obtain ⟨hfault, hderives, hdepth, hheight⟩ := (parse_iff_derives hopen hstream).1 h
  -- the tokens in front of the strings go on with a truth value
  have hempty : Token.stream "" = .finish .start := Cursor.stream_eq _
  have hfront := htruth ""
  rw [String.append_empty, hempty] at hfront
  rw [hfront, Token.Stream.taken_foldr, Token.Stream.moved] at hplace
  obtain ⟨context, rfl, hfills⟩ := hderives.exists_context rfl hopen
    (by simpa [Token.Stream.taken] using hplace) hliteral (Token.forall_head?_moved.2 hafter)
  have hvalue := Literal.boolean (t := ⟨.boolean, "true", q.advance ' '⟩) rfl
  refine ⟨context, rfl, (parse_iff_derives hopen (htruth after)).2 ⟨hfault, ?_, ?_, ?_⟩⟩
  · rw [← truthOf_true (q.advance ' ')]
    exact hfills.literal_moved hvalue _
  · rwa [context.depth_fill _ (.text run.meaning)]
  · rwa [context.height_fill _ (.text run.meaning)]

/-- Strings in a row can stand exactly where a truth value can, and are read as the constant that
they stand for. So any text without line breaks can stand there between two delimiters, with its
delimiters and its backslashes written twice, and it is read as that text. -/
theorem strings_in_place_of_truth {before : String} (after : String)
    (hbefore : (Token.stream before).fault? = none) :
    (∀ e, Expr.parse (before ++ " true " ++ after) = .ok e →
      ∃ context : ValueContext, e = context.fill (.boolean true) ∧
        (∀ run : StringRun,
          Expr.parse (before ++ run.text ++ after) = .ok (context.fill (.text run.meaning))) ∧
        ∀ (delimiter : Char) (v : String), Token.isDelimiter delimiter = true →
          (∀ c ∈ v.toList, Token.isLineBreak c = false) →
          Expr.parse (before ++ quoteDoubled delimiter (String.ofList (double '\\' v.toList)) ++
            after) = .ok (context.fill (.text v))) ∧
    ∀ (run : StringRun) (e : Expr), Viable (Token.stream (normalize (before ++ " true "))).taken →
      (∀ t ∈ (Token.stream after).taken.head?, t.kind ≠ .quotedString) →
      Expr.parse (before ++ run.text ++ after) = .ok e →
      ∃ context : ValueContext, e = context.fill (.text run.meaning) ∧
        Expr.parse (before ++ " true " ++ after) = .ok (context.fill (.boolean true)) := by
  refine ⟨fun e h => ?_, fun run e hplace hafter => parse_truth_of_strings hbefore hplace hafter⟩
  obtain ⟨context, he, hrun⟩ := parse_strings_of_truth hbefore h
  refine ⟨context, he, hrun, fun delimiter v hd hv => ?_⟩
  obtain ⟨run, rfl, htext⟩ := StringRun.exists_run_double hd hv
  rw [← htext]
  exact hrun run

/-- A text with a delimiter and a backslash as the constant of a comparison, and two strings that
touch as the only element of a list. -/
theorem strings_in_place_of_truth_comparison_and_list :
    Expr.parse "name == 'it''s \\\\'''" =
      .ok (.comparison (.field "name") .equal (.text "it's \\'")) ∧
    ∃ context : ValueContext,
      .membership (.field "tag") false ⟨.text "x'x", []⟩ = context.fill (.text "x'x") ∧
      Expr.parse "tag in [ true ]" = .ok (context.fill (.boolean true)) := by
  constructor
  · have hbefore : (Token.stream "name == ").fault? = none := by decide +kernel
    have htruth : Expr.parse ("name == " ++ " true " ++ "") =
        .ok (.comparison (.field "name") .equal (.boolean true)) :=
      eq_ok_of_toOption (by decide +kernel)
    obtain ⟨context, he, -, htext⟩ := (strings_in_place_of_truth "" hbefore).1 _ htruth
    have hread := htext '\'' "it's \\'" (by decide) (by simp [Token.isLineBreak])
    have hquoted : "name == " ++ quoteDoubled '\''
        (String.ofList (double '\\' "it's \\'".toList)) ++ "" = "name == 'it''s \\\\'''" := by
      decide +kernel
    rw [hquoted] at hread
    -- a comparison is a filter with a place for a constant in one way only
    cases context with
    | comparison key op =>
      cases he
      exact hread
    | _ => cases he
  -- the list holds one run of two literals that touch, which is read as one text
  · let literal : StringLiteral :=
      ⟨'\'', ['x'], by decide, .plain (by decide) (by decide) (by decide) .nil⟩
    let run : StringRun := ⟨literal, [⟨[], by simp [AllBlank], literal⟩]⟩
    have hbefore : (Token.stream "tag in [").fault? = none := by decide +kernel
    have hplace : Viable (Token.stream (normalize ("tag in [" ++ " true "))).taken :=
      (viable_iff _).2 (by decide +kernel)
    have hkinds : (Token.stream "]").taken.head?.map Token.kind = some .rightBracket := by
      decide +kernel
    have hparse : Expr.parse ("tag in [" ++ run.text ++ "]") =
        .ok (.membership (.field "tag") false ⟨.text "x'x", []⟩) :=
      eq_ok_of_toOption (by decide +kernel)
    refine (strings_in_place_of_truth "]" hbefore).2 run _ hplace (fun t ht => ?_) hparse
    rw [Option.mem_def.1 ht] at hkinds
    rw [Option.some.inj hkinds]
    decide

end MetadataFilter
