import MetadataFilter.Proofs.Grammar.Completeness
import MetadataFilter.Proofs.Token.Stream

/-!
# Filters are what the grammar derives

A text is read as a filter exactly if its tokens are derivable and the tree keeps within the limits,
and no text has two trees. That a tree is unique follows from reading it with limits that neither
of two trees passes.

## Key results

- `Sentence.unique`: derivable tokens stand for one tree
- `sentence_of_parseWithin`: the tokens of what has been read are derivable
- `parseWithin_of_sentence`: derivable tokens are read, or a limit is passed
- `parse_iff_sentence`: both directions for the limits of every filter
-/

namespace MetadataFilter

open Expr.Parser Expr.Parser.Feed

namespace Grammar

/-- What stands between the word WHERE and the end is derivable. -/
theorem Sentence.derives {ts : List Token} {e : Expr} {opening closing : Token}
    (h : Sentence (opening :: ts ++ [closing]) e) : Derives (.run .or) ts e := by
  generalize hall : opening :: ts ++ [closing] = all at h
  cases h with
  | mk open_kind expr close_kind =>
    obtain ⟨hcons, -⟩ := List.append_inj' hall rfl
    cases hcons
    exact expr

/-- Derivable tokens stand for one tree. -/
theorem Sentence.unique {ts : List Token} {e e' : Expr} (h : Sentence ts e) (h' : Sentence ts e') :
    e = e' := by
  -- limits that neither tree passes
  let limits : Limits := ⟨max e.depth e'.depth, max e.height e'.height + 1⟩
  have read : ∀ {us : List Token} {opening : Token} {d : Expr}, opening.kind = .whereWord →
      Derives (.run .or) us d → d.depth ≤ limits.depth → d.height ≤ limits.height →
      filter limits (prepend (opening :: us) (.done .start)) = .ok (.ofExpr d, .done .start) := by
    intro us opening d hopen hd hdepth hheight
    have hend : (Feed.done .start).current.kind = .endOfInput := rfl
    have hpos : 0 < limits.height := Nat.succ_pos _
    rcases filter_of_derives hpos hopen hd hend with ⟨hread, -⟩ | ⟨-, -, h⟩ | ⟨-, -, h⟩
    · exact hread
    · omega
    · omega
  cases h with
  | @mk us _ opening closing open_kind expr close_kind =>
    -- one reader reads both trees from the same tokens
    have hread := read open_kind expr (Nat.le_max_left _ _)
      (Nat.le_succ_of_le (Nat.le_max_left _ _))
    have hread' := read open_kind h'.derives (Nat.le_max_right _ _)
      (Nat.le_succ_of_le (Nat.le_max_right _ _))
    rw [hread] at hread'
    have hnode : Node.ofExpr e = Node.ofExpr e' := by
      injection hread' with hpair
      exact congrArg Prod.fst hpair
    exact congrArg Node.expr hnode

end Grammar

open Grammar

/-! ### Texts -/

/-- Tokens in front of what is left are taken first. -/
theorem taken_prepend (ts : List Token) (feed : Feed) :
    (prepend ts feed).stream.taken = ts ++ feed.stream.taken := by
  rw [stream_prepend, Token.Stream.taken_foldr]

/-- Nothing but blanks is no filter. -/
theorem not_sentence_of_all_blank {text : String} (h : text.toList.all Text.isBlank = true)
    (e : Expr) : ¬ Sentence (Token.stream (normalize text)).tokens e := by
  -- the tokens are WHERE and the end, with nothing between them
  obtain ⟨position, hstream⟩ := Cursor.stream_normalize_of_all_blank (List.all_eq_true.1 h)
  rw [hstream]
  intro hfilter
  generalize hts : Token.Stream.tokens _ = ts at hfilter
  cases hfilter with
  | mk open_kind expr close_kind =>
    -- one token would have to stand between WHERE and the end
    obtain ⟨t, us, rfl, ht⟩ := expr.exists_cons
    simp [Token.Stream.tokens] at hts

/-- A text that is not blank is read from the stream of its tokens, if that starts with one. -/
theorem parseWithin_eq {limits : Limits} {text : String}
    (h : text.toList.all Text.isBlank = false) :
    Expr.parseWithin limits text =
      (Feed.ofStream (Token.stream (normalize text)) >>= fun feed =>
        (filter limits feed).map fun r => r.1.expr) := by
  unfold Expr.parseWithin
  simp only [h, Bool.false_eq_true, if_false]
  rfl

/-- The tokens of what has been read are derivable. -/
theorem sentence_of_parseWithin {limits : Limits} {text : String} {e : Expr}
    (h : Expr.parseWithin limits text = .ok e) :
    (Token.stream (normalize text)).fault? = none ∧
      Sentence (Token.stream (normalize text)).tokens e := by
  -- A blank text is refused, so this one is not blank.
  have hblank : text.toList.all Text.isBlank = false := by
    rw [Bool.eq_false_iff]
    intro hblank
    unfold Expr.parseWithin at h
    simp only [hblank, if_true] at h
    cases h
  rw [parseWithin_eq hblank] at h
  cases hfeed : Feed.ofStream (Token.stream (normalize text)) with
  | error err => rw [hfeed] at h; cases h
  | ok feed =>
    rw [hfeed] at h
    change (filter limits feed).map _ = _ at h
    cases hfilter : filter limits feed with
    | error err => rw [hfilter] at h; cases h
    | ok r =>
      obtain ⟨node, feed'⟩ := r
      rw [hfilter] at h
      cases h
      -- what has been read are the tokens of the stream up to what is left
      obtain ⟨opening, ts, hopen, hts, rfl, hend⟩ := filter_sound hfilter
      have hstream := stream_of_ofStream hfeed
      cases feed' with
      | done position =>
        obtain ⟨hfault, htokens⟩ := tokens_stream_prepend (opening :: ts) position
        rw [← hstream, htokens]
        exact ⟨hfault, .mk hopen hts rfl⟩
      | more token rest =>
        -- a text ends only once, so no token that has been taken is its end
        have hmem : token ∈ (Token.stream (normalize text)).taken := by
          rw [← hstream, taken_prepend]
          simp [Feed.stream, Token.Stream.taken]
        exact absurd hend (Cursor.kind_ne_endOfInput_of_mem_taken _ token hmem)

/-- Derivable tokens are read as their tree, or the tree passes the limit that the error names. -/
theorem parseWithin_of_sentence {limits : Limits} (hpos : 0 < limits.height) {text : String}
    {e : Expr} (hfault : (Token.stream (normalize text)).fault? = none)
    (h : Sentence (Token.stream (normalize text)).tokens e) :
    (Expr.parseWithin limits text = .ok e ∧ e.depth ≤ limits.depth ∧ e.height ≤ limits.height) ∨
      (∃ position, Expr.parseWithin limits text = .error (.tooDeep position) ∧
        limits.depth < e.depth) ∨
      ∃ position, Expr.parseWithin limits text = .error (.tooLarge position) ∧
        limits.height < e.height := by
  have hblank : text.toList.all Text.isBlank = false := by
    rw [Bool.eq_false_iff]
    exact fun hblank => not_sentence_of_all_blank hblank e h
  -- the tokens of the stream are put in front of its end, where the reader finds them
  obtain ⟨ts, position, htokens, hstream⟩ := stream_eq_prepend hfault
  rw [parseWithin_eq hblank, hstream, ofStream_stream]
  change ((filter limits _).map _ = _ ∧ _) ∨ (∃ _, (filter limits _).map _ = _ ∧ _) ∨
    ∃ _, (filter limits _).map _ = _ ∧ _
  rw [htokens] at h
  generalize hall : ts ++ [Token.endOfInput position] = all at h
  cases h with
  | @mk us _ opening closing open_kind expr close_kind =>
    obtain ⟨rfl, -⟩ := List.append_inj' hall rfl
    have hend : (Feed.done position).current.kind = .endOfInput := rfl
    -- Either the tree keeps within the limits, or one of the two errors names the limit that it
    -- passes.
    rcases filter_of_derives hpos open_kind expr hend with
      ⟨hread, hsize⟩ | ⟨position, hread, h⟩ | ⟨position, hread, h⟩
    · rw [hread]
      exact .inl ⟨rfl, hsize⟩
    · rw [hread]
      exact .inr (.inl ⟨position, rfl, h⟩)
    · rw [hread]
      exact .inr (.inr ⟨position, rfl, h⟩)

/-- A text is read as `e` exactly if its tokens are derivable for `e` and `e` keeps within the
limits. -/
theorem parse_eq_ok_iff {text : String} {e : Expr} :
    Expr.parse text = .ok e ↔
      ((Token.stream (normalize text)).fault? = none ∧
        Sentence (Token.stream (normalize text)).tokens e) ∧
      e.depth ≤ maxDepth ∧ e.height ≤ maxHeight := by
  have hread := @parseWithin_of_sentence .standard (by decide) text e
  constructor
  · intro h
    obtain ⟨hfault, hfilter⟩ := sentence_of_parseWithin h
    refine ⟨⟨hfault, hfilter⟩, ?_⟩
    -- what has been read is no error, so no limit has been passed
    rcases hread hfault hfilter with ⟨-, hsize⟩ | ⟨position, herror, -⟩ | ⟨position, herror, -⟩
    · exact hsize
    · cases h.symm.trans herror
    · cases h.symm.trans herror
  · intro h
    obtain ⟨⟨hfault, hfilter⟩, hdepth, hheight⟩ := h
    rcases hread hfault hfilter with ⟨hok, -⟩ | ⟨position, -, hdeep⟩ | ⟨position, -, hlarge⟩
    · exact hok
    · exact absurd hdepth (Nat.not_le_of_lt hdeep)
    · exact absurd hheight (Nat.not_le_of_lt hlarge)

/-- Derivable tokens are refused only because of a limit. -/
theorem parse_of_sentence {text : String} {e : Expr}
    (hfault : (Token.stream (normalize text)).fault? = none)
    (h : Sentence (Token.stream (normalize text)).tokens e) :
    Expr.parse text = .ok e ∨
      (∃ position, Expr.parse text = .error (.tooDeep position) ∧ maxDepth < e.depth) ∨
      ∃ position, Expr.parse text = .error (.tooLarge position) ∧ maxHeight < e.height :=
  (@parseWithin_of_sentence .standard (by decide) text e hfault h).imp_left And.left

/-- A text is read as `e` exactly if its tokens are derivable for `e` and `e` keeps within the
limits; derivable tokens are refused only because of a limit, and they stand for one tree. -/
theorem parse_iff_sentence (text : String) (e : Expr) :
    (Expr.parse text = .ok e ↔
      ((Token.stream (normalize text)).fault? = none ∧
        Sentence (Token.stream (normalize text)).tokens e) ∧
      e.depth ≤ maxDepth ∧ e.height ≤ maxHeight) ∧
    ((Token.stream (normalize text)).fault? = none →
      Sentence (Token.stream (normalize text)).tokens e →
      Expr.parse text = .ok e ∨
        (∃ position, Expr.parse text = .error (.tooDeep position) ∧ maxDepth < e.depth) ∨
        ∃ position, Expr.parse text = .error (.tooLarge position) ∧ maxHeight < e.height) ∧
    ∀ e', Sentence (Token.stream (normalize text)).tokens e →
      Sentence (Token.stream (normalize text)).tokens e' → e = e' :=
  ⟨parse_eq_ok_iff, parse_of_sentence, fun _ => Sentence.unique⟩

/-- A result that has a value is that value. -/
theorem eq_ok_of_toOption {ε α : Type} {result : Except ε α} {x : α}
    (h : result.toOption = some x) : result = .ok x := by
  cases result with
  | error e => cases h
  | ok y => cases h; rfl

/-- A text with both connectives, a group, a negated list, strings that touch and a sign. -/
theorem parse_iff_sentence_nested :
    Expr.parse "a == 1 or (b nin ['x' \x22y\x22, true] && c.d > -2)" = .ok
      (.join .or (.comparison (.field "a") .equal (.integer 1))
        (.group (.join .and (.membership (.field "b") true ⟨.text "xy", [.boolean true]⟩)
          (.comparison (.nested "c" "d") .greater (.integer (-2)))))) ∧
    Sentence (Token.stream (normalize
        "a == 1 or (b nin ['x' \x22y\x22, true] && c.d > -2)")).tokens
      (.join .or (.comparison (.field "a") .equal (.integer 1))
        (.group (.join .and (.membership (.field "b") true ⟨.text "xy", [.boolean true]⟩)
          (.comparison (.nested "c" "d") .greater (.integer (-2)))))) := by
  refine and_iff_left_of_imp (fun h => ((parse_iff_sentence _ _).1.1 h).1.2) |>.2 ?_
  exact eq_ok_of_toOption (by decide +kernel)

end MetadataFilter
