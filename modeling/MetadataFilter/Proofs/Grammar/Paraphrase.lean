import MetadataFilter.Proofs.Grammar.FailFast
import MetadataFilter.Proofs.Token.Symbols

/-!
# Spelling and spacing do not matter

Readers go on alike from feeds that say the same: both succeed with the same result and leave feeds
that say the same, or both fail with the same kind of error. `Agree` says so for two results, with
the relation that holds between the values. Places of tokens are read in one spot only, where two
strings may touch.

## Key results

- `Agree.bind`, `Agree.peek_bind`, `Agree.peek_ite`: readers in a row
- `value_agree`, `key_agree`, `predicate_agree`: the parts of a test
- `orExpr_agree`: whole expressions, by induction on the parentheses that may be open
- `parse_paraphrase`: texts that say the same are read as the same filter, or refused for the same
  kind of reason
-/

namespace MetadataFilter

/-- Errors of the same kind: about a token that does not fit, for the same reason, or about the same
limit. -/
inductive FilterError.SameKind : FilterError → FilterError → Prop
  | parse {e e' : ParseError} (reason_eq : e.reason = e'.reason) : SameKind (.parse e) (.parse e')
  | tooDeep (p q : Position) : SameKind (.tooDeep p) (.tooDeep q)
  | tooLarge (p q : Position) : SameKind (.tooLarge p) (.tooLarge q)

namespace Expr.Parser

open Feed

/-- Two results that agree: related values with feeds that say the same behind them, or errors of
the same kind. -/
inductive Agree {α β : Type} (R : α → β → Prop) :
    Except FilterError (α × Feed) → Except FilterError (β × Feed) → Prop
  | ok {x : α} {y : β} {feed feed' : Feed} (value : R x y) (rest : Paraphrase feed feed') :
      Agree R (.ok (x, feed)) (.ok (y, feed'))
  | error {e e' : FilterError} (same : e.SameKind e') : Agree R (.error e) (.error e')

/-! ### Readers in a row -/

section

variable {α β : Type} {R : α → α → Prop} {S : β → β → Prop} {feed feed' : Feed}

/-- A value that is given without reading leaves both feeds as they are. -/
theorem Agree.pure (x : α) (h : Paraphrase feed feed') :
    Agree Eq ((Pure.pure x : Reader α) feed) ((Pure.pure x : Reader α) feed') :=
  .ok rfl h

/-- Results that agree in a stronger sense agree in a weaker one. -/
theorem Agree.mono {R' : α → α → Prop} {r r' : Except FilterError (α × Feed)} (h : Agree R r r')
    (hmono : ∀ x y, R x y → R' x y) : Agree R' r r' := by
  cases h with
  | ok value rest => exact .ok (hmono _ _ value) rest
  | error same => exact .error same

/-- Readers in a row agree if each of them does. -/
theorem Agree.bind {r r' : Reader α} {k k' : α → Reader β} (hr : Agree R (r feed) (r' feed'))
    (hk : ∀ x y next next', r feed = .ok (x, next) → R x y → Paraphrase next next' →
      Agree S (k x next) (k' y next')) : Agree S ((r >>= k) feed) ((r' >>= k') feed') := by
  generalize hx : r feed = result at hr
  generalize hy : r' feed' = result' at hr
  cases hr with
  | ok value rest =>
    rw [bind_of_ok hx, bind_of_ok hy]
    exact hk _ _ _ _ hx value rest
  | error same =>
    rw [bind_of_error hx, bind_of_error hy]
    exact .error same

/-- A decision on the kind of the next token: it is the same in both feeds, or they start with two
spellings of a negation. -/
theorem Agree.peek_bind {k k' : Token.Kind → Reader α} (h : Paraphrase feed feed')
    (same : feed.current.kind = feed'.current.kind →
      Agree R (k feed.current.kind feed) (k' feed.current.kind feed'))
    (negated : ∀ kind kind', kind.Negates → kind'.Negates →
      Agree R (k kind feed) (k' kind' feed')) :
    Agree R ((peek >>= k) feed) ((peek >>= k') feed') := by
  rw [Parser.peek_bind, Parser.peek_bind]
  rcases h.kind_cases with hkind | ⟨hleft, hright⟩
  · rw [← hkind]
    exact same hkind
  · exact negated _ _ hleft hright

/-- A decision whether a token comes next that is no negation. -/
theorem Agree.peek_ite {kind : Token.Kind} {r s r' s' : Reader α} (h : Paraphrase feed feed')
    (hkind : ¬ kind.Negates)
    (hr : feed.current.kind = kind → feed.current.kind = feed'.current.kind →
      Agree R (r feed) (r' feed'))
    (hs : Agree R (s feed) (s' feed')) :
    Agree R ((do if (← peek) = kind then r else s : Reader α) feed)
      ((do if (← peek) = kind then r' else s' : Reader α) feed') := by
  refine .peek_bind h (fun hsame => ?_) fun left right hleft hright => ?_
  · split
    · next hfeed => exact hr hfeed hsame
    · exact hs
  -- a negation is spelled in two ways, but the kind looked for is neither of them
  · have hne : ∀ negation : Token.Kind, negation.Negates → negation ≠ kind := by
      rintro negation hnegation rfl
      exact hkind hnegation
    rw [if_neg (hne left hleft), if_neg (hne right hright)]
    exact hs

/-- A token is refused in both feeds. -/
theorem Agree.noViableAlternative (kinds kinds' : List Token.Kind) :
    Agree R ((noViableAlternative kinds : Reader α) feed)
      ((noViableAlternative kinds' : Reader α) feed') :=
  .error (.parse rfl)

/-- So is a token that had to be another one. -/
theorem Agree.mismatchedInput (kinds kinds' : List Token.Kind) :
    Agree R ((mismatchedInput kinds : Reader α) feed)
      ((mismatchedInput kinds' : Reader α) feed') :=
  .error (.parse rfl)

/-- Tokens of one kind that are taken are synonyms. -/
theorem advance_agree (h : Paraphrase feed feed') (hk : feed.current.kind = feed'.current.kind) :
    Agree (fun t u => t = feed.current ∧ t.Synonym u) (advance feed) (advance feed') := by
  cases h with
  | done p q => exact .ok ⟨rfl, rfl, rfl⟩ (.done p q)
  | next same seam rest =>
    rw [advance_prepend, advance_prepend]
    exact .ok ⟨rfl, same⟩ rest
  | shorter nin not => exact absurd (nin.symm.trans (hk.trans not)) (by simp)
  | longer nin not => exact absurd (not.symm.trans (hk.trans nin)) (by simp)

/-- A token that has to come next is taken from both feeds or missing in both. -/
theorem expect_agree {kind : Token.Kind} {kinds : List Token.Kind} (h : Paraphrase feed feed')
    (hkind : ¬ kind.Negates) :
    Agree (fun t u => t.kind = kind ∧ t.Synonym u) (expect kind kinds feed)
      (expect kind kinds feed') := by
  refine .peek_ite h hkind (fun hfeed hsame => ?_) (.mismatchedInput _ _)
  exact (advance_agree h hsame).mono fun t u ⟨ht, hsyn⟩ => ⟨ht ▸ hfeed, hsyn⟩

end

/-! ### Values -/

section

variable {feed feed' : Feed}

/-- A number and the same number are read alike. -/
theorem number_agree (negative : Bool) (h : Paraphrase feed feed')
    (hsame : feed.current.kind = feed'.current.kind)
    (hnumber : feed.current.kind = .integer ∨ feed.current.kind = .decimal) :
    Agree Eq (number negative feed) (number negative feed') := by
  refine .bind (advance_agree h hsame) fun t u next next' _ ⟨ht, hsyn⟩ hnext => ?_
  have hlexeme : t.lexeme = u.lexeme := by
    refine hsyn.lexeme_eq ?_
    rw [ht]
    exact .inr (.inr hnumber)
  rw [← hsyn.kind_eq, ← hlexeme]
  cases numberValue? t.kind negative t.lexeme.toList with
  | some v => exact .pure _ hnext
  | none => exact .error (.parse rfl)

/-- Behind a sign, both feeds go on alike. -/
theorem signed_agree (negative : Bool) (h : Paraphrase feed feed')
    (hsame : feed.current.kind = feed'.current.kind) :
    Agree Eq (value.signed negative feed) (value.signed negative feed') := by
  refine .bind (advance_agree h hsame) fun t u next next' _ _ hnext => ?_
  refine .peek_bind hnext (fun hsame => ?_) fun left right hleft hright => ?_
  · cases hk : next.current.kind
    case integer => exact number_agree negative hnext hsame (.inl hk)
    case decimal => exact number_agree negative hnext hsame (.inr hk)
    all_goals exact .noViableAlternative _ _
  · rcases hleft with rfl | rfl <;> rcases hright with rfl | rfl <;>
      exact .noViableAlternative _ _

/-- Strings that are spelt the same have the same between them if they touch in both feeds or in
neither. -/
theorem seam_eq {t u next next' : Token} (hsame : t.lexeme = u.lexeme)
    (hnext : next.lexeme = next'.lexeme) (htouch : t.touches next = u.touches next') :
    seam t next = seam u next' := by
  have htouch : t.position.offset + t.lexeme.utf8ByteSize = next.position.offset ↔
      u.position.offset + u.lexeme.utf8ByteSize = next'.position.offset := by
    simpa [Token.touches] using htouch
  rw [hsame] at htouch
  simp only [seam, htouch, hsame, hnext]

/-- The strings behind two strings that are synonyms are joined alike. -/
theorem moreStrings_agree {t u : Token} (hsyn : t.Synonym u) (hk : t.kind = .quotedString)
    (hseam : Token.seams [t, feed.current] = Token.seams [u, feed'.current])
    (h : Paraphrase feed feed') : Agree Eq (moreStrings t feed) (moreStrings u feed') := by
  -- each string becomes the previous one for the seam with the next
  induction h generalizing t u with
  | done p q =>
    rw [moreStrings_of_ne (by simp [current, Token.endOfInput]),
      moreStrings_of_ne (by simp [current, Token.endOfInput])]
    exact .ok rfl (.done p q)
  | @next next next' feed feed' hsyn' hseam' rest ih =>
    by_cases hnext : next.kind = .quotedString
    -- Synonyms are of one kind, so a string comes next in both feeds or in neither.
    · have hnext' : next'.kind = .quotedString := hsyn'.kind_eq ▸ hnext
      have huk : u.kind = .quotedString := hsyn.kind_eq ▸ hk
      have htouch : t.touches next = u.touches next' := by
        simpa [Token.seams, hk, huk, hnext, hnext'] using hseam
      have hlexeme : next.lexeme = next'.lexeme := hsyn'.lexeme_eq (.inr (.inl hnext))
      rw [moreStrings_cons [] feed hnext, moreStrings_cons [] feed' hnext', prepend_nil,
        prepend_nil, seam_eq (hsyn.lexeme_eq (.inr (.inl hk))) hlexeme htouch, hlexeme]
      have hmore := ih hsyn' hnext hseam'
      generalize moreStrings next feed = result, moreStrings next' feed' = result' at hmore ⊢
      cases hmore with
      | ok value last =>
        subst value
        exact .ok rfl last
      | error same => exact .error same
    · have hstop : (prepend [next] feed).current.kind ≠ .quotedString := hnext
      have hstop' : (prepend [next'] feed').current.kind ≠ .quotedString :=
        fun hk => hnext (hsyn'.kind_eq.trans hk)
      rw [moreStrings_of_ne hstop, moreStrings_of_ne hstop']
      exact .ok rfl (.next hsyn' hseam' rest)
  -- A negation is no string, however it is spelt, so the strings are over.
  | shorter nin not among rest =>
    rw [moreStrings_of_ne (by simp [nin]), moreStrings_of_ne (by simp [not])]
    exact .ok rfl (.shorter nin not among rest)
  | longer nin not among rest =>
    rw [moreStrings_of_ne (by simp [not]), moreStrings_of_ne (by simp [nin])]
    exact .ok rfl (.longer nin not among rest)

/-- Strings in a row are read alike. -/
theorem strings_agree (h : Paraphrase feed feed') (hk : feed.current.kind = .quotedString) :
    Agree Eq (strings feed) (strings feed') := by
  cases h with
  | done => cases hk
  | @next t u feed feed' hsyn hseam rest =>
    unfold strings
    rw [advance_bind, advance_bind, ← hsyn.lexeme_eq (.inr (.inl hk))]
    refine .bind (moreStrings_agree hsyn hk hseam rest) ?_
    rintro text _ next next' - rfl hnext
    exact .pure _ hnext
  | shorter nin => exact absurd (nin.symm.trans hk) (by simp)
  | longer _ not => exact absurd (not.symm.trans hk) (by simp)

/-- Values are read alike. -/
theorem value_agree (h : Paraphrase feed feed') : Agree Eq (value feed) (value feed') := by
  refine .peek_bind h (fun hsame => ?_) fun left right hleft hright => ?_
  -- Where the kinds are the same the same alternative is taken; two spellings of a negation start
  -- no value.
  · cases hk : feed.current.kind
    case minus => exact signed_agree true h hsame
    case plus => exact signed_agree false h hsame
    case integer => exact number_agree false h hsame (.inl hk)
    case decimal => exact number_agree false h hsame (.inr hk)
    case quotedString => exact strings_agree h hk
    case boolean =>
      refine .bind (advance_agree h hsame) fun t u next next' _ ⟨ht, hsyn⟩ hnext => ?_
      simp only [hsyn.truth_eq (ht ▸ hk)]
      exact .pure _ hnext
    all_goals exact .noViableAlternative _ _
  · rcases hleft with rfl | rfl <;> rcases hright with rfl | rfl <;>
      exact .noViableAlternative _ _

/-! ### Lists, keys and tests -/

/-- The values behind a value are read alike. -/
theorem moreValues_agree (h : Paraphrase feed feed') :
    Agree Eq (moreValues feed) (moreValues feed') := by
  -- every comma that is taken leaves fewer tokens
  induction hn : feed.size using Nat.strongRecOn generalizing feed feed' with
  | ind n ih =>
    rw [moreValues_eq]
    refine .peek_ite h (by decide) (fun hk hsame => ?_) (.pure _ h)
    refine .bind (advance_agree h hsame) fun t u next next' hadvance _ hnext => ?_
    refine .bind (value_agree hnext) ?_
    rintro v _ last last' hvalue rfl hlast
    have hsize : last.size < n := by
      have := size_of_advance hadvance
      have := @Feed.size_pos feed (by simp [hk])
      have := Shrinking.value _ _ _ hvalue
      omega
    refine .bind (ih _ hsize hlast rfl) ?_
    rintro vs _ feed feed' - rfl h
    exact .pure _ h

/-- Lists are read alike. -/
theorem valueList_agree (h : Paraphrase feed feed') :
    Agree Eq (valueList feed) (valueList feed') := by
  refine .bind (expect_agree h (by decide)) fun _ _ next next' _ _ hnext => ?_
  refine .bind (value_agree hnext) ?_
  rintro first _ next next' - rfl hnext
  refine .bind (moreValues_agree hnext) ?_
  rintro others _ next next' - rfl hnext
  exact .bind (expect_agree hnext (by decide)) fun _ _ _ _ _ _ hlast => .pure _ hlast

/-- Keys are read alike. -/
theorem key_agree (h : Paraphrase feed feed') : Agree Eq (key feed) (key feed') := by
  refine .peek_ite h (by decide) (fun hk hsame => ?_) ?_
  -- A quoted key has the same spelling in both texts, so it is empty in both or in neither.
  · refine .bind (advance_agree h hsame) fun t u next next' _ ⟨ht, hsyn⟩ hnext => ?_
    rw [← hsyn.lexeme_eq (.inr (.inl (ht ▸ hk)))]
    dsimp only
    split
    · exact .error (.parse rfl)
    · exact .pure _ hnext
  · refine .bind (expect_agree h (by decide)) fun parent parent' next next' _ ⟨hk, hsyn⟩ hnext => ?_
    rw [← hsyn.lexeme_eq (.inl hk)]
    refine .peek_ite hnext (by decide) (fun _ hsame => ?_) (.pure _ hnext)
    refine .bind (advance_agree hnext hsame) fun _ _ last last' _ _ hlast => ?_
    refine .bind (expect_agree hlast (by decide)) fun child child' _ _ _ ⟨hk, hsyn⟩ hrest => ?_
    rw [← hsyn.lexeme_eq (.inl hk)]
    exact .pure _ hrest

/-- Reads the list of a negated test, behind its words. -/
def negatedList (k : Key) : Reader Expr := do
  return .membership k true (← valueList)

/-- The list of a negated test is read alike. -/
theorem negatedList_agree (k : Key) (h : Paraphrase feed feed') :
    Agree Eq (negatedList k feed) (negatedList k feed') := by
  refine .bind (valueList_agree h) ?_
  rintro values _ next next' - rfl hnext
  exact .pure _ hnext

/-- Behind NIN, a predicate goes on with the list of a negated test. -/
theorem predicate_ninWord (k : Key) {n : Token} (hn : n.kind = .ninWord) (feed : Feed) :
    predicate k (prepend [n] feed) = negatedList k feed := by
  unfold predicate
  rw [peek_bind, current_prepend_cons, hn]
  exact advance_bind _ n [] feed

/-- Behind NOT IN it goes on with the same. -/
theorem predicate_notWord_inWord (k : Key) {o i : Token} (ho : o.kind = .notWord)
    (hi : i.kind = .inWord) (feed : Feed) :
    predicate k (prepend [o, i] feed) = negatedList k feed := by
  unfold predicate
  rw [peek_bind, current_prepend_cons, ho]
  refine (advance_bind _ o [i] feed).trans ?_
  rw [peek_bind, current_prepend_cons, hi, if_pos rfl]
  exact advance_bind _ i [] feed

/-- Membership tests with the same word are read alike. -/
theorem membership_agree (k : Key) (negated : Bool) (h : Paraphrase feed feed')
    (hsame : feed.current.kind = feed'.current.kind) :
    Agree Eq (predicate.membership k negated feed) (predicate.membership k negated feed') := by
  refine .bind (advance_agree h hsame) fun _ _ next next' _ _ hnext => ?_
  refine .bind (valueList_agree hnext) ?_
  rintro values _ last last' - rfl hlast
  exact .pure _ hlast

/-- Predicates are read alike, also where a negation is spelt in one word and in two. -/
theorem predicate_agree (k : Key) (h : Paraphrase feed feed') :
    Agree Eq (predicate k feed) (predicate k feed') := by
  by_cases hsame : feed.current.kind = feed'.current.kind
  · unfold predicate
    rw [peek_bind, peek_bind, ← hsame]
    cases hop : compareOp? feed.current.kind with
    | some op =>
      refine .bind (advance_agree h hsame) fun _ _ next next' _ _ hnext => ?_
      refine .bind (value_agree hnext) ?_
      rintro v _ last last' - rfl hlast
      exact .pure _ hlast
    | none =>
      -- no comparison: the word that comes next decides
      clear hop
      cases hk : feed.current.kind
      case inWord => exact membership_agree k false h hsame
      case ninWord => exact membership_agree k true h hsame
      case notWord =>
        refine .bind (advance_agree h hsame) fun _ _ next next' _ _ hnext => ?_
        exact .peek_ite hnext (by decide) (fun _ hsame => membership_agree k true hnext hsame)
          (.mismatchedInput _ _)
      all_goals exact .noViableAlternative _ _
  · -- one feed has NIN where the other has NOT IN
    cases h with
    | done p q => exact absurd rfl hsame
    | next same => exact absurd same.kind_eq hsame
    | shorter nin not among rest =>
      rw [predicate_ninWord k nin, predicate_notWord_inWord k not among]
      exact negatedList_agree k rest
    | longer nin not among rest =>
      rw [predicate_ninWord k nin, predicate_notWord_inWord k not among]
      exact negatedList_agree k rest

end

/-! ### Expressions -/

section

variable {limits : Limits} {feed feed' : Feed}

/-- A reader goes on alike from feeds that say the same. -/
def Insensitive {α : Type} (r : Reader α) : Prop :=
  ∀ {feed feed'}, Paraphrase feed feed' → Agree Eq (r feed) (r feed')

/-- The operands that follow are read alike if each operand is. -/
theorem moreOperands_agree {c : Connective} {operand : Reader Node}
    (hoperand : Insensitive operand) (deepest : Nat) (node : Node) :
    Insensitive (moreOperands limits c operand deepest node) := by
  -- every operand makes the run higher, and no run passes the limit
  induction hm : limits.height - node.height using Nat.strongRecOn generalizing deepest node with
  | ind m ih =>
    intro feed feed' h
    rw [moreOperands]
    refine .peek_ite h (by cases c <;> decide) (fun _ hsame => ?_) (.pure _ h)
    refine .bind (advance_agree h hsame) fun t u next next' _ _ hnext => ?_
    refine .bind (hoperand hnext) ?_
    rintro right _ last last' - rfl hlast
    dsimp only
    split
    · exact .error (.tooDeep _ _)
    · split
      · exact .error (.tooLarge _ _)
      · exact ih _ (by simp only; omega) _ _ rfl hlast

/-- A run is read alike if its operands are. -/
theorem chain_agree (c : Connective) {operand : Reader Node} (hoperand : Insensitive operand) :
    Insensitive (chain limits c operand) := by
  intro feed feed' h
  refine .bind (hoperand h) ?_
  rintro first _ next next' - rfl hnext
  exact moreOperands_agree hoperand _ _ hnext

/-- Parentheses are read alike if what stands inside them is. -/
theorem parenthesized_agree {inner : Option (Reader Node)} (hinner : ∀ r ∈ inner, Insensitive r)
    (h : Paraphrase feed feed') (hsame : feed.current.kind = feed'.current.kind) :
    Agree Eq (parenthesized limits inner feed) (parenthesized limits inner feed') := by
  refine .bind (advance_agree h hsame) fun t u next next' _ _ hnext => ?_
  cases inner with
  | none => exact .error (.tooDeep _ _)
  | some r =>
    refine .bind (hinner r rfl hnext) ?_
    rintro node _ last last' - rfl hlast
    refine .bind (expect_agree hlast (by decide)) fun _ _ _ _ _ _ hrest => ?_
    -- both limits are looked at after the closing parenthesis, and the node is the same on both
    -- sides
    split
    · exact .error (.tooDeep _ _)
    · split
      · exact .error (.tooLarge _ _)
      · exact .pure _ hrest

/-- An operand of AND is read alike if what stands in parentheses is. -/
theorem primary_agree {inner : Option (Reader Node)} (hinner : ∀ r ∈ inner, Insensitive r) :
    Insensitive (primary limits inner) := by
  intro feed feed' h
  have test : Agree Eq
      ((key >>= fun k => predicate k >>= fun e => pure ⟨e, 0, 1⟩ : Reader Node) feed)
      ((key >>= fun k => predicate k >>= fun e => pure ⟨e, 0, 1⟩ : Reader Node) feed') := by
    refine .bind (key_agree h) ?_
    rintro k _ next next' - rfl hnext
    refine .bind (predicate_agree k hnext) ?_
    rintro e _ last last' - rfl hlast
    exact .pure _ hlast
  -- a parenthesis, a key, or something that starts no operand
  refine .peek_bind h (fun hsame => ?_) fun left right hleft hright => ?_
  · cases hk : feed.current.kind
    case leftParen => exact parenthesized_agree hinner h hsame
    case identifier => exact test
    case quotedString => exact test
    all_goals exact .noViableAlternative _ _
  · rcases hleft with rfl | rfl <;> rcases hright with rfl | rfl <;>
      exact .noViableAlternative _ _

/-- Expressions are read alike, whatever the room for parentheses. -/
theorem orExpr_agree (room : Nat) : Insensitive (orExpr limits room) := by
  induction room with
  | zero => exact chain_agree .or (chain_agree .and (primary_agree fun r hr => by cases hr))
  | succ room ih =>
    refine chain_agree .or (chain_agree .and (primary_agree fun r hr => ?_))
    cases hr
    exact ih

/-- Whole filters are read alike. -/
theorem filter_agree : Insensitive (filter limits) := by
  intro feed feed' h
  refine .bind (expect_agree h (by decide)) fun _ _ next next' _ _ hnext => ?_
  refine .bind (orExpr_agree _ hnext) ?_
  rintro node _ last last' - rfl hlast
  exact .peek_ite hlast (by decide) (fun _ _ => .pure _ hlast) (.mismatchedInput _ _)

end

end Expr.Parser

open Text Expr.Parser Expr.Parser.Feed

/-- Two texts that say the same are read as the same filter, or refused for the same kind of
reason: their symbols are the same, in whatever spelling and with whatever blanks between them, and
strings that touch in one of them touch in the other. -/
theorem parse_paraphrase {text text' : String} (hblank : text.toList.all isBlank = false)
    (hblank' : text'.toList.all isBlank = false)
    (hfault : (Token.stream (normalize text)).fault? = none)
    (hfault' : (Token.stream (normalize text')).fault? = none)
    (hsymbols : (Token.stream (normalize text)).tokens.flatMap Token.symbols =
      (Token.stream (normalize text')).tokens.flatMap Token.symbols)
    (hseams : Token.seams (Token.stream (normalize text)).tokens =
      Token.seams (Token.stream (normalize text')).tokens) :
    (∃ e, Expr.parse text = .ok e ∧ Expr.parse text' = .ok e) ∨
      ∃ error error', Expr.parse text = .error error ∧ Expr.parse text' = .error error' ∧
        error.SameKind error' := by
  -- Both streams are their tokens in front of an end; symbols and seams of the ends are left out,
  -- which leaves the same for the tokens.
  obtain ⟨ts, p, htokens, hstream⟩ := stream_eq_prepend hfault
  obtain ⟨us, q, htokens', hstream'⟩ := stream_eq_prepend hfault'
  have hend : ∀ p, (Token.endOfInput p).kind ≠ .quotedString := by simp [Token.endOfInput]
  rw [htokens, htokens', Token.seams_concat_of_ne _ (hend p),
    Token.seams_concat_of_ne _ (hend q)] at hseams
  rw [htokens, htokens', List.flatMap_append, List.flatMap_append] at hsymbols
  have hsame := paraphrase_of_symbols p q (List.append_cancel_right hsymbols) hseams
  rw [parse_eq_filter hblank hstream, parse_eq_filter hblank' hstream']
  have hfilter : Agree Eq (filter .standard _) (filter .standard _) := filter_agree hsame
  generalize filter .standard (prepend ts (.done p)) = result,
    filter .standard (prepend us (.done q)) = result' at hfilter ⊢
  cases hfilter with
  | ok value rest =>
    subst value
    exact .inl ⟨_, rfl, rfl⟩
  | error same => exact .inr ⟨_, _, rfl, rfl, same⟩

/-- NIN for NOT IN, marks for words and fewer blanks, and strings that touch in both texts. -/
theorem parse_paraphrase_ninWord :
    ∃ e, Expr.parse "WHERE a NOT\tIN [1, 2] AND b == 'x''y'" = .ok e ∧
      Expr.parse "a nin [1,2]&&b=='x''y'" = .ok e := by
  have hread : (Expr.parse "a nin [1,2]&&b=='x''y'").toOption.isSome = true := by decide +kernel
  have hsame := @parse_paraphrase "WHERE a NOT\tIN [1, 2] AND b == 'x''y'"
    "a nin [1,2]&&b=='x''y'" (by decide +kernel) (by decide +kernel) (by decide +kernel)
    (by decide +kernel) (by decide +kernel) (by decide +kernel)
  refine hsame.resolve_right ?_
  rintro ⟨_, error', -, herror', -⟩
  rw [herror'] at hread
  cases hread

end MetadataFilter
