import MetadataFilter.Proofs.Grammar.Feed

/-!
# What tokens say

Tokens that are spelt differently can say the same: a keyword has several spellings, NIN is short
for NOT IN, and how far apart tokens stand does not matter unless two strings touch. `symbols` is
what is left of tokens without their spelling and places, and `seams` tells which neighbouring
strings touch. `Paraphrase` relates feeds that say the same from their first token on.

## Key results

- `paraphrase_of_symbols`: tokens with the same symbols and seams are paraphrases
- `Paraphrase.kind_cases`: paraphrases start with the same kind of token, or with two spellings of
  a negation
-/

namespace MetadataFilter

namespace Token

/-- What a token says: a truth value, a name or constant as it is spelt, or, for keywords and marks,
just its kind. -/
inductive Symbol where
  | mark (kind : Kind)
  | truth (value : Bool)
  | word (kind : Kind) (lexeme : String)
deriving DecidableEq

/-- What a token says. NIN says the same as NOT and IN. -/
def symbols (t : Token) : List Symbol :=
  match t.kind with
  | .ninWord => [.mark .notWord, .mark .inWord]
  | .boolean => [.truth (t.lexeme.map Char.toLower = "true")]
  | .identifier => [.word .identifier t.lexeme]
  | .quotedString => [.word .quotedString t.lexeme]
  | .integer => [.word .integer t.lexeme]
  | .decimal => [.word .decimal t.lexeme]
  | kind => [.mark kind]

/-- Whether the token `next` starts where `t` ends. -/
def touches (t next : Token) : Bool :=
  t.position.offset + t.lexeme.utf8ByteSize = next.position.offset

/-- For all neighbours that are both strings, whether they touch. -/
def seams : List Token → List Bool
  | t :: next :: ts =>
    if t.kind = .quotedString ∧ next.kind = .quotedString then
      t.touches next :: seams (next :: ts)
    else seams (next :: ts)
  | _ => []

/-- Two tokens that say the same, one for one. -/
structure Synonym (t u : Token) : Prop where
  kind_eq : t.kind = u.kind
  symbols_eq : t.symbols = u.symbols

/-- Names and constants that say the same are spelt the same, booleans apart. -/
theorem Synonym.lexeme_eq {t u : Token} (h : t.Synonym u)
    (hk : t.kind = .identifier ∨ t.kind = .quotedString ∨ t.kind = .integer ∨
      t.kind = .decimal) : t.lexeme = u.lexeme := by
  have hsymbols := h.symbols_eq
  rcases hk with hk | hk | hk | hk
  all_goals
    simp only [symbols, hk, ← h.kind_eq, List.cons.injEq, Symbol.word.injEq] at hsymbols
    exact hsymbols.1.2

/-- Two truth values that say the same are the same. -/
theorem Synonym.truth_eq {t u : Token} (h : t.Synonym u) (hk : t.kind = .boolean) :
    (t.lexeme.map Char.toLower = "true") = (u.lexeme.map Char.toLower = "true") := by
  have hsymbols := h.symbols_eq
  simp only [symbols, hk, ← h.kind_eq, List.cons.injEq, Symbol.truth.injEq,
    decide_eq_decide] at hsymbols
  exact propext hsymbols.1

/-- The two words that can start a negated membership test. -/
def Kind.Negates (kind : Kind) : Prop := kind = .ninWord ∨ kind = .notWord

instance (kind : Kind) : Decidable kind.Negates := inferInstanceAs (Decidable (_ ∨ _))

/-- What two tokens say starts alike if they are synonyms, or if one of them is NIN and the other
NOT. -/
theorem symbols_append_cases {t u : Token} {ss ss' : List Symbol}
    (h : t.symbols ++ ss = u.symbols ++ ss') :
    (t.Synonym u ∧ ss = ss') ∨
      (t.kind = .ninWord ∧ u.kind = .notWord ∧ .mark .inWord :: ss = ss') ∨
      (t.kind = .notWord ∧ u.kind = .ninWord ∧ ss = .mark .inWord :: ss') := by
  by_cases hkind : t.kind = u.kind
  · -- of one kind, both tokens say equally many things
    have hlength : t.symbols.length = u.symbols.length := by
      unfold symbols
      rw [← hkind]
      split <;> rfl
    obtain ⟨hsymbols, hrest⟩ := List.append_inj h hlength
    exact .inl ⟨⟨hkind, hsymbols⟩, hrest⟩
  -- of different kinds only NIN and NOT say things that start alike
  · unfold symbols at h
    split at h <;> split at h <;> simp_all

/-- Every token says something. -/
theorem symbols_append_ne_nil (t : Token) (ss : List Symbol) : t.symbols ++ ss ≠ [] := by
  unfold symbols
  split <;> simp

/-- What says IN first is the word IN. -/
theorem exists_inWord {ts : List Token} {ss : List Symbol}
    (h : ts.flatMap symbols = .mark .inWord :: ss) :
    ∃ i us, ts = i :: us ∧ i.kind = .inWord ∧ us.flatMap symbols = ss := by
  cases ts with
  | nil => cases h
  | cons i us =>
    rw [List.flatMap_cons] at h
    have hi : i.kind = .inWord := by
      unfold symbols at h
      split at h <;> simp_all
    have hsymbols : i.symbols = [.mark .inWord] := by simp [symbols, hi]
    rw [hsymbols] at h
    exact ⟨i, us, rfl, hi, List.tail_eq_of_cons_eq h⟩

/-- A token that is no string has no seam with the next one. -/
theorem seams_cons_of_ne {t : Token} {ts : List Token} (h : t.kind ≠ .quotedString) :
    seams (t :: ts) = seams ts := by
  cases ts with
  | nil => rfl
  | cons u us => rw [seams, if_neg fun hk => h hk.1]

/-- A token that is no string adds no seam at the end. -/
theorem seams_concat_of_ne (ts : List Token) {t : Token} (h : t.kind ≠ .quotedString) :
    seams (ts ++ [t]) = seams ts := by
  induction ts with
  | nil => exact seams_cons_of_ne h
  | cons u us ih =>
    cases us with
    | nil => exact if_neg fun hk => h hk.2
    | cons v vs =>
      show seams (u :: v :: (vs ++ [t])) = seams (u :: v :: vs)
      rw [seams, seams]
      split
      · exact congrArg _ ih
      · exact ih

/-- Two strings have one seam, any other two tokens have none. -/
theorem length_seams_pair (t next : Token) :
    (seams [t, next]).length =
      if t.kind = .quotedString ∧ next.kind = .quotedString then 1 else 0 := by
  simp only [seams]
  split <;> rfl

end Token

namespace Expr.Parser

open Feed

/-- Feeds that say the same from their first token on. Strings that touch in one of them touch in
the other. -/
inductive Paraphrase : Feed → Feed → Prop
  | done (p q : Position) : Paraphrase (.done p) (.done q)
  | next {t u : Token} {feed feed' : Feed} (same : t.Synonym u)
      (seam : Token.seams [t, feed.current] = Token.seams [u, feed'.current])
      (rest : Paraphrase feed feed') : Paraphrase (prepend [t] feed) (prepend [u] feed')
  /-- NIN stands for NOT IN. -/
  | shorter {n o i : Token} {feed feed' : Feed} (nin : n.kind = .ninWord) (not : o.kind = .notWord)
      (among : i.kind = .inWord) (rest : Paraphrase feed feed') :
      Paraphrase (prepend [n] feed) (prepend [o, i] feed')
  /-- NOT IN stands for NIN. -/
  | longer {n o i : Token} {feed feed' : Feed} (nin : n.kind = .ninWord) (not : o.kind = .notWord)
      (among : i.kind = .inWord) (rest : Paraphrase feed feed') :
      Paraphrase (prepend [o, i] feed) (prepend [n] feed')

/-- Paraphrases start with the same kind of token, or with two spellings of a negation. -/
theorem Paraphrase.kind_cases {feed feed' : Feed} (h : Paraphrase feed feed') :
    feed.current.kind = feed'.current.kind ∨
      feed.current.kind.Negates ∧ feed'.current.kind.Negates := by
  cases h with
  | done p q => exact .inl rfl
  | next same => exact .inl same.kind_eq
  | shorter nin not => exact .inr ⟨.inl nin, .inr not⟩
  | longer nin not => exact .inr ⟨.inr not, .inl nin⟩

/-- The seams of a list are the first one, if there is any, and those of the rest. -/
theorem seams_cons (t : Token) (ts : List Token) (p : Position) :
    Token.seams (t :: ts) =
      Token.seams [t, (prepend ts (.done p)).current] ++ Token.seams ts := by
  cases ts with
  | nil =>
    have hend : ¬ (t.kind = .quotedString ∧ (Token.endOfInput p).kind = .quotedString) :=
      fun h => nomatch h.2
    show [] = Token.seams [t, .endOfInput p] ++ []
    rw [Token.seams, if_neg hend]
    rfl
  | cons next ts =>
    show Token.seams (t :: next :: ts) = Token.seams [t, next] ++ Token.seams (next :: ts)
    simp only [Token.seams]
    split <;> rfl

/-- Where the symbols are the same, a string comes next in both feeds or in neither. -/
theorem isString_iff {ts us : List Token} (p q : Position)
    (h : ts.flatMap Token.symbols = us.flatMap Token.symbols) :
    (prepend ts (.done p)).current.kind = .quotedString ↔
      (prepend us (.done q)).current.kind = .quotedString := by
  -- every token says something, so either both lists are empty or none is
  cases ts with
  | nil =>
    cases us with
    | nil => exact Iff.rfl
    | cons u us => exact absurd h.symm (Token.symbols_append_ne_nil u _)
  | cons t ts =>
    cases us with
    | nil => exact absurd h (Token.symbols_append_ne_nil t _)
    | cons u us =>
      rw [List.flatMap_cons, List.flatMap_cons] at h
      simp only [current_prepend_cons]
      rcases Token.symbols_append_cases h with ⟨hsame, -⟩ | ⟨ht, hu, -⟩ | ⟨ht, hu, -⟩
      · rw [hsame.kind_eq]
      · simp [ht, hu]
      · simp [ht, hu]

/-- Tokens with the same symbols and seams are paraphrases. -/
theorem paraphrase_of_symbols {ts us : List Token} (p q : Position)
    (hsymbols : ts.flatMap Token.symbols = us.flatMap Token.symbols)
    (hseams : Token.seams ts = Token.seams us) :
    Paraphrase (prepend ts (.done p)) (prepend us (.done q)) := by
  -- NOT IN takes two tokens away at once
  induction hn : ts.length using Nat.strongRecOn generalizing ts us with
  | ind n ih =>
    subst hn
    cases ts with
    | nil =>
      cases us with
      | nil => exact .done p q
      | cons u us => exact absurd hsymbols.symm (Token.symbols_append_ne_nil u _)
    | cons t ts =>
      cases us with
      | nil => exact absurd hsymbols (Token.symbols_append_ne_nil t _)
      | cons u us =>
        rw [List.flatMap_cons, List.flatMap_cons] at hsymbols
        rcases Token.symbols_append_cases hsymbols with
          ⟨hsame, hrest⟩ | ⟨ht, hu, hrest⟩ | ⟨ht, hu, hrest⟩
        · -- the seam with the next token is told apart from those behind it
          rw [seams_cons t ts p, seams_cons u us q] at hseams
          have hlength : (Token.seams [t, (prepend ts (.done p)).current]).length =
              (Token.seams [u, (prepend us (.done q)).current]).length := by
            simp only [Token.length_seams_pair, hsame.kind_eq, isString_iff p q hrest]
          obtain ⟨hseam, htail⟩ := List.append_inj hseams hlength
          exact .next hsame hseam (ih _ (by simp) hrest htail rfl)
        -- NIN stands for two tokens on the other side, neither of which is a string
        · obtain ⟨i, us, rfl, hi, hrest⟩ := Token.exists_inWord hrest.symm
          rw [Token.seams_cons_of_ne (by simp [ht]), Token.seams_cons_of_ne (by simp [hu]),
            Token.seams_cons_of_ne (by simp [hi])] at hseams
          exact .shorter ht hu hi (ih _ (by simp) hrest.symm hseams rfl)
        -- the same with the two sides exchanged
        · obtain ⟨i, ts, rfl, hi, hrest⟩ := Token.exists_inWord hrest
          have hstring : Token.seams (t :: i :: ts) = Token.seams ts := by
            rw [Token.seams_cons_of_ne (by simp [ht]), Token.seams_cons_of_ne (by simp [hi])]
          rw [hstring, Token.seams_cons_of_ne (by simp [hu])] at hseams
          exact .longer hu ht hi (ih _ (by simp only [List.length_cons]; omega) hrest hseams rfl)

end Expr.Parser

end MetadataFilter
