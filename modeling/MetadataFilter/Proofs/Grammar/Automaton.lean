import MetadataFilter.Proofs.Grammar.Soundness

/-!
# An automaton for filters

Whether tokens can be the front of a filter is decided from left to right, one token at a time. What
counts for the tokens to come is the spot in the grammar and the number of groups that are open.
`State.next?` says where a kind of token leads, `Spot.admits` which texts a token may have: a number
has to be in range, and a key needs characters. `State.expected` are the kinds that a message names
for a state.

## Key results

- `State.exists_step?_iff`: the kinds of token that can come next are the expected ones and the
  unlisted ones
- `State.exists_run_finish`: every state can be carried on to the end of a filter
-/

namespace MetadataFilter

/-- A token whose characters are that token when they are read alone. -/
def Token.Proper (t : Token) : Prop :=
  Token.front t.lexeme.toList = .token t.kind t.lexeme.toList

instance Token.decidableProper (t : Token) : Decidable t.Proper :=
  inferInstanceAs (Decidable (_ = _))

namespace Grammar

open Expr.Parser

/-- The spots in the grammar between two tokens. -/
inductive Spot where
  /-- Nothing has been read. -/
  | start
  /-- An operand has to come. -/
  | operand
  /-- An identifier has been read, which is a key or the first part of one. -/
  | word
  /-- The first part of a key and its point have been read. -/
  | parent
  /-- A whole key has been read. -/
  | key
  /-- A key and the word NOT have been read. -/
  | negation
  /-- A list has to come. -/
  | list
  /-- A value has to come, alone or in a list. -/
  | value (inList : Bool)
  /-- The sign of a number has been read. -/
  | sign (negative inList : Bool)
  /-- Strings have been read, and more of them may come. -/
  | strings (inList : Bool)
  /-- A value of a list is over, or else a whole operand. -/
  | ended (inList : Bool)
  /-- The end of the text has been read. -/
  | finish
deriving DecidableEq

/-- A spot in the grammar and the number of groups that are open there. -/
structure State where
  spot : Spot
  groups : Nat
deriving DecidableEq

/-- Where a kind of token leads after a key. -/
def afterKey : Token.Kind → Option Spot
  | .equal | .notEqual | .greater | .greaterEqual | .less | .lessEqual => some (.value false)
  | .inWord | .ninWord => some .list
  | .notWord => some .negation
  | _ => none

/-- Where a kind of token leads after a value of a list, or else after an operand. -/
def afterValue (inList : Bool) (groups : Nat) (kind : Token.Kind) : Option State :=
  match inList, kind, groups with
  | true, .comma, n => some ⟨.value true, n⟩
  | true, .rightBracket, n => some ⟨.ended false, n⟩
  | false, .andWord, n => some ⟨.operand, n⟩
  | false, .orWord, n => some ⟨.operand, n⟩
  | false, .rightParen, n + 1 => some ⟨.ended false, n⟩
  | false, .endOfInput, 0 => some ⟨.finish, 0⟩
  | _, _, _ => none

namespace State

/-- The state before the first token. -/
def start : State := ⟨.start, 0⟩

/-- The state after the end of a text. -/
def finish : State := ⟨.finish, 0⟩

/-- Where a kind of token leads. -/
def next? (s : State) (kind : Token.Kind) : Option State :=
  match s.spot with
  | .start => if kind = .whereWord then some ⟨.operand, s.groups⟩ else none
  | .operand =>
    match kind with
    | .leftParen => some ⟨.operand, s.groups + 1⟩
    | .identifier => some ⟨.word, s.groups⟩
    | .quotedString => some ⟨.key, s.groups⟩
    | _ => none
  | .word =>
    if kind = .dot then some ⟨.parent, s.groups⟩ else (afterKey kind).map (⟨·, s.groups⟩)
  | .parent => if kind = .identifier then some ⟨.key, s.groups⟩ else none
  | .key => (afterKey kind).map (⟨·, s.groups⟩)
  | .negation => if kind = .inWord then some ⟨.list, s.groups⟩ else none
  | .list => if kind = .leftBracket then some ⟨.value true, s.groups⟩ else none
  | .value inList =>
    match kind with
    | .minus => some ⟨.sign true inList, s.groups⟩
    | .plus => some ⟨.sign false inList, s.groups⟩
    | .integer | .decimal | .boolean => some ⟨.ended inList, s.groups⟩
    | .quotedString => some ⟨.strings inList, s.groups⟩
    | _ => none
  | .sign _ inList =>
    match kind with
    | .integer | .decimal => some ⟨.ended inList, s.groups⟩
    | _ => none
  | .strings inList =>
    if kind = .quotedString then some s else afterValue inList s.groups kind
  | .ended inList => afterValue inList s.groups kind
  | .finish => none

/-- The kinds of token that a message names for a state. -/
def expected (s : State) : List Token.Kind :=
  match s.spot with
  | .start => [.whereWord]
  | .operand => [.leftParen, .identifier, .quotedString]
  | .word | .key => predicateStart
  | .parent => [.identifier]
  | .negation => [.inWord]
  | .list => [.leftBracket]
  | .value _ => valueStart
  | .sign _ _ => [.integer, .decimal]
  | .strings true | .ended true => [.comma, .rightBracket]
  | .strings false | .ended false =>
    if s.groups = 0 then [.andWord, .orWord, .endOfInput] else [.rightParen, .andWord, .orWord]
  | .finish => []

/-- The kinds of token that can come next although no message names them: they carry on what has
been read last. -/
def unlisted (s : State) : List Token.Kind :=
  match s.spot with
  | .word => [.dot]
  | .strings _ => [.quotedString]
  | _ => []

/-! ### What a token can do -/

/-- A value of a list, or else an operand, is over or may go on with a string. -/
inductive Over (inList : Bool) (groups : Nat) : State → Prop
  | ended : Over inList groups ⟨.ended inList, groups⟩
  | strings : Over inList groups ⟨.strings inList, groups⟩

/-- A key is over or may go on with a point. -/
inductive Named (groups : Nat) : State → Prop
  | key : Named groups ⟨.key, groups⟩
  | word : Named groups ⟨.word, groups⟩

/-- `Next s kind s'`: a token of the kind leads from `s` to `s'`. There is one case for each thing
that a token can do. -/
inductive Next : State → Token.Kind → State → Prop
  | whereWord {n : Nat} : Next ⟨.start, n⟩ .whereWord ⟨.operand, n⟩
  | leftParen {n : Nat} : Next ⟨.operand, n⟩ .leftParen ⟨.operand, n + 1⟩
  | field {n : Nat} : Next ⟨.operand, n⟩ .identifier ⟨.word, n⟩
  | quotedKey {n : Nat} : Next ⟨.operand, n⟩ .quotedString ⟨.key, n⟩
  | dot {n : Nat} : Next ⟨.word, n⟩ .dot ⟨.parent, n⟩
  | child {n : Nat} : Next ⟨.parent, n⟩ .identifier ⟨.key, n⟩
  | comparison {n : Nat} {s : State} (named : Named n s) (op : CompareOp) :
      Next s (compareKind op) ⟨.value false, n⟩
  | inWord {n : Nat} {s : State} (named : Named n s) : Next s .inWord ⟨.list, n⟩
  | ninWord {n : Nat} {s : State} (named : Named n s) : Next s .ninWord ⟨.list, n⟩
  | notWord {n : Nat} {s : State} (named : Named n s) : Next s .notWord ⟨.negation, n⟩
  | inAfterNot {n : Nat} : Next ⟨.negation, n⟩ .inWord ⟨.list, n⟩
  | leftBracket {n : Nat} : Next ⟨.list, n⟩ .leftBracket ⟨.value true, n⟩
  | minus {n : Nat} {inList : Bool} :
      Next ⟨.value inList, n⟩ .minus ⟨.sign true inList, n⟩
  | plus {n : Nat} {inList : Bool} :
      Next ⟨.value inList, n⟩ .plus ⟨.sign false inList, n⟩
  | number {n : Nat} {inList : Bool} {kind : Token.Kind}
      (number : kind = .integer ∨ kind = .decimal) :
      Next ⟨.value inList, n⟩ kind ⟨.ended inList, n⟩
  | boolean {n : Nat} {inList : Bool} : Next ⟨.value inList, n⟩ .boolean ⟨.ended inList, n⟩
  | firstString {n : Nat} {inList : Bool} :
      Next ⟨.value inList, n⟩ .quotedString ⟨.strings inList, n⟩
  | signed {n : Nat} {negative inList : Bool} {kind : Token.Kind}
      (number : kind = .integer ∨ kind = .decimal) :
      Next ⟨.sign negative inList, n⟩ kind ⟨.ended inList, n⟩
  | moreStrings {n : Nat} {inList : Bool} :
      Next ⟨.strings inList, n⟩ .quotedString ⟨.strings inList, n⟩
  | comma {n : Nat} {s : State} (ends : Over true n s) : Next s .comma ⟨.value true, n⟩
  | rightBracket {n : Nat} {s : State} (ends : Over true n s) :
      Next s .rightBracket ⟨.ended false, n⟩
  | connective {n : Nat} {s : State} (ends : Over false n s) (c : Connective) :
      Next s (connectiveKind c) ⟨.operand, n⟩
  | rightParen {n : Nat} {s : State} (ends : Over false (n + 1) s) :
      Next s .rightParen ⟨.ended false, n⟩
  | endOfInput {s : State} (ends : Over false 0 s) : Next s .endOfInput finish

section

variable {inList : Bool} {groups : Nat} {s s' : State} {kind : Token.Kind}

/-- Where a value may be over, any token but a string leads on as after a value. -/
theorem Over.next?_eq (h : Over inList groups s) (hk : kind ≠ .quotedString) :
    s.next? kind = afterValue inList groups kind := by
  cases h with
  | ended => rfl
  | strings => exact if_neg hk

/-- Where a key may be over, any token but a point leads on as after a key. -/
theorem Named.next?_eq (h : Named groups s) (hk : kind ≠ .dot) :
    s.next? kind = (afterKey kind).map (⟨·, groups⟩) := by
  cases h with
  | key => rfl
  | word => exact if_neg hk

/-- What leads on after a key is a comparison operator or a word of a membership test. -/
theorem next_of_afterKey {spot : Spot} (named : Named groups s) (h : afterKey kind = some spot) :
    Next s kind ⟨spot, groups⟩ := by
  cases hop : compareOp? kind with
  | some op =>
    obtain rfl := compareOp?_eq_some_iff.1 hop
    obtain rfl : Spot.value false = spot := by cases op <;> exact Option.some.inj h
    exact .comparison named op
  | none =>
    -- The words of a membership test, one by one; no other kind starts a predicate.
    cases kind <;> cases h <;> cases hop
    · exact .inWord named
    · exact .ninWord named
    · exact .notWord named

/-- What leads on after a value is a comma or bracket in a list, else a connective, a closing
parenthesis or the end. -/
theorem next_of_afterValue (ends : Over inList groups s)
    (h : afterValue inList groups kind = some s') : Next s kind s' := by
  unfold afterValue at h
  split at h <;> cases h
  · exact .comma ends
  · exact .rightBracket ends
  · exact .connective ends .and
  · exact .connective ends .or
  · exact .rightParen ends
  · exact .endOfInput ends

/-- Where a kind of token leads is one of the things that a token can do. -/
theorem next_of_next? (h : s.next? kind = some s') : Next s kind s' := by
  obtain ⟨spot, groups⟩ := s
  -- Spots with one way on are read off at once; the others differ by what they can go on with.
  cases spot with
  | start | parent | list =>
    simp only [next?, Option.ite_none_right_eq_some, Option.some.injEq] at h
    obtain ⟨rfl, rfl⟩ := h
    constructor
  | negation =>
    simp only [next?, Option.ite_none_right_eq_some, Option.some.injEq] at h
    obtain ⟨rfl, rfl⟩ := h
    exact .inAfterNot
  -- a word can go on with a point, and is a whole key before anything else
  | word =>
    by_cases hk : kind = .dot
    · subst hk
      cases h
      exact .dot
    · rw [Named.word.next?_eq hk, Option.map_eq_some_iff] at h
      obtain ⟨spot, hspot, rfl⟩ := h
      exact next_of_afterKey .word hspot
  | key =>
    obtain ⟨spot, hspot, rfl⟩ := Option.map_eq_some_iff.1 h
    exact next_of_afterKey .key hspot
  -- an operand starts with a parenthesis or with a key
  | operand => cases kind <;> cases h <;> constructor
  | value inList =>
    cases kind <;> cases h
    · exact .minus
    · exact .plus
    · exact .boolean
    · exact .firstString
    · exact .number (.inl rfl)
    · exact .number (.inr rfl)
  | sign negative inList =>
    cases kind <;> cases h
    · exact .signed (.inl rfl)
    · exact .signed (.inr rfl)
  -- a string can go on with another one, and is a whole value before anything else
  | strings =>
    by_cases hk : kind = .quotedString
    · subst hk
      cases h
      exact .moreStrings
    · rw [Over.strings.next?_eq hk] at h
      exact next_of_afterValue .strings h
  | ended => exact next_of_afterValue .ended h
  | finish => cases h

/-- What a token can do is where it leads, so that the relation and the function agree. -/
theorem Next.next?_eq (h : Next s kind s') : s.next? kind = some s' := by
  cases h with
  -- Operators and connectives are taken kind by kind, since `next?` looks at the kind.
  | comparison named op =>
    rw [named.next?_eq (by cases op <;> simp [compareKind])]
    cases op <;> rfl
  | inWord named | ninWord named | notWord named =>
    rw [named.next?_eq (by simp)]
    rfl
  | comma ends | rightBracket ends | rightParen ends | endOfInput ends =>
    rw [ends.next?_eq (by simp)]
    rfl
  | connective ends c =>
    rw [ends.next?_eq (by cases c <;> simp [connectiveKind])]
    cases c <;> rfl
  | number number | signed number => rcases number with rfl | rfl <;> rfl
  | _ => rfl

end

end State

/-- Whether a number is in range with its sign. Other tokens are. -/
def inRange (negative : Bool) (t : Token) : Bool :=
  match t.kind with
  | .integer | .decimal => (numberValue? t.kind negative t.lexeme.toList).isSome
  | _ => true

/-- Whether a number at a spot has a minus in front of it, if a number can stand there. -/
def Spot.negative? : Spot → Option Bool
  | .value _ => some false
  | .sign negative _ => some negative
  | _ => none

/-- Whether a token may have its text at a spot: a number has to be in range, and a key needs
characters. -/
def Spot.admits (spot : Spot) (t : Token) : Bool :=
  match spot with
  | .operand => t.kind ≠ .quotedString || Text.unquote t.lexeme.toList ≠ []
  | .value _ => inRange false t
  | .sign negative _ => inRange negative t
  | _ => true

/-- Where a number can stand, it has to be in range with the sign that is in front of it. -/
theorem Spot.admits_of_negative? {spot : Spot} {negative : Bool}
    (h : spot.negative? = some negative) (t : Token) : spot.admits t = inRange negative t := by
  cases spot <;> cases h <;> rfl

/-- A number is in range where it has a value. -/
theorem inRange_of_kind {negative : Bool} {t : Token} (hk : t.kind = .integer ∨ t.kind = .decimal) :
    inRange negative t = (numberValue? t.kind negative t.lexeme.toList).isSome := by
  rcases hk with hk | hk <;> simp only [inRange, hk]

namespace State

/-- Where a token leads. -/
def step? (s : State) (t : Token) : Option State :=
  if s.spot.admits t then s.next? t.kind else none

/-- Where some tokens lead. -/
def run? (s : State) (ts : List Token) : Option State := ts.foldlM step? s

section

variable {s s' s'' : State} {t : Token} {ts us : List Token}

/-- A token leads on if it is admitted with its text and its kind leads on. -/
theorem step?_eq_some_iff :
    s.step? t = some s' ↔ s.spot.admits t = true ∧ s.next? t.kind = some s' := by
  unfold step?
  split <;> simp_all

@[simp] theorem run?_nil : s.run? [] = some s := rfl

@[simp] theorem run?_cons : s.run? (t :: ts) = (s.step? t).bind (·.run? ts) := rfl

/-- What a kind of token can do is done by a token that is admitted. -/
theorem Next.step?_eq {kind : Token.Kind} (h : Next s kind s') (hk : t.kind = kind)
    (hadmits : s.spot.admits t = true) : s.step? t = some s' :=
  step?_eq_some_iff.2 ⟨hadmits, hk ▸ h.next?_eq⟩

/-- Where a value may be over no token is refused for its text. -/
theorem Over.admits {inList : Bool} {n : Nat} (h : Over inList n s) (t : Token) :
    s.spot.admits t = true := by
  cases h <;> rfl

/-- Nor is any where a key may be over. -/
theorem Named.admits {n : Nat} (h : Named n s) (t : Token) : s.spot.admits t = true := by
  cases h <;> rfl

/-- Tokens in two parts lead where the second part leads from where the first one does. -/
theorem run?_append : s.run? (ts ++ us) = (s.run? ts).bind (·.run? us) := by
  simp only [run?, List.foldlM_append]
  rfl

/-- The same, if it is known where the first part leads. -/
theorem run?_append_of_eq (h : s.run? ts = some s') : s.run? (ts ++ us) = s'.run? us := by
  rw [run?_append, h]
  rfl

/-- And with one more token. -/
theorem run?_concat_of_eq (h : s.run? ts = some s') : s.run? (ts ++ [t]) = s'.step? t := by
  rw [run?_append_of_eq h, run?_cons]
  cases s'.step? t <;> rfl

/-- The front of tokens that lead somewhere leads somewhere. -/
theorem exists_of_run?_append (h : s.run? (ts ++ us) = some s'') :
    ∃ s', s.run? ts = some s' ∧ s'.run? us = some s'' := by
  rw [run?_append] at h
  exact Option.bind_eq_some_iff.1 h

end

/-! ### Which tokens can come next -/

/-- A token of a kind. Strings and numbers are such that they can stand wherever their kind can. -/
def sample (kind : Token.Kind) : Token where
  kind
  lexeme := match kind with
    | .whereWord => "WHERE" | .andWord => "AND" | .orWord => "OR"
    | .inWord => "IN" | .ninWord => "NIN" | .notWord => "NOT"
    | .dot => "." | .comma => "," | .leftBracket => "[" | .rightBracket => "]"
    | .leftParen => "(" | .rightParen => ")"
    | .equal => "==" | .notEqual => "!=" | .greater => ">" | .greaterEqual => ">="
    | .less => "<" | .lessEqual => "<=" | .minus => "-" | .plus => "+"
    | .boolean => "true" | .quotedString => "'x'" | .integer => "1" | .decimal => "0.5"
    | .identifier => "a" | .endOfInput => ""
  position := .start

/-- The samples are tokens. -/
theorem proper_sample (kind : Token.Kind) : (sample kind).Proper := by
  cases kind <;> decide +kernel

/-- A sample is in range, with and without a minus. -/
theorem inRange_sample (negative : Bool) (kind : Token.Kind) :
    inRange negative (sample kind) = true := by
  cases negative <;> cases kind <;> decide +kernel

/-- A sample is admitted at every spot. -/
theorem admits_sample (spot : Spot) (kind : Token.Kind) : spot.admits (sample kind) = true := by
  cases spot with
  | operand => cases kind <;> decide
  | value | sign => exact inRange_sample _ kind
  | _ => rfl

/-- A sample leads where its kind leads. -/
theorem step?_sample (s : State) (kind : Token.Kind) : s.step? (sample kind) = s.next? kind :=
  if_pos (admits_sample s.spot kind)

/-- The kinds that lead on after a key are those that start a predicate. -/
theorem afterKey_isSome_iff (kind : Token.Kind) :
    (afterKey kind).isSome ↔ kind ∈ predicateStart := by
  cases kind <;> decide

/-- The kinds that lead on after a value are those that are expected there. -/
theorem afterValue_isSome_iff (inList : Bool) (groups : Nat) (kind : Token.Kind) :
    (afterValue inList groups kind).isSome ↔ kind ∈ expected ⟨.ended inList, groups⟩ := by
  cases inList <;> cases groups <;> cases kind <;> simp [afterValue, expected]

/-- Where strings may go on, messages name the same kinds as where they are over. -/
theorem expected_strings (inList : Bool) (groups : Nat) :
    expected ⟨.strings inList, groups⟩ = expected ⟨.ended inList, groups⟩ := by
  cases inList <;> rfl

/-- A kind leads on exactly if it is expected or unlisted. -/
theorem next?_isSome_iff (s : State) (kind : Token.Kind) :
    (s.next? kind).isSome ↔ kind ∈ s.expected ∨ kind ∈ s.unlisted := by
  obtain ⟨spot, groups⟩ := s
  cases spot with
  | key => simpa [next?, expected, unlisted] using afterKey_isSome_iff kind
  -- A word and a string can go on with one more kind of token than messages name.
  | word =>
    by_cases hk : kind = .dot
    · simp [next?, unlisted, hk]
    · simpa [next?, expected, unlisted, hk] using afterKey_isSome_iff kind
  | strings inList =>
    rw [expected_strings]
    by_cases hk : kind = .quotedString
    · simp [next?, unlisted, hk]
    · simpa [next?, unlisted, hk] using afterValue_isSome_iff inList groups kind
  | ended inList => simpa [next?, unlisted] using afterValue_isSome_iff inList groups kind
  | operand | value => cases kind <;> simp [next?, expected, unlisted, valueStart]
  | sign => cases kind <;> simp [next?, expected, unlisted]
  | start | parent | negation | list => simp [next?, expected, unlisted]
  | finish => simp [next?, expected, unlisted]

/-- A kind that is neither expected nor unlisted leads nowhere. -/
theorem next?_eq_none {s : State} {kind : Token.Kind} (hexpected : kind ∉ s.expected)
    (hunlisted : kind ∉ s.unlisted) : s.next? kind = none := by
  rw [Option.eq_none_iff_forall_ne_some]
  intro s' h
  rcases (next?_isSome_iff s kind).1 (by rw [h]; rfl) with hmem | hmem
  · exact hexpected hmem
  · exact hunlisted hmem

/-- The kinds of token that can come next are the expected ones and the unlisted ones. -/
theorem exists_step?_iff (s : State) (kind : Token.Kind) :
    (∃ t : Token, t.kind = kind ∧ (s.step? t).isSome) ↔
      kind ∈ s.expected ∨ kind ∈ s.unlisted := by
  rw [← next?_isSome_iff]
  constructor
  · rintro ⟨t, rfl, ht⟩
    obtain ⟨s', hstep⟩ := Option.isSome_iff_exists.1 ht
    rw [(step?_eq_some_iff.1 hstep).2]
    rfl
  · intro h
    exact ⟨sample kind, rfl, step?_sample s kind ▸ h⟩

/-! ### Every state can be carried on to the end -/

/-- Where a value may be over, messages name what can follow it. -/
theorem Over.expected_eq {inList : Bool} {groups : Nat} {s : State} (h : Over inList groups s) :
    s.expected = expected ⟨.ended inList, groups⟩ := by
  cases h with
  | ended => rfl
  | strings => exact expected_strings inList groups

/-- Samples lead where their kinds lead. -/
theorem run?_sample (s : State) (kinds : List Token.Kind) :
    s.run? (kinds.map sample) = kinds.foldlM next? s := by
  simp only [run?, List.foldlM_map, step?_sample]

/-- The kinds of token that carry a spot on to the end of an operand. -/
def toEnd : Spot → List Token.Kind
  | .start => [.whereWord, .identifier, .equal, .integer]
  | .operand | .parent => [.identifier, .equal, .integer]
  | .word | .key => [.equal, .integer]
  | .negation => [.inWord, .leftBracket, .integer, .rightBracket]
  | .list => [.leftBracket, .integer, .rightBracket]
  | .value false | .sign _ false => [.integer]
  | .value true | .sign _ true => [.integer, .rightBracket]
  | .strings true | .ended true => [.rightBracket]
  | .strings false | .ended false | .finish => []

/-- The kinds of token that close the groups that are open and end the text. -/
def closing (groups : Nat) : List Token.Kind :=
  List.replicate groups .rightParen ++ [.endOfInput]

/-- Each spot but the last is carried on to the end of an operand in the group that it is in. -/
theorem exists_over_of_toEnd {s : State} (h : s.spot ≠ .finish) :
    ∃ s', (toEnd s.spot).foldlM next? s = some s' ∧ Over false s.groups s' := by
  obtain ⟨spot, groups⟩ := s
  cases spot with
  | finish => exact absurd rfl h
  | strings inList =>
    cases inList with
    | false => exact ⟨_, rfl, .strings⟩
    | true => exact ⟨_, rfl, .ended⟩
  | value inList | sign _ inList | ended inList => cases inList <;> exact ⟨_, rfl, .ended⟩
  | _ => exact ⟨_, rfl, .ended⟩

/-- At the end of an operand, the groups that are open can be closed and the text can end. -/
theorem foldlM_closing {groups : Nat} {s : State} (h : Over false groups s) :
    (closing groups).foldlM next? s = some finish := by
  -- each parenthesis closes the innermost group
  induction groups generalizing s with
  | zero =>
    show (s.next? .endOfInput).bind _ = _
    rw [h.next?_eq (by simp)]
    rfl
  | succ groups ih =>
    show (s.next? .rightParen).bind _ = _
    rw [h.next?_eq (by simp)]
    exact ih .ended

/-- Every state but the last can be carried on to the end of a filter. -/
theorem exists_run_finish {s : State} (h : s.spot ≠ .finish) :
    ∃ us : List Token, (∀ u ∈ us, u.Proper) ∧ s.run? us = some finish := by
  obtain ⟨s', hrun, hover⟩ := exists_over_of_toEnd h
  -- first the operand that has been started, then the groups around it
  refine ⟨(toEnd s.spot ++ closing s.groups).map sample, ?_, ?_⟩
  · intro u hu
    obtain ⟨kind, -, rfl⟩ := List.mem_map.1 hu
    exact proper_sample kind
  · rw [run?_sample, List.foldlM_append, hrun]
    exact foldlM_closing hover

end State

end Grammar

end MetadataFilter
