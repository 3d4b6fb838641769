import MetadataFilter.Proofs.Grammar.FailFast
import MetadataFilter.Proofs.Grammar.Refusal

/-!
# The expected kinds of token are those that could come next

An error about the kind of a token is reported behind the longest front of a filter: what is in
front of the token can be carried on to a filter, and with the token it cannot. The kinds that the
error names are those of the tokens that could stand in its place, with two exceptions: a point that
would carry on a key, and a string that would carry on a text.

## Key results

- `State.Next.word_iff`, `State.Next.strings_iff`: a step that leaves something open, by its token
- `exists_stuck`: where the tokens of a refused text get stuck
- `expected_exact`: the expected kinds are those that could come next
-/

namespace MetadataFilter

open Expr.Parser Feed

namespace Grammar

/-- The kinds of token that an operand has to follow. -/
def operandStarts : List Token.Kind := [.whereWord, .andWord, .orWord, .leftParen]

/-- The tokens end where an operand has to come. -/
def AwaitsOperand (ts : List Token) : Prop := ∃ t ∈ ts.getLast?, t.kind ∈ operandStarts

/-- The tokens end in an identifier that is a whole key or the first part of one: it stands where an
operand had to come. -/
def EndsInField (ts : List Token) : Prop :=
  ∃ us t, ts = us ++ [t] ∧ AwaitsOperand us ∧ t.kind = .identifier

/-- The tokens end in a string of a text value: it does not stand where an operand had to come, as
the strings do that are keys. -/
def EndsInText (ts : List Token) : Prop :=
  ∃ us t, ts = us ++ [t] ∧ ¬AwaitsOperand us ∧ t.kind = .quotedString

namespace State

/-! ### What the last token says about the state -/

section

variable {s s' : State} {kind : Token.Kind}

/-- An operand has to come exactly behind a token that an operand follows. -/
theorem Next.operand_iff (h : Next s kind s') : s'.spot = .operand ↔ kind ∈ operandStarts := by
  cases h with
  | comparison _ op => cases op <;> simp [compareKind, operandStarts]
  | connective _ c => cases c <;> simp [connectiveKind, operandStarts]
  | number number | signed number => rcases number with rfl | rfl <;> simp [operandStarts]
  | _ => simp [operandStarts, finish]

/-- After one token, a key may go on exactly if it is an identifier where an operand had to come. -/
theorem Next.word_iff (h : Next s kind s') :
    s'.spot = .word ↔ s.spot = .operand ∧ kind = .identifier := by
  cases h with
  | comparison named => cases named <;> simp
  | connective ends => cases ends <;> simp
  | comma ends | rightBracket ends | rightParen ends | endOfInput ends => simp [finish]
  | number number | signed number => simp
  | _ => simp

/-- After one token, a text may go on exactly if it is a string where no operand had to come. -/
theorem Next.strings_iff (h : Next s kind s') :
    (∃ inList, s'.spot = .strings inList) ↔ s.spot ≠ .operand ∧ kind = .quotedString := by
  cases h with
  | comparison _ op => cases op <;> simp [compareKind]
  | connective _ c => cases c <;> simp [connectiveKind]
  | number number | signed number => rcases number with rfl | rfl <;> simp
  | _ => simp [finish]

end

/-- A state that is reached is the first one, or the last token has led to it. -/
theorem exists_next_of_run? {s : State} {ts : List Token} (h : start.run? ts = some s) :
    (ts = [] ∧ s = start) ∨
      ∃ us t s', ts = us ++ [t] ∧ start.run? us = some s' ∧ Next s' t.kind s := by
  rcases List.eq_nil_or_concat ts with rfl | ⟨us, t, rfl⟩
  · exact .inl ⟨rfl, (Option.some.inj h).symm⟩
  -- the last token has been a step of its own
  · obtain ⟨s', hrun, hlast⟩ := exists_of_run?_append (List.concat_eq_append ▸ h)
    rw [run?_cons, Option.bind_eq_some_iff] at hlast
    obtain ⟨s'', hstep, hnil⟩ := hlast
    cases hnil
    have hnext := next_of_next? (step?_eq_some_iff.1 hstep).2
    exact .inr ⟨us, t, s', List.concat_eq_append, hrun, hnext⟩

section

variable {s : State} {ts : List Token}

/-- The same, read off the last of the tokens that lead to the state. -/
theorem operand_iff (h : start.run? ts = some s) : s.spot = .operand ↔ AwaitsOperand ts := by
  rcases exists_next_of_run? h with ⟨rfl, rfl⟩ | ⟨us, t, s', rfl, -, hnext⟩
  · simp [AwaitsOperand, start]
  · simpa [AwaitsOperand] using hnext.operand_iff

/-- A key can go on with a point exactly if the tokens end in a field. -/
theorem word_iff (h : start.run? ts = some s) : s.spot = .word ↔ EndsInField ts := by
  rcases exists_next_of_run? h with ⟨rfl, rfl⟩ | ⟨us, t, s', rfl, hrun, hnext⟩
  · simp [EndsInField, start]
  · rw [hnext.word_iff, operand_iff hrun]
    constructor
    · rintro ⟨hoperand, hkind⟩
      exact ⟨us, t, rfl, hoperand, hkind⟩
    · rintro ⟨us', t', heq, hoperand, hkind⟩
      obtain ⟨rfl, hlast⟩ := List.append_inj' heq rfl
      cases hlast
      exact ⟨hoperand, hkind⟩

/-- A text can go on with a string exactly if the tokens end in a text. -/
theorem strings_iff (h : start.run? ts = some s) :
    (∃ inList, s.spot = .strings inList) ↔ EndsInText ts := by
  rcases exists_next_of_run? h with ⟨rfl, rfl⟩ | ⟨us, t, s', rfl, hrun, hnext⟩
  · simp [EndsInText, start]
  · rw [hnext.strings_iff, ne_eq, operand_iff hrun]
    constructor
    · rintro ⟨hoperand, hkind⟩
      exact ⟨us, t, rfl, hoperand, hkind⟩
    · rintro ⟨us', t', heq, hoperand, hkind⟩
      obtain ⟨rfl, hlast⟩ := List.append_inj' heq rfl
      cases hlast
      exact ⟨hoperand, hkind⟩

/-- The kinds that are not listed are the point behind a field and the string behind a text. -/
theorem mem_unlisted_iff (h : start.run? ts = some s) (kind : Token.Kind) :
    kind ∈ s.unlisted ↔
      (kind = .dot ∧ EndsInField ts) ∨ (kind = .quotedString ∧ EndsInText ts) := by
  rw [← word_iff h, ← strings_iff h]
  obtain ⟨spot, groups⟩ := s
  cases spot <;> simp [unlisted]

end

end State

/-- What can come next after the tokens that lead to a state. -/
theorem viable_concat_iff {s : State} {ts : List Token} (h : State.start.run? ts = some s)
    (t : Token) : Viable (ts ++ [t]) ↔ (s.step? t).isSome := by
  rw [viable_iff, State.run?_concat_of_eq h]

end Grammar

open Grammar

/-! ### Refused texts -/

/-- The tokens of a refused text get stuck, or there is a fault among them. -/
theorem exists_stuck {text : String} {e : FilterError} (h : Expr.parse text = .error e)
    (hne : e ≠ .emptyExpression) :
    ∃ feed : Feed, Token.stream (normalize text) = feed.stream ∧ Stuck [] State.start feed e := by
  obtain ⟨opening, after, hstream, -, hfilter⟩ := filter_of_parse_error h hne
  exact ⟨.more opening after, hstream, filter_tracks.error hfilter⟩

/-- A stream has its first token among its tokens. -/
theorem tokens_prepend (ts : List Token) (feed : Feed) :
    ∃ us, (prepend ts feed).stream.tokens = ts ++ feed.current :: us := by
  rw [stream_prepend]
  induction ts with
  | nil =>
    cases feed with
    | done position => exact ⟨[], rfl⟩
    | more t rest => exact ⟨rest.tokens, rfl⟩
  | cons t ts ih =>
    obtain ⟨us, hus⟩ := ih
    exact ⟨us, congrArg (t :: ·) hus⟩

/-- The error `e` is about the token `t` behind the tokens `ts`, where the longest front of a filter
ends, and it names the kinds of token that could stand there. -/
structure ParseError.ExpectedAt (e : ParseError) (ts : List Token) (t : Token) : Prop where
  position_eq : t.position = e.position
  found_eq : t.text = e.found
  viable : Viable ts
  not_viable : ¬Viable (ts ++ [t])
  /-- Every kind that is expected could stand there, and so could the two that are left out. -/
  possible : ∀ kind, kind ∈ e.expected ∨ (kind = .dot ∧ EndsInField ts) ∨
    (kind = .quotedString ∧ EndsInText ts) → ∃ u : Token, u.Proper ∧ u.kind = kind ∧
      Viable (ts ++ [u])
  /-- Every token that could stand there is of an expected kind or of one of the two. -/
  complete : ∀ u : Token, Viable (ts ++ [u]) → u.kind ∈ e.expected ∨
    (u.kind = .dot ∧ EndsInField ts) ∨ (u.kind = .quotedString ∧ EndsInText ts)

/-- What an automaton refuses is refused where the longest front of a filter ends. -/
theorem Expr.Parser.Refusal.expectedAt {s : State} {ts : List Token} {t : Token} {e : ParseError}
    (hrun : State.start.run? ts = some s) (h : Refusal s t e)
    (hreason : e.reason = .noViableAlternative ∨ e.reason = .mismatchedInput) :
    e.ExpectedAt ts t := by
  -- For both reasons the parts of the error are copied from the token and the state.
  have hfields : t.position = e.position ∧ t.text = e.found ∧ e.expected = s.expected := by
    cases h with
    | noViableAlternative | mismatchedInput => exact ⟨rfl, rfl, rfl⟩
    | emptyKey | numberOutOfRange => rcases hreason with hreason | hreason <;> cases hreason
  obtain ⟨hposition, hfound, hexpected⟩ := hfields
  refine ⟨hposition, hfound, ?_, ?_, fun kind hkind => ?_, fun u hu => ?_⟩
  · rw [viable_iff, hrun]
    rfl
  · rw [viable_concat_iff hrun, h.step?_eq_none]
    simp
  · rw [hexpected, ← State.mem_unlisted_iff hrun, ← State.next?_isSome_iff] at hkind
    -- not every number and string of the kind can stand there, but the sample of the kind can
    refine ⟨State.sample kind, State.proper_sample kind, rfl, ?_⟩
    rw [viable_concat_iff hrun, State.step?_sample]
    exact hkind
  · rw [hexpected, ← State.mem_unlisted_iff hrun, ← State.exists_step?_iff]
    exact ⟨u, rfl, (viable_concat_iff hrun u).1 hu⟩

/-- A text that is refused because of the kind of a token is refused behind the longest front of a
filter, and the expected kinds of token are exactly those that could stand in place of the refused
one, but for a point behind a key that is one identifier and a string behind a string of a text. -/
theorem expected_exact {text : String} {e : ParseError} (h : Expr.parse text = .error (.parse e))
    (hreason : e.reason = .noViableAlternative ∨ e.reason = .mismatchedInput) :
    ∃ ts t us, (Token.stream (normalize text)).tokens = ts ++ t :: us ∧ e.ExpectedAt ts t := by
  obtain ⟨feed, hstream, hstuck⟩ := exists_stuck h (by simp)
  cases hstuck with
  | @refused ts rest s _ split run refusal =>
    obtain ⟨us, htokens⟩ := tokens_prepend ts rest
    rw [← split, ← hstream] at htokens
    exact ⟨ts, rest.current, us, htokens, refusal.expectedAt run hreason⟩
  | limit split limit => rcases limit.names with h | h <;> cases h
  | passed mem => cases mem

/-- Where a predicate has to start behind a key, a point could stand as well. -/
theorem expected_exact_after_field :
    ∃ ts t us, (Token.stream (normalize "a b")).tokens = ts ++ t :: us ∧
      (⟨.noViableAlternative, ⟨8, 1, 8⟩, "b", predicateStart⟩ : ParseError).ExpectedAt ts t :=
  expected_exact (by decide +kernel) (.inl rfl)

end MetadataFilter
