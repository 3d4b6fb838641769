import MetadataFilter.Proofs.Grammar.Automaton

/-!
# The automaton accepts the filters

The tokens that lead from the first state to the last are those that the grammar derives. That they
are derived needs what the tokens read so far have to be, state by state: in front, expressions that
wait for an operand, one for each open group (`Groups`, `Pending`), and then the part of an operand
up to the spot (`Part`).

## Key results

- `Sentence.run?`: derivable tokens lead to the last state
- `Fits.step`, `Fits.run`: what has been read fits the state, one token and any number of them
- `run?_eq_finish_iff`: the automaton accepts what the grammar derives
- `viable_iff`: tokens that lead anywhere can be carried on to a filter
-/

namespace MetadataFilter.Grammar

open Expr.Parser State

/-! ### Derivable tokens are accepted -/

section

variable {inList negative : Bool} {groups : Nat}

/-- A number is an integer or has a point. -/
theorem Number.kind_eq {t : Token} {v : Value} (h : Number negative t v) :
    t.kind = .integer ∨ t.kind = .decimal := by
  cases h with
  | integer kind => exact .inl kind
  | decimal kind => exact .inr kind

/-- A number is in range exactly if it stands for a value. -/
theorem inRange_iff {t : Token} (hk : t.kind = .integer ∨ t.kind = .decimal) :
    inRange negative t = true ↔ ∃ v, Number negative t v := by
  rw [inRange_of_kind hk, Option.isSome_iff_exists]
  exact exists_congr fun v => numberValue?_eq_some_iff hk

/-- A number without a sign ends a value. -/
theorem Number.step?_value {t : Token} {v : Value} (h : Number false t v) :
    (⟨.value inList, groups⟩ : State).step? t = some ⟨.ended inList, groups⟩ :=
  (Next.number h.kind_eq).step?_eq rfl ((inRange_iff h.kind_eq).2 ⟨v, h⟩)

/-- A number behind its sign ends a value. -/
theorem Number.step?_sign {t : Token} {v : Value} (h : Number negative t v) :
    (⟨.sign negative inList, groups⟩ : State).step? t = some ⟨.ended inList, groups⟩ :=
  (Next.signed h.kind_eq).step?_eq rfl ((inRange_iff h.kind_eq).2 ⟨v, h⟩)

/-- Strings in a row stay at the spot where strings may go on. -/
theorem run?_strings {ts : List Token} (h : ∀ u ∈ ts, u.kind = .quotedString) :
    (⟨.strings inList, groups⟩ : State).run? ts = some ⟨.strings inList, groups⟩ := by
  induction ts with
  | nil => rfl
  | cons t ts ih =>
    rw [run?_cons, Next.moreStrings.step?_eq (h t List.mem_cons_self) rfl]
    exact ih fun u hu => h u (List.mem_cons_of_mem t hu)

/-- A constant leads to where a value may be over. -/
theorem Literal.run? {ts : List Token} {v : Value} (h : Literal ts v) :
    ∃ s, (⟨.value inList, groups⟩ : State).run? ts = some s ∧ Over inList groups s := by
  -- Each form of a constant takes its first token from the spot for values, and what follows from
  -- where that leads.
  cases h with
  | unsigned number =>
    refine ⟨_, ?_, .ended⟩
    rw [run?_cons, number.step?_value]
    rfl
  | plus kind number =>
    refine ⟨_, ?_, .ended⟩
    rw [run?_cons, Next.plus.step?_eq kind (by simp [Spot.admits, inRange, kind]),
      Option.bind_some, run?_cons, number.step?_sign]
    rfl
  | minus kind number =>
    refine ⟨_, ?_, .ended⟩
    rw [run?_cons, Next.minus.step?_eq kind (by simp [Spot.admits, inRange, kind]),
      Option.bind_some, run?_cons, number.step?_sign]
    rfl
  | strings first others =>
    refine ⟨_, ?_, .strings⟩
    rw [run?_cons, Next.firstString.step?_eq first (by simp [Spot.admits, inRange, first])]
    exact run?_strings others
  | boolean kind =>
    refine ⟨_, ?_, .ended⟩
    rw [run?_cons, Next.boolean.step?_eq kind (by simp [Spot.admits, inRange, kind])]
    rfl

/-- Constants with commas between them lead to where a value of a list may be over. -/
theorem Literals.run? {ts : List Token} {vs : List Value} (h : Literals ts vs) :
    ∃ s, (⟨.value true, groups⟩ : State).run? ts = some s ∧ Over true groups s := by
  induction h with
  | one literal => exact literal.run?
  | more literal kind _ ih =>
    obtain ⟨s, hrun, hover⟩ := @literal.run? true groups
    obtain ⟨s', hrun', hover'⟩ := ih
    refine ⟨s', ?_, hover'⟩
    rw [run?_append_of_eq hrun, run?_cons, (Next.comma hover).step?_eq kind (hover.admits _)]
    exact hrun'

/-- A list in brackets ends an operand. -/
theorem Bracketed.run? {ts : List Token} {values : ValueList} (h : Bracketed ts values) :
    (⟨.list, groups⟩ : State).run? ts = some ⟨.ended false, groups⟩ := by
  cases h with
  | mk open_kind literals close_kind =>
    obtain ⟨s, hrun, hover⟩ := @literals.run? groups
    rw [List.cons_append, run?_cons, Next.leftBracket.step?_eq open_kind rfl, Option.bind_some,
      run?_concat_of_eq hrun, (Next.rightBracket hover).step?_eq close_kind (hover.admits _)]

/-- A name leads to where a key may be over. -/
theorem Name.run? {ts : List Token} {k : Key} (h : Name ts k) :
    ∃ s, (⟨.operand, groups⟩ : State).run? ts = some s ∧ Named groups s := by
  -- A word may go on with a point, so it leads to a spot of its own; the other names are whole
  -- keys.
  cases h with
  | field kind =>
    refine ⟨_, ?_, .word⟩
    rw [run?_cons, Next.field.step?_eq kind (by simp [Spot.admits, kind])]
    rfl
  | nested parent_kind dot_kind child_kind =>
    refine ⟨_, ?_, .key⟩
    rw [run?_cons, Next.field.step?_eq parent_kind (by simp [Spot.admits, parent_kind]),
      Option.bind_some, run?_cons, Next.dot.step?_eq dot_kind rfl, Option.bind_some, run?_cons,
      Next.child.step?_eq child_kind rfl]
    rfl
  | quoted kind nonempty =>
    refine ⟨_, ?_, .key⟩
    rw [run?_cons, Next.quotedKey.step?_eq kind (by simp [Spot.admits, nonempty])]
    rfl

/-- A test leads to where an operand may be over. -/
theorem Test.run? {ts : List Token} {e : Expr} (h : Test ts e) :
    ∃ s, (⟨.operand, groups⟩ : State).run? ts = some s ∧ Over false groups s := by
  -- the key leads to a state where every operator can come next
  cases h with
  | comparison name kind literal =>
    obtain ⟨s, hrun, hnamed⟩ := @name.run? groups
    rw [run?_append_of_eq hrun, run?_cons,
      (Next.comparison hnamed _).step?_eq kind (hnamed.admits _)]
    exact literal.run?
  | among name kind list =>
    obtain ⟨s, hrun, hnamed⟩ := @name.run? groups
    rw [run?_append_of_eq hrun, run?_cons, (Next.inWord hnamed).step?_eq kind (hnamed.admits _)]
    exact ⟨_, list.run?, .ended⟩
  | noneOf name kind list =>
    obtain ⟨s, hrun, hnamed⟩ := @name.run? groups
    rw [run?_append_of_eq hrun, run?_cons, (Next.ninWord hnamed).step?_eq kind (hnamed.admits _)]
    exact ⟨_, list.run?, .ended⟩
  | notAmong name not_kind in_kind list =>
    obtain ⟨s, hrun, hnamed⟩ := @name.run? groups
    rw [run?_append_of_eq hrun, run?_cons,
      (Next.notWord hnamed).step?_eq not_kind (hnamed.admits _), Option.bind_some, run?_cons,
      Next.inAfterNot.step?_eq in_kind rfl]
    exact ⟨_, list.run?, .ended⟩

/-- So does an expression of any level, in whatever groups it stands. -/
theorem Derives.run? {level : Level} {ts : List Token} {e : Expr} (h : Derives level ts e) :
    ∃ s, (⟨.operand, groups⟩ : State).run? ts = some s ∧ Over false groups s := by
  -- The induction is on the derivation, for any number of groups, since parentheses open one more.
  induction h generalizing groups with
  | test test => exact test.run?
  | group open_kind _ close_kind ih =>
    -- inside the parentheses one more group is open
    obtain ⟨s, hrun, hover⟩ := @ih (groups + 1)
    refine ⟨⟨.ended false, groups⟩, ?_, .ended⟩
    rw [List.cons_append, run?_cons,
      Next.leftParen.step?_eq open_kind (by simp [Spot.admits, open_kind]), Option.bind_some,
      run?_concat_of_eq hrun, (Next.rightParen hover).step?_eq close_kind (hover.admits _)]
  | operand _ ih => exact ih
  | @join c _ _ _ _ _ _ kind _ ih ih' =>
    obtain ⟨s, hrun, hover⟩ := @ih groups
    rw [run?_append_of_eq hrun, run?_cons,
      (Next.connective hover c).step?_eq kind (hover.admits _)]
    exact ih'

end

/-- Derivable tokens lead to the last state. -/
theorem Sentence.run? {ts : List Token} {e : Expr} (h : Sentence ts e) :
    start.run? ts = some finish := by
  cases h with
  | mk open_kind expr close_kind =>
    obtain ⟨s, hrun, hover⟩ := @expr.run? 0
    rw [List.cons_append, run?_cons, start, Next.whereWord.step?_eq open_kind rfl,
      Option.bind_some, run?_concat_of_eq hrun,
      (Next.endOfInput hover).step?_eq close_kind (hover.admits _)]

/-! ### What the tokens in front of a state are -/

/-- The front of an expression that waits for an operand: the operands so far and a connective. -/
inductive Pending : List Token → Prop
  | nil : Pending []
  | or {ts : List Token} {e : Expr} {t : Token} (run : Derives (.run .or) ts e)
      (kind : t.kind = .orWord) : Pending (ts ++ [t])
  | and {ts : List Token} {e : Expr} {t : Token} (run : Derives (.run .and) ts e)
      (kind : t.kind = .andWord) : Pending (ts ++ [t])
  | orAnd {ts us : List Token} {e e' : Expr} {o t : Token} (run : Derives (.run .or) ts e)
      (or_kind : o.kind = .orWord) (last : Derives (.run .and) us e') (kind : t.kind = .andWord) :
      Pending (ts ++ o :: us ++ [t])

/-- The word WHERE and, for each open group, what is in front of it and its parenthesis. -/
inductive Groups : Nat → List Token → Prop
  | none {t : Token} (kind : t.kind = .whereWord) : Groups 0 [t]
  | inner {groups : Nat} {xs ys : List Token} {t : Token} (outer : Groups groups xs)
      (pending : Pending ys) (kind : t.kind = .leftParen) : Groups (groups + 1) (xs ++ ys ++ [t])

/-- The front of a test that any tokens with the property `P` complete. -/
def Wants {α : Type} (P : List Token → α → Prop) (ts : List Token) : Prop :=
  ∀ us x, P us x → ∃ e, Test (ts ++ us) e

/-- The values of a list that are still to come, and its closing bracket. -/
inductive ListEnd : List Token → List Value → Prop
  | mk {ts : List Token} {vs : List Value} {t : Token} (values : Literals ts vs)
      (kind : t.kind = .rightBracket) : ListEnd (ts ++ [t]) vs

/-- The front of a test where a value has to come: the last one, or one of a list. -/
def TakesValue : Bool → List Token → Prop
  | false => Wants Literal
  | true => Wants ListEnd

/-- `Part spot ts`: the tokens `ts` are the front of an operand up to the spot. -/
inductive Part : Spot → List Token → Prop
  | operand : Part .operand []
  | word {t : Token} (kind : t.kind = .identifier) : Part .word [t]
  | parent {t dot : Token} (kind : t.kind = .identifier) (dot_kind : dot.kind = .dot) :
      Part .parent [t, dot]
  | key {ts : List Token} {k : Key} (name : Name ts k) : Part .key ts
  | negation {ts : List Token} {k : Key} {t : Token} (name : Name ts k)
      (kind : t.kind = .notWord) : Part .negation (ts ++ [t])
  | list {ts : List Token} (wants : Wants Bracketed ts) : Part .list ts
  | value {inList : Bool} {ts : List Token} (takes : TakesValue inList ts) :
      Part (.value inList) ts
  | minus {inList : Bool} {ts : List Token} {t : Token} (takes : TakesValue inList ts)
      (kind : t.kind = .minus) : Part (.sign true inList) (ts ++ [t])
  | plus {inList : Bool} {ts : List Token} {t : Token} (takes : TakesValue inList ts)
      (kind : t.kind = .plus) : Part (.sign false inList) (ts ++ [t])
  | strings {inList : Bool} {ts us : List Token} {t : Token} (takes : TakesValue inList ts)
      (first : t.kind = .quotedString) (others : ∀ u ∈ us, u.kind = .quotedString) :
      Part (.strings inList) (ts ++ t :: us)
  | ended {ts us : List Token} {v : Value} (takes : TakesValue true ts) (literal : Literal us v) :
      Part (.ended true) (ts ++ us)

/-- `Fits s ts`: the tokens `ts` are what has to be in front of the state `s`. -/
inductive Fits : State → List Token → Prop
  | start : Fits start []
  | part {groups : Nat} {spot : Spot} {xs ys ts : List Token} (outer : Groups groups xs)
      (pending : Pending ys) (part : Part spot ts) : Fits ⟨spot, groups⟩ (xs ++ ys ++ ts)
  | ended {groups : Nat} {xs ts : List Token} {e : Expr} (outer : Groups groups xs)
      (expr : Derives (.run .or) ts e) : Fits ⟨.ended false, groups⟩ (xs ++ ts)
  | finish {ts : List Token} {e : Expr} (sentence : Sentence ts e) : Fits finish ts

/-- Tokens that fit are known by what they are, not by how they are put together. -/
theorem Fits.of_eq {s : State} {ts us : List Token} (h : Fits s ts) (heq : ts = us) : Fits s us :=
  heq ▸ h

/-- An operand carries on an expression that waits for one. -/
theorem Pending.operand {ts us : List Token} {e : Expr} (h : Pending ts)
    (operand : Derives .primary us e) : ∃ e', Derives (.run .or) (ts ++ us) e' := by
  have alone : Derives (.run .and) us e := .operand operand
  -- What waits for an operand is nothing at all, a run of OR, a run of AND, or a run of AND behind
  -- a run of OR.
  cases h with
  | nil => exact ⟨_, .operand alone⟩
  | or run kind =>
    rw [List.append_assoc]
    exact ⟨_, .join run kind alone⟩
  | and run kind =>
    rw [List.append_assoc]
    exact ⟨_, .operand (.join run kind operand)⟩
  | orAnd run or_kind last kind =>
    rw [List.append_assoc, List.append_assoc]
    exact ⟨_, .join run or_kind (.join last kind operand)⟩

/-- Behind a connective, an expression waits for an operand. AND takes the last operand of OR. -/
theorem pending_of_connective {c : Connective} {ts : List Token} {e : Expr} {t : Token}
    (h : Derives (.run .or) ts e) (kind : t.kind = connectiveKind c) : Pending (ts ++ [t]) := by
  cases c with
  | or => exact .or h kind
  | and =>
    cases h with
    | operand run => exact .and run kind
    | join run or_kind last => exact .orAnd run or_kind last kind

/-- There is a first constant. -/
theorem Literals.exists_cons {ts : List Token} {vs : List Value} (h : Literals ts vs) :
    ∃ first others, vs = first :: others := by
  cases h <;> exact ⟨_, _, rfl⟩

section

variable {inList : Bool} {ts us : List Token} {v : Value} {t : Token}

/-- A comma behind a value of a list leaves room for another one. -/
theorem TakesValue.comma (h : TakesValue true ts) (literal : Literal us v)
    (kind : t.kind = .comma) : TakesValue true (ts ++ us ++ [t]) := by
  rintro _ _ ⟨values, close_kind⟩
  simpa using h _ _ (.mk (.more literal kind values) close_kind)

/-- A bracket behind a value of a list completes the test. -/
theorem TakesValue.closing (h : TakesValue true ts) (literal : Literal us v)
    (kind : t.kind = .rightBracket) : ∃ e, Test (ts ++ us ++ [t]) e := by
  simpa using h _ _ (.mk (.one literal) kind)

/-- An opening bracket leaves room for the first value of a list. -/
theorem takesValue_of_wants_bracketed (h : Wants Bracketed ts) (kind : t.kind = .leftBracket) :
    TakesValue true (ts ++ [t]) := by
  rintro _ _ ⟨values, close_kind⟩
  obtain ⟨first, others, rfl⟩ := values.exists_cons
  simpa using h _ _ (.mk kind values close_kind)

/-! ### What fits a state where something is over -/

variable {groups : Nat} {xs ys all : List Token} {s s' : State}

/-- A whole test fits where an operand is over. -/
theorem Fits.test {e : Expr} (outer : Groups groups xs) (pending : Pending ys) (test : Test ts e) :
    Fits ⟨.ended false, groups⟩ (xs ++ ys ++ ts) := by
  obtain ⟨e', expr⟩ := pending.operand (.test test)
  exact (Fits.ended outer expr).of_eq (List.append_assoc _ _ _).symm

/-- A constant where a value has to come fits where a value is over. -/
theorem Fits.literal (outer : Groups groups xs) (pending : Pending ys)
    (takes : TakesValue inList ts) (literal : Literal us v) :
    Fits ⟨.ended inList, groups⟩ (xs ++ ys ++ (ts ++ us)) := by
  cases inList with
  | true => exact .part outer pending (.ended takes literal)
  | false =>
    obtain ⟨e, test⟩ := takes us v literal
    exact .test outer pending test

/-- Strings that may go on are a value that is over. -/
theorem Fits.ended_of_over (h : Fits s all) (ends : Over inList groups s) :
    Fits ⟨.ended inList, groups⟩ all := by
  cases ends with
  | ended => exact h
  | strings =>
    cases h with
    | part outer pending part =>
      cases part with
      | strings takes first others => exact .literal outer pending takes (.strings first others)

/-- What fits the end of a value of a list ends with a constant. -/
theorem Fits.exists_literal (h : Fits s all) (ends : Over true groups s) :
    ∃ xs ys ts us v, all = xs ++ ys ++ (ts ++ us) ∧ Groups groups xs ∧ Pending ys ∧
      TakesValue true ts ∧ Literal us v := by
  cases h.ended_of_over ends with
  | part outer pending part =>
    cases part with
    | ended takes literal => exact ⟨_, _, _, _, _, rfl, outer, pending, takes, literal⟩

/-- What fits the end of an operand ends with an expression in the innermost group. -/
theorem Fits.exists_expr (h : Fits s all) (ends : Over false groups s) :
    ∃ xs ts e, all = xs ++ ts ∧ Groups groups xs ∧ Derives (.run .or) ts e := by
  cases h.ended_of_over ends with
  | part _ _ part => cases part
  | ended outer expr => exact ⟨_, _, _, rfl, outer, expr⟩

/-- What fits the end of a key ends with a name. -/
theorem Fits.exists_name (h : Fits s all) (named : Named groups s) :
    ∃ xs ys ts k, all = xs ++ ys ++ ts ∧ Groups groups xs ∧ Pending ys ∧ Name ts k := by
  cases named with
  | key =>
    cases h with
    | part outer pending part =>
      cases part with
      | key name => exact ⟨_, _, _, _, rfl, outer, pending, name⟩
  | word =>
    cases h with
    | part outer pending part =>
      cases part with
      | word kind => exact ⟨_, _, _, _, rfl, outer, pending, .field kind⟩

/-! ### One token and any number of them -/

/-- A comma fits behind a value of a list. -/
theorem Fits.comma (h : Fits s all) (ends : Over true groups s) (kind : t.kind = .comma) :
    Fits ⟨.value true, groups⟩ (all ++ [t]) := by
  obtain ⟨xs, ys, ts, us, v, rfl, outer, pending, takes, literal⟩ := h.exists_literal ends
  exact (Fits.part outer pending (.value (takes.comma literal kind))).of_eq (by simp)

/-- A closing bracket fits behind a value of a list. -/
theorem Fits.rightBracket (h : Fits s all) (ends : Over true groups s)
    (kind : t.kind = .rightBracket) : Fits ⟨.ended false, groups⟩ (all ++ [t]) := by
  obtain ⟨xs, ys, ts, us, v, rfl, outer, pending, takes, literal⟩ := h.exists_literal ends
  obtain ⟨e, test⟩ := takes.closing literal kind
  exact (Fits.test outer pending test).of_eq (by simp)

/-- A connective fits behind an operand. -/
theorem Fits.connective {c : Connective} (h : Fits s all) (ends : Over false groups s)
    (kind : t.kind = connectiveKind c) : Fits ⟨.operand, groups⟩ (all ++ [t]) := by
  obtain ⟨xs, ts, e, rfl, outer, expr⟩ := h.exists_expr ends
  exact (Fits.part outer (pending_of_connective expr kind) .operand).of_eq (by simp)

/-- A parenthesis makes a group of the expression inside, which is an operand of the expression
around it. -/
theorem Fits.rightParen (h : Fits s all) (ends : Over false (groups + 1) s)
    (kind : t.kind = .rightParen) : Fits ⟨.ended false, groups⟩ (all ++ [t]) := by
  obtain ⟨xs, ts, e, rfl, outer, expr⟩ := h.exists_expr ends
  cases outer with
  | inner outer pending open_kind =>
    obtain ⟨e', expr⟩ := pending.operand (.group open_kind expr kind)
    exact (Fits.ended outer expr).of_eq (by simp)

/-- The end fits behind an operand if no group is open. -/
theorem Fits.endOfInput (h : Fits s all) (ends : Over false 0 s) (kind : t.kind = .endOfInput) :
    Fits State.finish (all ++ [t]) := by
  obtain ⟨xs, ts, e, rfl, outer, expr⟩ := h.exists_expr ends
  cases outer with
  | none open_kind => exact (Fits.finish (.mk open_kind expr kind)).of_eq (by simp)

/-- A comparison operator fits behind a key. -/
theorem Fits.comparison {op : CompareOp} (h : Fits s all) (named : Named groups s)
    (kind : t.kind = compareKind op) : Fits ⟨.value false, groups⟩ (all ++ [t]) := by
  obtain ⟨xs, ys, ts, k, rfl, outer, pending, name⟩ := h.exists_name named
  have takes : TakesValue false (ts ++ [t]) := fun vs v literal =>
    ⟨.comparison k op v, by simpa using .comparison name kind literal⟩
  exact (Fits.part outer pending (.value takes)).of_eq (by simp)

/-- The word of a membership test fits behind a key. -/
theorem Fits.membership (h : Fits s all) (named : Named groups s)
    (kind : t.kind = .inWord ∨ t.kind = .ninWord) : Fits ⟨.list, groups⟩ (all ++ [t]) := by
  obtain ⟨xs, ys, ts, k, rfl, outer, pending, name⟩ := h.exists_name named
  have wants : Wants Bracketed (ts ++ [t]) := by
    intro vs values list
    rcases kind with kind | kind
    · exact ⟨.membership k false values, by simpa using .among name kind list⟩
    · exact ⟨.membership k true values, by simpa using .noneOf name kind list⟩
  exact (Fits.part outer pending (.list wants)).of_eq (by simp)

/-- What has been read fits the state after one more token. -/
theorem Fits.step (h : Fits s all) (hstep : s.step? t = some s') : Fits s' (all ++ [t]) := by
  obtain ⟨hadmits, hnext⟩ := step?_eq_some_iff.1 hstep
  replace hnext := next_of_next? hnext
  generalize kind : t.kind = k at hnext
  -- One case for each thing that a token can do. Where something is over, the lemmas above know
  -- what has been read.
  cases hnext with
  | comma ends => exact h.comma ends kind
  | rightBracket ends => exact h.rightBracket ends kind
  | connective ends => exact h.connective ends kind
  | rightParen ends => exact h.rightParen ends kind
  | endOfInput ends => exact h.endOfInput ends kind
  | comparison named => exact h.comparison named kind
  | inWord named => exact h.membership named (.inl kind)
  | ninWord named => exact h.membership named (.inr kind)
  | notWord named =>
    obtain ⟨xs, ys, ts, k, rfl, outer, pending, name⟩ := h.exists_name named
    exact (Fits.part outer pending (.negation name kind)).of_eq (by simp)
  | whereWord =>
    cases h with
    | start => exact (Fits.part (.none kind) .nil .operand).of_eq (by simp)
    | part _ _ part => cases part
  -- every other token carries on the part of an operand that fits the state
  | leftParen =>
    obtain _ | ⟨outer, pending, part⟩ := h
    cases part with
    | operand => exact (Fits.part (.inner outer pending kind) .nil .operand).of_eq (by simp)
  | field =>
    obtain _ | ⟨outer, pending, part⟩ := h
    cases part with
    | operand => exact (Fits.part outer pending (.word kind)).of_eq (by simp)
  | quotedKey =>
    -- an empty string is no key, which the state has checked
    have nonempty : Text.unquote t.lexeme.toList ≠ [] := by
      simpa [Spot.admits, kind] using hadmits
    obtain _ | ⟨outer, pending, part⟩ := h
    cases part with
    | operand => exact (Fits.part outer pending (.key (.quoted kind nonempty))).of_eq (by simp)
  | dot =>
    obtain _ | ⟨outer, pending, part⟩ := h
    cases part with
    | word parent_kind =>
      exact (Fits.part outer pending (.parent parent_kind kind)).of_eq (by simp)
  | child =>
    obtain _ | ⟨outer, pending, part⟩ := h
    cases part with
    | parent parent_kind dot_kind =>
      exact (Fits.part outer pending (.key (.nested parent_kind dot_kind kind))).of_eq (by simp)
  | inAfterNot =>
    obtain _ | ⟨outer, pending, part⟩ := h
    cases part with
    | @negation ts k n name not_kind =>
      -- NOT and IN together stand for one word, which wants a list
      have wants : Wants Bracketed (ts ++ [n] ++ [t]) := fun vs values list =>
        ⟨.membership k true values, by simpa using .notAmong name not_kind kind list⟩
      exact (Fits.part outer pending (.list wants)).of_eq (by simp)
  | leftBracket =>
    obtain _ | ⟨outer, pending, part⟩ := h
    cases part with
    | list wants =>
      have takes := takesValue_of_wants_bracketed wants kind
      exact (Fits.part outer pending (.value takes)).of_eq (by simp)
  | minus =>
    obtain _ | ⟨outer, pending, part⟩ := h
    cases part with
    | value takes => exact (Fits.part outer pending (.minus takes kind)).of_eq (by simp)
  | plus =>
    obtain _ | ⟨outer, pending, part⟩ := h
    cases part with
    | value takes => exact (Fits.part outer pending (.plus takes kind)).of_eq (by simp)
  | number number =>
    -- the range of a number has been checked when the token was let in
    obtain ⟨v, number⟩ := (inRange_iff (kind ▸ number)).1 hadmits
    obtain _ | ⟨outer, pending, part⟩ := h
    cases part with
    | value takes => exact (Fits.literal outer pending takes (.unsigned number)).of_eq (by simp)
  | boolean =>
    obtain _ | ⟨outer, pending, part⟩ := h
    cases part with
    | value takes => exact (Fits.literal outer pending takes (.boolean kind)).of_eq (by simp)
  | firstString =>
    obtain _ | ⟨outer, pending, part⟩ := h
    cases part with
    | value takes =>
      have none : ∀ u ∈ ([] : List Token), u.kind = .quotedString := by simp
      exact (Fits.part outer pending (.strings takes kind none)).of_eq (by simp)
  | signed number =>
    obtain ⟨v, number⟩ := (inRange_iff (kind ▸ number)).1 hadmits
    obtain _ | ⟨outer, pending, part⟩ := h
    cases part with
    | minus takes sign_kind =>
      exact (Fits.literal outer pending takes (.minus sign_kind number)).of_eq (by simp)
    | plus takes sign_kind =>
      exact (Fits.literal outer pending takes (.plus sign_kind number)).of_eq (by simp)
  | moreStrings =>
    obtain _ | ⟨outer, pending, part⟩ := h
    cases part with
    | @strings _ ts us first takes first_kind others =>
      -- one more string belongs to the same value
      have others : ∀ u ∈ us ++ [t], u.kind = .quotedString := by
        simp only [List.mem_append, List.mem_singleton]
        rintro u (hu | rfl)
        · exact others u hu
        · exact kind
      exact (Fits.part outer pending (.strings takes first_kind others)).of_eq (by simp)

end

/-- What has been read fits the state, however many tokens it is. -/
theorem Fits.run {s s' : State} {ts us : List Token} (h : Fits s ts) (hrun : s.run? us = some s') :
    Fits s' (ts ++ us) := by
  -- by induction on the tokens, one step for each
  induction us generalizing s ts with
  | nil =>
    cases hrun
    exact h.of_eq (by simp)
  | cons u us ih =>
    obtain ⟨next, hstep, hrun⟩ := Option.bind_eq_some_iff.1 hrun
    exact (ih (h.step hstep) hrun).of_eq (by simp)

/-! ### Sentences and their fronts -/

/-- The automaton accepts what the grammar derives. -/
theorem run?_eq_finish_iff (ts : List Token) :
    State.start.run? ts = some State.finish ↔ ∃ e, Sentence ts e := by
  constructor
  · intro h
    cases Fits.start.run h with
    | part _ _ part => cases part
    | finish sentence => exact ⟨_, sentence⟩
  · rintro ⟨e, h⟩
    exact h.run?

/-- The tokens are the front of a filter: some tokens carry them on to one. -/
def Viable (ts : List Token) : Prop :=
  ∃ us e, (∀ u ∈ us, u.Proper) ∧ Sentence (ts ++ us) e

/-- Tokens are the front of a filter exactly if they lead anywhere. -/
theorem viable_iff (ts : List Token) : Viable ts ↔ (State.start.run? ts).isSome := by
  constructor
  · rintro ⟨us, e, -, h⟩
    obtain ⟨s, hs, -⟩ := exists_of_run?_append h.run?
    rw [hs]
    rfl
  · intro h
    obtain ⟨s, hs⟩ := Option.isSome_iff_exists.1 h
    by_cases hfinish : s.spot = .finish
    · -- the last state is only reached with a whole filter
      cases Fits.start.run hs with
      | start => cases hfinish
      | part _ _ part =>
        cases hfinish
        cases part
      | ended => cases hfinish
      | finish sentence => exact ⟨[], _, by simp, by simpa using sentence⟩
    · obtain ⟨us, hproper, hrun⟩ := exists_run_finish hfinish
      have haccepted : State.start.run? (ts ++ us) = some State.finish :=
        (run?_append_of_eq hs).trans hrun
      obtain ⟨e, h⟩ := (run?_eq_finish_iff _).1 haccepted
      exact ⟨us, e, hproper, h⟩

end MetadataFilter.Grammar
