import MetadataFilter.Proofs.Grammar.Feed
import MetadataFilter.Proofs.Token.Stream

/-!
# The reader looks one token ahead

What a reader does depends on the tokens that it takes and on the one under inspection afterwards,
and on nothing behind that one. `LocalAt` says so for one feed: a result stays the same whatever
comes after the token then under inspection, and an error names a token and stays the same whatever
comes after that one. The exception are the two errors that are found when their token has been
taken already: they give way to a fault right after it.

## Key results

- `LocalAt.bind`, `LocalAt.advance_bind`, `LocalAt.take`: readers in a row
- `value_local`, `key_local`, `predicate_local`: the parts of a test
- `orExpr_local`: whole expressions, by induction on the parentheses that may be open
- `filter_error`: whole filters
-/

namespace MetadataFilter

/-- Whether an error is found after its token has been taken, when the next one is under
inspection. -/
def ParseError.Reason.late : Reason → Bool
  | .noViableAlternative | .mismatchedInput => false
  | .emptyKey | .numberOutOfRange => true

/-- What is reported if `after` comes after the token of the error: an error that is found late
gives way to a fault. -/
def ParseError.verdict (e : ParseError) (after : Token.Stream) : FilterError :=
  match after with
  | .fault fault => if e.reason.late then .lex fault else .parse e
  | _ => .parse e

/-- An error stands unless it is found late and a fault comes next. -/
theorem ParseError.verdict_eq_parse_iff {e : ParseError} {after : Token.Stream} :
    e.verdict after = .parse e ↔ e.reason.late = false ∨ ∀ fault, after ≠ .fault fault := by
  cases after with
  | fault fault => cases hlate : e.reason.late <;> simp [verdict, hlate]
  | finish => simp [verdict]
  | next => simp [verdict]

/-- Either the error stands, or a fault comes next and is reported in its place. -/
theorem ParseError.verdict_cases (e : ParseError) (after : Token.Stream) :
    e.verdict after = .parse e ∨ ∃ fault, after = .fault fault ∧ e.verdict after = .lex fault := by
  cases after with
  | fault fault =>
    cases hlate : e.reason.late with
    | false => exact .inl (verdict_eq_parse_iff.2 (.inl hlate))
    | true => exact .inr ⟨fault, rfl, if_pos hlate⟩
  | finish => exact .inl rfl
  | next => exact .inl rfl

/-- The errors that name a token. -/
inductive ParseError.Names (t : Token) : ParseError → Prop
  | noViableAlternative (expected : List Token.Kind) : Names t (.noViableAlternative t expected)
  | mismatchedInput (expected : List Token.Kind) : Names t (.mismatchedInput t expected)
  | emptyKey : Names t (.emptyKey t)
  | numberOutOfRange (literal : String) : Names t (.numberOutOfRange t literal)

/-- An error that names a token has its place. -/
theorem ParseError.Names.position_eq {t : Token} {e : ParseError} (h : e.Names t) :
    e.position = t.position := by
  cases h <;> rfl

/-- The errors about a limit that name a token. -/
def FilterError.LimitAt (t : Token) (e : FilterError) : Prop :=
  e = .tooDeep t.position ∨ e = .tooLarge t.position

namespace Expr.Parser

open Feed

/-! ### Feeds that start alike -/

/-- What comes after the token under inspection. -/
def Feed.after : Feed → Token.Stream
  | done position => .finish position
  | more _ rest => rest

/-- Two feeds start alike if both are at the end of the text or have the same token under
inspection. -/
inductive Alike : Feed → Feed → Prop
  | done (position : Position) : Alike (.done position) (.done position)
  | more (t : Token) (rest rest' : Token.Stream) : Alike (.more t rest) (.more t rest')

/-- A feed starts like itself. -/
theorem Alike.refl (feed : Feed) : Alike feed feed := by
  cases feed with
  | done => exact .done _
  | more => exact .more _ _ _

/-- Feeds that start alike have the same token under inspection. -/
theorem Alike.current_eq {feed feed' : Feed} (h : Alike feed feed') :
    feed.current = feed'.current := by
  cases h <;> rfl

/-- With the same tokens in front, feeds that start alike still do. -/
theorem Alike.prepend {feed feed' : Feed} (ts : List Token) (h : Alike feed feed') :
    Alike (prepend ts feed) (prepend ts feed') := by
  cases ts with
  | nil => exact h
  | cons t ts => exact .more t _ _

/-- Tokens in front do not change the first fault. -/
theorem fault?_prepend (ts : List Token) (feed : Feed) :
    (prepend ts feed).stream.fault? = feed.stream.fault? := by
  rw [stream_prepend, Token.Stream.fault?_foldr]

/-- A fault that comes next is the first one. -/
theorem fault?_of_after {feed : Feed} {fault : LexError} (h : feed.after = .fault fault) :
    feed.stream.fault? = some fault := by
  cases feed with
  | done => cases h
  | more t rest => cases h; rfl

/-! ### Readers that look one token ahead -/

section

variable {α β : Type} {passed : List Token} {r : Reader α} {k : α → Reader β} {feed : Feed}

/-- Where an error comes from: from the first fault, from a token that is under inspection at some
time, or, if it is about a limit, from a token that has been passed before. -/
inductive Failure (passed : List Token) (r : Reader α) (feed : Feed) : FilterError → Prop
  | fault {e : LexError} (first : feed.stream.fault? = some e) : Failure passed r feed (.lex e)
  | token {ts : List Token} {rest : Feed} {e : ParseError} (split : feed = prepend ts rest)
      (names : e.Names rest.current)
      (same : ∀ rest', Alike rest rest' → r (prepend ts rest') = .error (e.verdict rest'.after)) :
      Failure passed r feed (.parse e)
  | limit {ts : List Token} {rest : Feed} {e : FilterError} (split : feed = prepend ts rest)
      (names : e.LimitAt rest.current) : Failure passed r feed e
  | passed {t : Token} {e : FilterError} (mem : t ∈ passed) (names : e.LimitAt t) :
      Failure passed r feed e

/-- What `r` does with the feed depends on the tokens up to the one under inspection at the end. -/
structure LocalAt (passed : List Token) (r : Reader α) (feed : Feed) : Prop where
  ok : ∀ {x feed'}, r feed = .ok (x, feed') → ∃ ts, feed = prepend ts feed' ∧
    ∀ rest, Alike feed' rest → r (prepend ts rest) = .ok (x, rest)
  error : ∀ {e}, r feed = .error e → Failure passed r feed e

/-- A failure of a reader is one of a reader that starts with it, or ends with it once the tokens
`us` have been taken. -/
theorem Failure.map {r' : Reader β} {e : FilterError} (us : List Token)
    (h : Failure passed r feed e)
    (hr : ∀ {ts rest rest' e}, feed = prepend ts rest → Alike rest rest' →
      r (prepend ts rest') = .error e → r' (prepend us (prepend ts rest')) = .error e) :
    Failure passed r' (prepend us feed) e := by
  cases h with
  | fault first => exact .fault ((fault?_prepend us feed).trans first)
  | @token ts rest _ split names same =>
    have hsplit : prepend us feed = prepend (us ++ ts) rest := by rw [split, prepend_append]
    refine .token hsplit names fun rest' halike => ?_
    rw [prepend_append]
    exact hr split halike (same rest' halike)
  | @limit ts rest _ split names =>
    have hsplit : prepend us feed = prepend (us ++ ts) rest := by rw [split, prepend_append]
    exact .limit hsplit names
  | passed mem names => exact .passed mem names

/-- Reading nothing looks at nothing. -/
theorem LocalAt.pure (x : α) : LocalAt passed (Pure.pure x) feed := by
  refine ⟨fun h => ?_, fun h => ?_⟩
  · cases h
    exact ⟨[], rfl, fun _ _ => rfl⟩
  · cases h

/-- The token under inspection is refused before anything after it has been looked at. -/
theorem LocalAt.refuse (e : Token → ParseError) (hnames : (e feed.current).Names feed.current)
    (hlate : (e feed.current).reason.late = false) :
    LocalAt passed (fun feed => .error (.parse (e feed.current)) : Reader α) feed := by
  refine ⟨fun h => ?_, fun h => ?_⟩
  · cases h
  · cases h
    refine .token (prepend_nil feed).symm hnames fun rest halike => ?_
    rw [ParseError.verdict_eq_parse_iff.2 (.inl hlate), prepend_nil, halike.current_eq]

/-- Failing at the token under inspection looks at no other. -/
theorem LocalAt.noViableAlternative (expected : List Token.Kind) :
    LocalAt passed (noViableAlternative expected : Reader α) feed :=
  .refuse (fun t => .noViableAlternative t expected) (.noViableAlternative expected) rfl

/-- So does failing because it is not the one that had to come. -/
theorem LocalAt.mismatchedInput (expected : List Token.Kind) :
    LocalAt passed (mismatchedInput expected : Reader α) feed :=
  .refuse (fun t => .mismatchedInput t expected) (.mismatchedInput expected) rfl

/-- A limit may be reported at a token that has been passed. -/
theorem LocalAt.limit {t : Token} {e : FilterError} (mem : t ∈ passed) (names : e.LimitAt t) :
    LocalAt passed (throw e : Reader α) feed := by
  refine ⟨fun h => ?_, fun h => ?_⟩
  · cases h
  · cases h
    exact .passed mem names

/-- Taking a token looks at the one after it: that is the one under inspection afterwards, and if
a fault stands there, it is reported. -/
theorem LocalAt.advance : LocalAt passed advance feed := by
  -- At the end the same end is taken again; before it, the next token decides.
  cases feed with
  | done position =>
    refine ⟨fun h => ?_, fun h => ?_⟩
    · cases h
      refine ⟨[], rfl, fun rest halike => ?_⟩
      cases halike
      rfl
    · cases h
  | more t rest =>
    refine ⟨fun {x feed'} h => ?_, fun {e} h => ?_⟩
    · have ht : x = t := token_of_advance h
      subst ht
      cases rest with
      | fault => cases h
      | finish position => cases h; exact ⟨[x], rfl, fun rest _ => advance_prepend x [] rest⟩
      | next u rest => cases h; exact ⟨[x], rfl, fun rest _ => advance_prepend x [] rest⟩
    · cases rest <;> cases h
      exact .fault rfl

/-- What is chosen by the kind of the token under inspection. -/
theorem LocalAt.peek_bind {k : Token.Kind → Reader β}
    (h : LocalAt passed (k feed.current.kind) feed) : LocalAt passed (peek >>= k) feed := by
  -- the token under inspection is the same in front of feeds that start alike
  have hsame : ∀ {ts : List Token} {rest rest' : Feed}, feed = prepend ts rest → Alike rest rest' →
      (peek >>= k) (prepend ts rest') = k feed.current.kind (prepend ts rest') := by
    rintro ts rest rest' rfl halike
    rw [Parser.peek_bind, (halike.prepend ts).current_eq]
  refine ⟨fun hok => ?_, fun {e} herror => ?_⟩
  · obtain ⟨ts, hfeed, hread⟩ := h.ok hok
    exact ⟨ts, hfeed, fun rest halike => (hsame hfeed halike).trans (hread rest halike)⟩
  · exact (h.error herror).map [] fun split halike herror =>
      (hsame split halike).trans herror

/-- Two readers in a row look one token ahead if each of them does. -/
theorem LocalAt.bind (hr : LocalAt passed r feed)
    (hk : ∀ x feed', r feed = .ok (x, feed') → LocalAt passed (k x) feed') :
    LocalAt passed (r >>= k) feed := by
  refine ⟨fun {y last} h => ?_, fun {e} h => ?_⟩
  -- On success both have taken their tokens; the tokens of the second stand behind those of the
  -- first.
  · obtain ⟨x, next, hx, hy⟩ := bind_eq_ok h
    obtain ⟨ts, rfl, hread⟩ := hr.ok hx
    obtain ⟨us, rfl, hthen⟩ := (hk x next hx).ok hy
    refine ⟨ts ++ us, (prepend_append ts us last).symm, fun rest halike => ?_⟩
    rw [prepend_append, bind_of_ok (hread _ (halike.prepend us))]
    exact hthen rest halike
  -- On failure it is the first one that fails, or the second one behind what the first has taken.
  · cases hx : r feed with
    | error e' =>
      rw [bind_of_error hx] at h
      cases h
      exact (hr.error hx).map [] fun _ _ herror => bind_of_error herror
    | ok p =>
      obtain ⟨x, next⟩ := p
      rw [bind_of_ok hx] at h
      obtain ⟨ts, rfl, hread⟩ := hr.ok hx
      refine ((hk x next hx).error h).map ts fun {us rest rest' e} split halike herror => ?_
      subst split
      rw [bind_of_ok (hread _ (halike.prepend us))]
      exact herror

/-- A token that is taken can be named by what comes next. -/
theorem LocalAt.advance_bind {k : Token → Reader β}
    (hk : ∀ feed', Parser.advance feed = .ok (feed.current, feed') →
      LocalAt (feed.current :: passed) (k feed.current) feed') :
    LocalAt passed (Parser.advance >>= k) feed := by
  have hbind : LocalAt (feed.current :: passed) (Parser.advance >>= k) feed := by
    refine .bind .advance fun t feed' h => ?_
    cases token_of_advance h
    exact hk feed' h
  refine ⟨hbind.ok, fun {e} he => ?_⟩
  -- What named the token that was taken now names the one under inspection; all else stays.
  cases hbind.error he with
  | fault first => exact .fault first
  | token split names same => exact .token split names same
  | limit split names => exact .limit split names
  | passed mem names =>
    rcases List.mem_cons.1 mem with rfl | mem
    · exact .limit (prepend_nil _).symm names
    · exact .passed mem names

/-- A token is taken and then refused or turned into a result. -/
theorem LocalAt.take {k : Token → Reader β}
    (hk : (∃ x, k feed.current = Pure.pure x) ∨
      ∃ e : ParseError, e.Names feed.current ∧ e.reason.late = true ∧
        k feed.current = throw (.parse e)) :
    LocalAt passed (Parser.advance >>= k) feed := by
  rcases hk with ⟨x, hx⟩ | ⟨e, names, late, he⟩
  -- a token that becomes a result is only taken
  · refine .bind .advance fun t feed' h => ?_
    cases token_of_advance h
    rw [hx]
    exact .pure x
  · -- the token is refused, unless a fault after it is found when it is taken
    have hrefuse : ∀ rest, Alike feed rest →
        (Parser.advance >>= k) rest = .error (e.verdict rest.after) := by
      intro rest halike
      rw [halike.current_eq] at he
      cases rest with
      | done position => exact congrFun he _
      | more t rest =>
        cases rest with
        | fault fault => exact congrArg Except.error (if_pos late).symm
        | finish position => exact congrFun he _
        | next u rest => exact congrFun he _
    have herror := hrefuse feed (.refl feed)
    refine ⟨fun h => ?_, fun {e'} h => ?_⟩
    · rw [herror] at h
      cases h
    · rw [herror] at h
      cases h
      rcases e.verdict_cases feed.after with hverdict | ⟨fault, hafter, hverdict⟩
      · rw [hverdict]
        exact .token (prepend_nil feed).symm names hrefuse
      · rw [hverdict]
        exact .fault (fault?_of_after hafter)

/-- Taking a token of a kind, or failing at it. -/
theorem expect_local (kind : Token.Kind) (expected : List Token.Kind) :
    LocalAt passed (expect kind expected) feed := by
  refine .peek_bind ?_
  split
  · exact .advance
  · exact .mismatchedInput expected

end

/-! ### Values, lists and keys -/

section

variable {passed : List Token} {feed : Feed}

/-- A number looks one token ahead. -/
theorem number_local (negative : Bool) : LocalAt passed (number negative) feed := by
  refine .take ?_
  split
  · exact .inl ⟨_, rfl⟩
  · exact .inr ⟨_, .numberOutOfRange _, rfl, rfl⟩

/-- The strings that follow, one step. -/
theorem moreStrings_eq (previous : Token) :
    moreStrings previous = (do
      if (← peek) = .quotedString then
        let token ← advance
        let text ← moreStrings token
        return seam previous token ++ Text.unquote token.lexeme.toList ++ text
      else return [] : Reader (List Char)) := by
  funext feed
  rw [peek_bind, moreStrings]
  split
  · split
    · next e he => exact (bind_of_error he).symm
    · next token next hnext =>
      rw [bind_of_ok hnext]
      show Except.map _ _ = Except.bind _ _
      cases moreStrings token next <;> rfl
  · rfl

/-- So do the strings that follow a string. -/
theorem moreStrings_local (previous : Token) : LocalAt passed (moreStrings previous) feed := by
  -- every string that is taken leaves fewer tokens
  induction hn : feed.size using Nat.strongRecOn generalizing previous feed with
  | ind n ih =>
    rw [moreStrings_eq]
    refine .peek_bind ?_
    split
    · next hk =>
      refine .bind .advance fun token next hnext => ?_
      have hsize : next.size < n := by
        have := size_of_advance hnext
        have := @Feed.size_pos feed (by simp [hk])
        omega
      exact .bind (ih _ hsize token rfl) fun text _ _ => .pure _
    · exact .pure _

/-- A value looks one token ahead. -/
theorem value_local : LocalAt passed value feed := by
  -- A sign is followed by a number, whichever sign it is.
  have signed : ∀ negative, LocalAt passed (value.signed negative) feed := fun negative =>
    .bind .advance fun _ _ _ => .peek_bind <| by
      split
      · exact number_local negative
      · exact number_local negative
      · exact .noViableAlternative _
  refine .peek_bind ?_
  split
  · exact signed true
  · exact signed false
  · exact number_local false
  · exact number_local false
  · exact .bind .advance fun token _ _ => .bind (moreStrings_local token) fun _ _ _ => .pure _
  · exact .bind .advance fun token _ _ => .pure _
  · exact .noViableAlternative _

/-- The values that follow, one step. -/
theorem moreValues_eq :
    moreValues = (do
      if (← peek) = .comma then
        let _ ← advance
        let v ← value
        let vs ← moreValues
        return v :: vs
      else return [] : Reader (List Value)) := by
  funext feed
  rw [peek_bind, moreValues]
  split
  · split
    · next e he => exact (bind_of_error he).symm
    · next comma next hnext =>
      rw [bind_of_ok hnext]
      split
      · next e he => exact (bind_of_error he).symm
      · next v last hlast =>
        rw [bind_of_ok hlast]
        show Except.map _ _ = Except.bind _ _
        cases moreValues last <;> rfl
  · rfl

/-- So do the values that follow a value. -/
theorem moreValues_local : LocalAt passed moreValues feed := by
  -- every comma that is taken leaves fewer tokens
  induction hn : feed.size using Nat.strongRecOn generalizing feed with
  | ind n ih =>
    rw [moreValues_eq]
    refine .peek_bind ?_
    split
    · next hk =>
      refine .bind .advance fun comma next hnext => .bind value_local fun v last hlast => ?_
      have hsize : last.size < n := by
        have := size_of_advance hnext
        have := @Feed.size_pos feed (by simp [hk])
        have := Shrinking.value _ _ _ hlast
        omega
      exact .bind (ih _ hsize rfl) fun vs _ _ => .pure _
    · exact .pure _

/-- A list in brackets looks one token ahead. -/
theorem valueList_local : LocalAt passed valueList feed :=
  .bind (expect_local _ _) fun _ _ _ => .bind value_local fun _ _ _ =>
    .bind moreValues_local fun _ _ _ => .bind (expect_local _ _) fun _ _ _ => .pure _

/-- A predicate looks one token ahead. -/
theorem predicate_local (k : Key) : LocalAt passed (predicate k) feed := by
  have membership : ∀ {feed} negated, LocalAt passed (predicate.membership k negated) feed :=
    fun negated => .bind .advance fun _ _ _ => .bind valueList_local fun _ _ _ => .pure _
  refine .peek_bind ?_
  split
  -- an operator is taken before the value is read
  · exact .bind .advance fun _ _ _ => .bind value_local fun _ _ _ => .pure _
  · split
    · exact membership false
    · exact membership true
    -- behind NOT the reader looks at one more token
    · refine .bind .advance fun _ _ _ => .peek_bind ?_
      split
      · exact membership true
      · exact .mismatchedInput _
    · exact .noViableAlternative _

/-- A key looks one token ahead; an empty string is refused after it has been taken. -/
theorem key_local : LocalAt passed key feed := by
  refine .peek_bind ?_
  split
  · refine .take ?_
    by_cases hname : (Text.unquote feed.current.lexeme.toList).isEmpty = true
    · exact .inr ⟨_, .emptyKey, rfl, if_pos hname⟩
    · exact .inl ⟨_, if_neg hname⟩
  · refine .bind (expect_local _ _) fun parent _ _ => .peek_bind ?_
    split
    · exact .bind .advance fun _ _ _ => .bind (expect_local _ _) fun _ _ _ => .pure _
    · exact .pure _

end

/-! ### Expressions -/

section

variable {limits : Limits} {passed : List Token} {feed : Feed}

/-- A reader looks one token ahead wherever it starts. -/
def Local {α : Type} (r : Reader α) : Prop :=
  ∀ {passed feed}, LocalAt passed r feed

/-- The operands that follow look one token ahead if each operand does. -/
theorem moreOperands_local {c : Connective} {operand : Reader Node} (hoperand : Local operand)
    (deepest : Nat) (node : Node) :
    LocalAt passed (moreOperands limits c operand deepest node) feed := by
  -- every operand makes the run higher, and no run passes the limit
  induction hm : limits.height - node.height using Nat.strongRecOn
    generalizing deepest node passed feed with
  | ind m ih =>
    rw [moreOperands]
    refine .peek_bind ?_
    split
    · refine .advance_bind fun _ _ => .bind hoperand fun right _ _ => ?_
      simp only
      -- a limit is reported at the connective, which has been passed
      split
      · exact .limit List.mem_cons_self (.inl rfl)
      · split
        · exact .limit List.mem_cons_self (.inr rfl)
        · exact ih _ (by simp only; omega) _ _ rfl
    · exact .pure _

/-- A run looks one token ahead if its operands do. -/
theorem chain_local (c : Connective) {operand : Reader Node} (hoperand : Local operand) :
    Local (chain limits c operand) :=
  .bind hoperand fun _ _ _ => moreOperands_local hoperand _ _

/-- Parentheses look one token ahead if what stands inside them does. -/
theorem parenthesized_local {inner : Option (Reader Node)} (hinner : ∀ r ∈ inner, Local r) :
    LocalAt passed (parenthesized limits inner) feed := by
  refine .advance_bind fun _ _ => ?_
  cases inner with
  | none => exact .limit List.mem_cons_self (.inl rfl)
  | some r =>
    refine .bind (hinner r rfl) fun _ _ _ => .bind (expect_local _ _) fun _ _ _ => ?_
    split
    · exact .limit List.mem_cons_self (.inl rfl)
    · split
      · exact .limit List.mem_cons_self (.inr rfl)
      · exact .pure _

/-- An operand of AND looks one token ahead if what stands in parentheses does. -/
theorem primary_local {inner : Option (Reader Node)} (hinner : ∀ r ∈ inner, Local r) :
    Local (primary limits inner) := by
  intro passed feed
  have test : LocalAt passed
      (key >>= fun k => predicate k >>= fun e => pure ⟨e, 0, 1⟩ : Reader Node) feed :=
    .bind key_local fun k _ _ => .bind (predicate_local k) fun _ _ _ => .pure _
  refine .peek_bind ?_
  split
  · exact parenthesized_local hinner
  · exact test
  · exact test
  · exact .noViableAlternative _

/-- An expression looks one token ahead, whatever the room for parentheses. -/
theorem orExpr_local (room : Nat) : Local (orExpr limits room) := by
  induction room with
  | zero => exact chain_local .or (chain_local .and (primary_local fun r hr => by cases hr))
  | succ room ih =>
    refine chain_local .or (chain_local .and (primary_local fun r hr => ?_))
    cases hr
    exact ih

/-- Reads what comes after the word WHERE. -/
def afterWhere (limits : Limits) : Reader Node := do
  let node ← orExpr limits limits.depth
  if (← peek) = .endOfInput then return node
  else mismatchedInput [.andWord, .orWord, .endOfInput]

/-- What follows the word WHERE looks one token ahead. -/
theorem afterWhere_local : LocalAt passed (afterWhere limits) feed := by
  refine .bind (orExpr_local _) fun _ _ _ => .peek_bind ?_
  split
  · exact .pure _
  · exact .mismatchedInput _

/-- A whole filter looks one token ahead. -/
theorem filter_local : LocalAt passed (filter limits) feed :=
  .bind (expect_local _ _) fun _ _ _ => afterWhere_local

/-- An error about a token of a filter stays the same whatever comes after the token, unless the
token has been taken when the error is found and a fault comes next. -/
theorem filter_error {opening : Token} {after : Token.Stream} {e : ParseError}
    (hopen : opening.kind = .whereWord)
    (h : filter limits (.more opening after) = .error (.parse e)) :
    ∃ ts rest, after = (prepend ts rest).stream ∧ e.Names rest.current ∧
      ∀ rest', Alike rest rest' →
        filter limits (prepend (opening :: ts) rest') = .error (e.verdict rest'.after) := by
  -- the word WHERE is taken, so that no error names it
  have hwhere : ∀ rest, filter limits (prepend [opening] rest) = afterWhere limits rest :=
    fun rest => expect_bind (fun _ => afterWhere limits) _ [] rest hopen
  -- a fault behind the word WHERE is reported as it is, which is no error of parsing
  have hnext : ∃ feed : Feed, after = feed.stream := by
    cases after with
    | fault fault =>
      have hfault : filter limits (.more opening (.fault fault)) = .error (.lex fault) := by
        refine bind_of_error ?_
        unfold expect
        rw [peek_bind]
        exact if_pos hopen ▸ rfl
      rw [hfault] at h
      cases h
    | finish position => exact ⟨.done position, rfl⟩
    | next t rest => exact ⟨.more t rest, rfl⟩
  obtain ⟨feed, rfl⟩ := hnext
  have h : afterWhere limits feed = .error (.parse e) := (hwhere feed).symm.trans h
  have hfailure : Failure [] (afterWhere limits) feed (.parse e) := afterWhere_local.error h
  cases hfailure with
  | @token ts rest _ split names same =>
    subst split
    exact ⟨ts, rest, rfl, names, fun rest' halike => (hwhere _).trans (same rest' halike)⟩
  | limit split names => rcases names with h | h <;> cases h
  | passed mem => cases mem

end

end Expr.Parser

end MetadataFilter
