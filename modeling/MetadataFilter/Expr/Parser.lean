import MetadataFilter.Double.Text
import MetadataFilter.Expr
import MetadataFilter.FilterError
import MetadataFilter.Text.Quoted
import MetadataFilter.Token.Lexer

/-!
# Reading filters

A filter is read from its tokens with one token of lookahead; the first token that does not fit is
reported, and nothing after it is looked at.

    where     ::= WHERE orExpr end
    orExpr    ::= andExpr (OR andExpr)*
    andExpr   ::= primary (AND primary)*
    primary   ::= '(' orExpr ')' | key predicate
    predicate ::= compareOp value | IN list | NOT IN list | NIN list
    list      ::= '[' value (',' value)* ']'
    key       ::= identifier '.' identifier | identifier | string
    value     ::= sign? number | string+ | boolean

Runs of a connective lean to the left. The word WHERE may be missing.

Main statements:

* `size_of_advance`  taking a token leaves one token fewer
* `Shrinking.value`  reading a value gives no token back
-/

namespace MetadataFilter

namespace Expr.Parser

/-- What is left of a text: its end, or a token under inspection and what comes after it. -/
inductive Feed where
  | done (position : Position)
  | more (token : Token) (rest : Token.Stream)
deriving DecidableEq

namespace Feed

/-- The token under inspection. -/
def current : Feed → Token
  | done position => .endOfInput position
  | more token _ => token

/-- How many tokens are left, the end of the text not counted. -/
def size : Feed → Nat
  | done _ => 0
  | more _ rest => rest.length + 1

/-- What is left at the start of a stream, which has to start with a token. -/
def ofStream : Token.Stream → Except FilterError Feed
  | .fault e => .error (.lex e)
  | .finish position => .ok (done position)
  | .next token rest => .ok (more token rest)

end Feed

/-- A part of a filter's grammar: what it reads and what is left after it. -/
abbrev Reader (α : Type) := StateT Feed (Except FilterError) α

/-- The kind of the token under inspection. -/
def peek : Reader Token.Kind := return (← get).current.kind

/-- Takes the token under inspection, and fails if no token comes next. The end of a text can be
taken again and again. -/
def advance : Reader Token
  | .done position => .ok (.endOfInput position, .done position)
  | .more token rest => (Feed.ofStream rest).map fun feed => (token, feed)

/-- Fails at the token under inspection, which no alternative starts with. -/
def noViableAlternative {α : Type} (expected : List Token.Kind) : Reader α := fun feed =>
  .error (.parse (.noViableAlternative feed.current expected))

/-- Fails at the token under inspection, which had to be one of a few. -/
def mismatchedInput {α : Type} (expected : List Token.Kind) : Reader α := fun feed =>
  .error (.parse (.mismatchedInput feed.current expected))

/-- Takes the token under inspection, which has to be of a kind; if it is not, the message names
the kinds in `expected`. -/
def expect (kind : Token.Kind) (expected : List Token.Kind) : Reader Token := do
  if (← peek) = kind then advance else mismatchedInput expected

/-! ### Values -/

/-- What a value can start with. -/
def valueStart : List Token.Kind := [.minus, .plus, .integer, .decimal, .quotedString, .boolean]

/-- The number that a literal spells, if it is in range: a whole number of 64 bits with its sign, or
a finite decimal. -/
def numberValue? (kind : Token.Kind) (negative : Bool) (lexeme : List Char) : Option Value :=
  if kind = .integer then
    let n : Int := if negative then -Text.ofDigits lexeme else Text.ofDigits lexeme
    if Int64.minValue.toInt ≤ n ∧ n ≤ Int64.maxValue.toInt then some (.integer (Int64.ofInt n))
    else none
  else
    let whole := lexeme.takeWhile Char.isDigit
    let fraction := (lexeme.dropWhile Char.isDigit).drop 1
    let x := (Decimal.ofPlain whole fraction).toDouble negative
    if x.isFinite then some (.decimal x) else none

/-- Reads the number under inspection; its sign has been read. -/
def number (negative : Bool) : Reader Value := do
  let token ← advance
  match numberValue? token.kind negative token.lexeme.toList with
  | some value => return value
  | none =>
    let literal := if negative then "-" ++ token.lexeme else token.lexeme
    throw (.parse (.numberOutOfRange token literal))

/-- What two neighbouring strings have between them: a delimiter if they touch and share it, which
is how a delimiter is written twice inside one string, and else nothing. -/
def seam (previous next : Token) : List Char :=
  match previous.lexeme.toList with
  | [] => []
  | delimiter :: _ =>
    if previous.position.offset + previous.lexeme.utf8ByteSize = next.position.offset ∧
        next.lexeme.toList.head? = some delimiter then [delimiter]
    else []

/-- What is left at the start of a stream is as long as the stream. -/
theorem Feed.size_ofStream {stream : Token.Stream} {feed : Feed}
    (h : Feed.ofStream stream = .ok feed) : feed.size = stream.length := by
  cases stream <;> simp only [ofStream, Except.ok.injEq, reduceCtorEq] at h <;> subst h <;> rfl

/-- Taking a token leaves one token fewer, except at the end, which can be taken again. -/
theorem size_of_advance {feed feed' : Feed} {token : Token}
    (h : advance feed = .ok (token, feed')) : feed'.size = feed.size - 1 := by
  cases feed with
  | done => simp only [advance, Except.ok.injEq, Prod.mk.injEq] at h; simp [← h.2, Feed.size]
  | more t rest =>
    unfold advance at h
    cases hs : Feed.ofStream rest with
    | error e => simp [hs, Except.map] at h
    | ok f =>
      simp only [hs, Except.map, Except.ok.injEq, Prod.mk.injEq] at h
      rw [← h.2, Feed.size_ofStream hs, Feed.size, Nat.add_sub_cancel]

/-- Something is left where the token under inspection is not the end. -/
theorem Feed.size_pos {feed : Feed} (h : feed.current.kind ≠ .endOfInput) : 0 < feed.size := by
  cases feed with
  | done => exact absurd rfl h
  | more => simp [size]

/-- The token taken is the one under inspection. -/
theorem token_of_advance {feed feed' : Feed} {token : Token}
    (h : advance feed = .ok (token, feed')) : token = feed.current := by
  cases feed with
  | done => simp only [advance, Except.ok.injEq, Prod.mk.injEq] at h; exact h.1.symm
  | more t rest =>
    unfold advance at h
    cases hs : Feed.ofStream rest with
    | error e => simp [hs, Except.map] at h
    | ok f => simp only [hs, Except.map, Except.ok.injEq, Prod.mk.injEq] at h; exact h.1.symm

/-- Reads the strings that follow the string `previous`, and joins them. -/
def moreStrings (previous : Token) (feed : Feed) : Except FilterError (List Char × Feed) :=
  if hk : feed.current.kind = .quotedString then
    match h : advance feed with
    | .error e => .error e
    | .ok (token, feed') =>
      have : feed'.size < feed.size := by
        have := size_of_advance h
        have := @Feed.size_pos feed (by simp [hk])
        omega
      (moreStrings token feed').map fun (text, feed'') =>
        (seam previous token ++ Text.unquote token.lexeme.toList ++ text, feed'')
  else .ok ([], feed)
termination_by feed.size

/-- Reads one or more strings and joins them. -/
def strings : Reader Value := do
  let token ← advance
  let rest ← moreStrings token
  return .text (String.ofList (Text.unquote token.lexeme.toList ++ rest))

/-- Reads a value. -/
def value : Reader Value := do
  match ← peek with
  | .minus => signed true
  | .plus => signed false
  | .integer | .decimal => number false
  | .quotedString => strings
  | .boolean =>
    let token ← advance
    return .boolean (token.lexeme.map Char.toLower = "true")
  | _ => noViableAlternative valueStart
where
  /-- Reads a number after its sign. -/
  signed (negative : Bool) : Reader Value := do
    let _ ← advance
    match ← peek with
    | .integer | .decimal => number negative
    | _ => noViableAlternative [.integer, .decimal]

/-! ### Reading gives no token back -/

/-- After a part has been read, no more is left than before it. -/
def Shrinking {α : Type} (r : Reader α) : Prop :=
  ∀ feed x feed', r feed = .ok (x, feed') → feed'.size ≤ feed.size

/-- Reading nothing gives no token back. -/
theorem Shrinking.pure {α : Type} (x : α) : Shrinking (Pure.pure x) := by
  intro feed y feed' h; cases h; exact Nat.le_refl _

/-- A failure leaves nothing to be counted. -/
theorem Shrinking.throw {α : Type} (e : FilterError) : Shrinking (throw e : Reader α) := by
  intro feed y feed' h; cases h

/-- So does a failure at the token under inspection. -/
theorem Shrinking.noViableAlternative {α : Type} (kinds : List Token.Kind) :
    Shrinking (noViableAlternative kinds : Reader α) := by
  intro feed y feed' h; cases h

/-- Two parts in a row give no token back if neither does. -/
theorem Shrinking.bind {α β : Type} {r : Reader α} {f : α → Reader β} (hr : Shrinking r)
    (hf : ∀ x, Shrinking (f x)) : Shrinking (r >>= f) := by
  intro feed y feed' h
  simp only [Bind.bind, StateT.bind, Except.bind] at h
  split at h
  · cases h
  · next r' h1 => exact Nat.le_trans (hf _ _ _ _ h) (hr _ _ _ h1)

/-- Looking at a token takes none. -/
theorem Shrinking.peek : Shrinking peek := by
  intro feed y feed' h; cases h; exact Nat.le_refl _

/-- Taking a token gives none back. -/
theorem Shrinking.advance : Shrinking advance := by
  intro feed y feed' h; rw [size_of_advance h]; exact Nat.sub_le _ _

/-- Reading strings gives no token back. -/
theorem Shrinking.moreStrings (previous : Token) : Shrinking (moreStrings previous) := by
  intro feed text feed' h
  fun_induction Parser.moreStrings previous feed generalizing text feed' with
  | case1 => cases h
  | case2 previous feed _ token feed1 h1 _ ih =>
    cases hr : Parser.moreStrings token feed1 with
    | error e => simp [hr, Except.map] at h
    | ok r =>
      simp only [hr, Except.map, Except.ok.injEq, Prod.mk.injEq] at h
      have := ih _ _ hr
      have := Shrinking.advance _ _ _ h1
      rw [← h.2]; omega
  | case3 => cases h; exact Nat.le_refl _

/-- Reading a number gives no token back. -/
theorem Shrinking.number (negative : Bool) : Shrinking (number negative) := by
  refine .bind .advance fun token => ?_
  split
  · exact .pure _
  · exact .throw _

/-- Reading a value gives no token back. -/
theorem Shrinking.value : Shrinking value := by
  refine .bind .peek fun kind => ?_
  -- Both signs go the same way, so that part is settled once for the two.
  have signed : ∀ negative, Shrinking (value.signed negative) := fun negative =>
    .bind .advance fun _ => .bind .peek fun kind => by
      split
      · exact .number _
      · exact .number _
      · exact .noViableAlternative _
  split
  · exact signed _
  · exact signed _
  · exact .number _
  · exact .number _
  · exact .bind .advance fun token => .bind (.moreStrings _) fun _ => .pure _
  · exact .bind .advance fun token => .pure _
  · exact .noViableAlternative _

/-! ### Lists, keys and predicates -/

/-- Reads the values of a list after the first one. -/
def moreValues (feed : Feed) : Except FilterError (List Value × Feed) :=
  if hk : feed.current.kind = .comma then
    match h1 : advance feed with
    | .error e => .error e
    | .ok (_, feed1) =>
      match h2 : value feed1 with
      | .error e => .error e
      | .ok (v, feed2) =>
        have : feed2.size < feed.size := by
          have := size_of_advance h1
          have := @Feed.size_pos feed (by simp [hk])
          have := Shrinking.value _ _ _ h2
          omega
        (moreValues feed2).map fun (vs, feed3) => (v :: vs, feed3)
  else .ok ([], feed)
termination_by feed.size

/-- Reads a list of values in brackets. -/
def valueList : Reader ValueList := do
  let _ ← expect .leftBracket [.leftBracket]
  let first ← value
  let others ← moreValues
  let _ ← expect .rightBracket [.comma, .rightBracket]
  return ⟨first, others⟩

/-- The comparison operator of a kind of token. -/
def compareOp? : Token.Kind → Option CompareOp
  | .equal => some .equal
  | .notEqual => some .notEqual
  | .greater => some .greater
  | .greaterEqual => some .greaterEqual
  | .less => some .less
  | .lessEqual => some .lessEqual
  | _ => none

/-- What can follow a key. -/
def predicateStart : List Token.Kind :=
  [.equal, .notEqual, .greater, .greaterEqual, .less, .lessEqual, .inWord, .ninWord, .notWord]

/-- Reads a comparison or membership test after its key. -/
def predicate (key : Key) : Reader Expr := do
  let kind ← peek
  match compareOp? kind with
  | some op =>
    let _ ← advance
    return .comparison key op (← value)
  | none =>
    match kind with
    | .inWord => membership false
    | .ninWord => membership true
    | .notWord =>
      let _ ← advance
      if (← peek) = .inWord then membership true else mismatchedInput [.inWord]
    | _ => noViableAlternative predicateStart
where
  /-- Reads the list of a membership test after its word. -/
  membership (negated : Bool) : Reader Expr := do
    let _ ← advance
    return .membership key negated (← valueList)

/-- Reads a key: a string with at least one character, or one or two words. -/
def key : Reader Key := do
  if (← peek) = .quotedString then
    let token ← advance
    let name := Text.unquote token.lexeme.toList
    if name.isEmpty then throw (.parse (.emptyKey token))
    return .quoted (String.ofList name)
  else
    let parent ← expect .identifier [.identifier, .quotedString]
    if (← peek) = .dot then
      let _ ← advance
      let child ← expect .identifier [.identifier]
      return .nested parent.lexeme child.lexeme
    else return .field parent.lexeme

/-! ### Expressions -/

/-- An expression that has been read, with its size. -/
structure Node where
  expr : Expr
  depth : Nat
  height : Nat

/-- How deeply a filter may be nested and how high its tree may be. -/
structure Limits where
  depth : Nat
  height : Nat

/-- The limits of every filter. -/
def Limits.standard : Limits := ⟨maxDepth, maxHeight⟩

/-- The kind of token that spells a connective. -/
def connectiveKind : Connective → Token.Kind
  | .and => .andWord
  | .or => .orWord

section

variable (limits : Limits)

/-- Reads the operands that follow `node` in a run of a connective; `deepest` is the depth of the
deepest operand so far. Every operand makes the tree higher, which ends the run at the latest at
the limit. -/
def moreOperands (c : Connective) (operand : Reader Node) (deepest : Nat) (node : Node) :
    Reader Node := do
  if (← peek) = connectiveKind c then
    let token ← advance
    let right ← operand
    let deepest := max deepest right.depth
    let height := max node.height right.height + 1
    if limits.depth < deepest + 1 then throw (.tooDeep token.position)
    else if _h : limits.height < height then throw (.tooLarge token.position)
    else moreOperands c operand deepest ⟨.join c node.expr right.expr, deepest + 1, height⟩
  else return node
termination_by limits.height - node.height
decreasing_by omega

/-- Reads a run of operands with one connective between them. The run adds one level to its deepest
operand. -/
def chain (c : Connective) (operand : Reader Node) : Reader Node := do
  let first ← operand
  moreOperands limits c operand first.depth first

/-- Reads an expression in parentheses. No more of them may be open if there is no `inner`. -/
def parenthesized (inner : Option (Reader Node)) : Reader Node := do
  let token ← advance
  match inner with
  | none => throw (.tooDeep token.position)
  | some inner =>
    let node ← inner
    let _ ← expect .rightParen [.rightParen, .andWord, .orWord]
    if limits.depth < node.depth + 1 then throw (.tooDeep token.position)
    else if limits.height < node.height + 1 then throw (.tooLarge token.position)
    else return ⟨.group node.expr, node.depth + 1, node.height + 1⟩

/-- Reads an operand of AND: a predicate, or an expression in parentheses. -/
def primary (inner : Option (Reader Node)) : Reader Node := do
  match ← peek with
  | .leftParen => parenthesized limits inner
  | .identifier | .quotedString =>
    let e ← predicate (← key)
    return ⟨e, 0, 1⟩
  | _ => noViableAlternative [.leftParen, .identifier, .quotedString]

/-- Reads an expression in which `room` more parentheses may be open at once. -/
def orExpr : Nat → Reader Node
  | 0 => chain limits .or (chain limits .and (primary limits none))
  | room + 1 => chain limits .or (chain limits .and (primary limits (some (orExpr room))))

/-- Reads a whole filter. -/
def filter : Reader Node := do
  let _ ← expect .whereWord [.whereWord]
  let node ← orExpr limits limits.depth
  if (← peek) = .endOfInput then return node
  else mismatchedInput [.andWord, .orWord, .endOfInput]

end

end Expr.Parser

/-- The text with the word WHERE in front, unless that is its first token. -/
def normalize (text : String) : String :=
  match (Cursor.ofString text).next with
  | (.ok token, _) => if token.kind = .whereWord then text else "WHERE " ++ text
  | (.error _, _) => "WHERE " ++ text

/-- Reads a filter that keeps within limits. -/
def Expr.parseWithin (limits : Parser.Limits) (text : String) : Except FilterError Expr := do
  if text.toList.all Text.isBlank then throw .emptyExpression
  let feed ← Parser.Feed.ofStream (Token.stream (normalize text))
  let (node, _) ← Parser.filter limits feed
  return node.expr

/-- Reads a filter. -/
def Expr.parse (text : String) : Except FilterError Expr := parseWithin .standard text

end MetadataFilter
