import MetadataFilter.Expr.Parser

/-!
# The grammar of filters

Which sequences of tokens are filters, and which tree each of them stands for:

    filter  ::= WHERE orExpr end
    orExpr  ::= andExpr (OR andExpr)*
    andExpr ::= primary (AND primary)*
    primary ::= test | '(' orExpr ')'
    test    ::= name compareOp literal | name IN list | name NOT IN list | name NIN list
    list    ::= '[' literal (',' literal)* ']'
    name    ::= identifier '.' identifier | identifier | string
    literal ::= sign? number | string+ | boolean

The relations say nothing about how tokens are read: there is no lookahead, no limit and no error
in them. `Derives` has one level for each connective, and both connectives follow the same two
rules.
-/

namespace MetadataFilter.Grammar

/-- The digits of a number before its point, or all of them. -/
def wholeDigits (t : Token) : List Char := t.lexeme.toList.takeWhile Char.isDigit

/-- The digits of a number after its point. -/
def fractionDigits (t : Token) : List Char := (t.lexeme.toList.dropWhile Char.isDigit).drop 1

/-- The double that a number with a point stands for. -/
def decimalValue (negative : Bool) (t : Token) : Double :=
  (Decimal.ofPlain (wholeDigits t) (fractionDigits t)).toDouble negative

/-- `Number negative t v`: with its sign, the number `t` stands for `v`. An integer has to fit into
64 bits once the sign is applied, and a decimal has to be finite. -/
inductive Number (negative : Bool) : Token → Value → Prop
  | integer {t : Token} {n : Int64} (kind : t.kind = .integer)
      (value : n.toInt = if negative then -(Text.ofDigits t.lexeme.toList : Int)
        else Text.ofDigits t.lexeme.toList) : Number negative t (.integer n)
  | decimal {t : Token} (kind : t.kind = .decimal)
      (finite : (decimalValue negative t).isFinite = true) :
      Number negative t (.decimal (decimalValue negative t))

/-- The characters of the strings after `previous`, with the delimiters that touching neighbours
leave between them. -/
def joined (previous : Token) : List Token → List Char
  | [] => []
  | t :: ts => Expr.Parser.seam previous t ++ Text.unquote t.lexeme.toList ++ joined t ts

/-- The constants of the language. -/
inductive Literal : List Token → Value → Prop
  | unsigned {t : Token} {v : Value} (number : Number false t v) : Literal [t] v
  | plus {sign t : Token} {v : Value} (kind : sign.kind = .plus) (number : Number false t v) :
      Literal [sign, t] v
  | minus {sign t : Token} {v : Value} (kind : sign.kind = .minus) (number : Number true t v) :
      Literal [sign, t] v
  | strings {t : Token} {ts : List Token} (first : t.kind = .quotedString)
      (others : ∀ u ∈ ts, u.kind = .quotedString) :
      Literal (t :: ts) (.text (String.ofList (Text.unquote t.lexeme.toList ++ joined t ts)))
  | boolean {t : Token} (kind : t.kind = .boolean) :
      Literal [t] (.boolean (t.lexeme.map Char.toLower = "true"))

/-- Constants with commas between them. -/
inductive Literals : List Token → List Value → Prop
  | one {ts : List Token} {v : Value} (literal : Literal ts v) : Literals ts [v]
  | more {ts us : List Token} {v : Value} {vs : List Value} {comma : Token}
      (literal : Literal ts v) (kind : comma.kind = .comma) (others : Literals us vs) :
      Literals (ts ++ comma :: us) (v :: vs)

/-- Constants in brackets. -/
inductive Bracketed : List Token → ValueList → Prop
  | mk {ts : List Token} {opening closing : Token} {first : Value} {others : List Value}
      (open_kind : opening.kind = .leftBracket) (values : Literals ts (first :: others))
      (close_kind : closing.kind = .rightBracket) :
      Bracketed (opening :: ts ++ [closing]) ⟨first, others⟩

/-- The names of fields. -/
inductive Name : List Token → Key → Prop
  | field {t : Token} (kind : t.kind = .identifier) : Name [t] (.field t.lexeme)
  | nested {parent dot child : Token} (parent_kind : parent.kind = .identifier)
      (dot_kind : dot.kind = .dot) (child_kind : child.kind = .identifier) :
      Name [parent, dot, child] (.nested parent.lexeme child.lexeme)
  | quoted {t : Token} (kind : t.kind = .quotedString)
      (nonempty : Text.unquote t.lexeme.toList ≠ []) :
      Name [t] (.quoted (String.ofList (Text.unquote t.lexeme.toList)))

/-- The kind of token that spells a comparison operator. -/
def compareKind : CompareOp → Token.Kind
  | .equal => .equal
  | .notEqual => .notEqual
  | .greater => .greater
  | .greaterEqual => .greaterEqual
  | .less => .less
  | .lessEqual => .lessEqual

/-- Comparisons and membership tests. -/
inductive Test : List Token → Expr → Prop
  | comparison {ks vs : List Token} {k : Key} {v : Value} {o : Token} {op : CompareOp}
      (name : Name ks k) (kind : o.kind = compareKind op) (literal : Literal vs v) :
      Test (ks ++ o :: vs) (.comparison k op v)
  | among {ks vs : List Token} {k : Key} {values : ValueList} {i : Token} (name : Name ks k)
      (kind : i.kind = .inWord) (list : Bracketed vs values) :
      Test (ks ++ i :: vs) (.membership k false values)
  | notAmong {ks vs : List Token} {k : Key} {values : ValueList} {n i : Token} (name : Name ks k)
      (not_kind : n.kind = .notWord) (in_kind : i.kind = .inWord) (list : Bracketed vs values) :
      Test (ks ++ n :: i :: vs) (.membership k true values)
  | noneOf {ks vs : List Token} {k : Key} {values : ValueList} {n : Token} (name : Name ks k)
      (kind : n.kind = .ninWord) (list : Bracketed vs values) :
      Test (ks ++ n :: vs) (.membership k true values)

/-- The places where expressions stand: an operand of AND, or a run of operands with one connective
between them. -/
inductive Level where
  | primary
  | run (c : Connective)
deriving DecidableEq

/-- The level of the operands of a run: those of OR are runs of AND. -/
def operandLevel : Connective → Level
  | .and => .primary
  | .or => .run .and

/-- `Derives level ts e`: at that level, the tokens `ts` stand for the tree `e`. Runs lean to the
left, and only parentheses become groups. -/
inductive Derives : Level → List Token → Expr → Prop
  | test {ts : List Token} {e : Expr} (test : Test ts e) : Derives .primary ts e
  | group {ts : List Token} {e : Expr} {opening closing : Token}
      (open_kind : opening.kind = .leftParen) (inner : Derives (.run .or) ts e)
      (close_kind : closing.kind = .rightParen) :
      Derives .primary (opening :: ts ++ [closing]) (.group e)
  | operand {c : Connective} {ts : List Token} {e : Expr}
      (operand : Derives (operandLevel c) ts e) : Derives (.run c) ts e
  | join {c : Connective} {ts us : List Token} {left right : Expr} {t : Token}
      (run : Derives (.run c) ts left) (kind : t.kind = Expr.Parser.connectiveKind c)
      (operand : Derives (operandLevel c) us right) :
      Derives (.run c) (ts ++ t :: us) (.join c left right)

/-- `Sentence ts e`: the tokens `ts` of a whole text stand for the filter `e`. -/
inductive Sentence : List Token → Expr → Prop
  | mk {ts : List Token} {e : Expr} {opening closing : Token}
      (open_kind : opening.kind = .whereWord) (expr : Derives (.run .or) ts e)
      (close_kind : closing.kind = .endOfInput) : Sentence (opening :: ts ++ [closing]) e

/-! ### What derivations start with -/

/-- A name starts with an identifier or a string. -/
theorem Name.exists_cons {ts : List Token} {k : Key} (h : Name ts k) :
    ∃ t us, ts = t :: us ∧ (t.kind = .identifier ∨ t.kind = .quotedString) := by
  cases h with
  | field kind => exact ⟨_, _, rfl, .inl kind⟩
  | nested kind => exact ⟨_, _, rfl, .inl kind⟩
  | quoted kind => exact ⟨_, _, rfl, .inr kind⟩

/-- A test starts with its name. -/
theorem Test.exists_cons {ts : List Token} {e : Expr} (h : Test ts e) :
    ∃ t us, ts = t :: us ∧ (t.kind = .identifier ∨ t.kind = .quotedString) := by
  cases h with
  | comparison name | among name | notAmong name | noneOf name =>
    obtain ⟨t, us, rfl, ht⟩ := name.exists_cons
    exact ⟨t, _, rfl, ht⟩

/-- An expression starts with a name or with an opening parenthesis. -/
theorem Derives.exists_cons {level : Level} {ts : List Token} {e : Expr} (h : Derives level ts e) :
    ∃ t us, ts = t :: us ∧
      (t.kind = .identifier ∨ t.kind = .quotedString ∨ t.kind = .leftParen) := by
  induction h with
  | test test =>
    obtain ⟨t, us, rfl, ht⟩ := test.exists_cons
    exact ⟨t, us, rfl, ht.imp_right .inl⟩
  | group open_kind => exact ⟨_, _, rfl, .inr (.inr open_kind)⟩
  | operand _ ih => exact ih
  | join _ _ _ ih =>
    obtain ⟨t, us, rfl, ht⟩ := ih
    exact ⟨t, _, rfl, ht⟩

end MetadataFilter.Grammar
