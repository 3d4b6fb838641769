import MetadataFilter.Token

/-!
# Why a text is no filter

A text can be blank, hold something that is no token, hold tokens that form no filter, or go past
one of the two limits on size. Every cause but the first has a place in the text.
-/

namespace MetadataFilter

/-- Why a sequence of tokens is no filter. -/
inductive ParseError.Reason where
  /-- Nothing that can stand here starts with the token. -/
  | noViableAlternative
  /-- One of a few tokens had to stand here. -/
  | mismatchedInput
  /-- A quoted key without characters. -/
  | emptyKey
  /-- A number that is too large or too small for its type. -/
  | numberOutOfRange
deriving DecidableEq

/-- A token that does not fit: the reason, where it starts, its text, and the kinds of token that
would have fitted. -/
structure ParseError where
  reason : ParseError.Reason
  position : Position
  found : String
  expected : List Token.Kind
deriving DecidableEq

namespace ParseError

/-- Nothing that can stand here starts with the token. -/
def noViableAlternative (token : Token) (expected : List Token.Kind) : ParseError :=
  ⟨.noViableAlternative, token.position, token.text, expected⟩

/-- The token is none of those that had to stand here. -/
def mismatchedInput (token : Token) (expected : List Token.Kind) : ParseError :=
  ⟨.mismatchedInput, token.position, token.text, expected⟩

/-- The token is a quoted key without characters. -/
def emptyKey (token : Token) : ParseError :=
  ⟨.emptyKey, token.position, token.text, []⟩

/-- The token is a number out of range; `literal` is its text with its sign. -/
def numberOutOfRange (token : Token) (literal : String) : ParseError :=
  ⟨.numberOutOfRange, token.position, literal, []⟩

/-- Kinds of token in a message: one alone as it is, else a list in braces. -/
def kindSet : List Token.Kind → String
  | [kind] => kind.display
  | kinds => "\x7b" ++ ", ".intercalate (kinds.map Token.Kind.display) ++ "\x7d"

/-- The message without the place. -/
def detail (e : ParseError) : String :=
  match e.reason with
  | .noViableAlternative => s!"no viable alternative at input '{e.found}'"
  | .mismatchedInput => s!"mismatched input '{e.found}' expecting " ++ kindSet e.expected
  | .emptyKey => s!"empty key at input '{e.found}'"
  | .numberOutOfRange => s!"number out of range at input '{e.found}'"

end ParseError

/-- How deeply a filter may be nested. -/
def maxDepth : Nat := 256

/-- How high the tree of a filter may be. -/
def maxHeight : Nat := 2048

/-- Why a text is no filter. -/
inductive FilterError where
  | emptyExpression
  | lex (e : LexError)
  | parse (e : ParseError)
  | tooDeep (position : Position)
  | tooLarge (position : Position)
deriving DecidableEq

namespace FilterError

/-- Where the text fails. -/
def position? : FilterError → Option Position
  | .emptyExpression => none
  | .lex e => some e.position
  | .parse e => some e.position
  | .tooDeep position | .tooLarge position => some position

/-- The message for a text that is no filter. -/
def message : FilterError → String
  | .emptyExpression => "filter expression is empty"
  | .lex e => e.message
  | .parse e => s!"Line: {e.position.text}, Error: {e.detail}"
  | .tooDeep position =>
    s!"Line: {position.text}, Error: filter is nested too deeply (maximum depth {maxDepth})"
  | .tooLarge position =>
    s!"Line: {position.text}, Error: filter is too large (maximum tree height {maxHeight})"

end FilterError

end MetadataFilter
