import MetadataFilter.Position

/-!
# Tokens of the filter language

A token is a piece of filter text with its kind and the place where it starts. `Kind.display` is
the name that messages use for a kind.
-/

namespace MetadataFilter

/-- The kinds of token. Words are the keywords in their two reserved spellings, and `&&` and `||`
are spellings of AND and OR. -/
inductive Token.Kind where
  | whereWord | andWord | orWord | inWord | ninWord | notWord
  | dot | comma | leftBracket | rightBracket | leftParen | rightParen
  | equal | notEqual | greater | greaterEqual | less | lessEqual
  | minus | plus
  | boolean | quotedString | integer | decimal | identifier
  | endOfInput
deriving DecidableEq

/-- A piece of filter text: its kind, its characters as written, and where it starts. -/
structure Token where
  kind : Token.Kind
  lexeme : String
  position : Position
deriving DecidableEq

namespace Token

/-- The name of a kind in messages: a word or a class bare, a punctuation mark in quotes. -/
def Kind.display : Kind → String
  | .whereWord => "WHERE"
  | .andWord => "AND"
  | .orWord => "OR"
  | .inWord => "IN"
  | .ninWord => "NIN"
  | .notWord => "NOT"
  | .dot => "'.'"
  | .comma => "','"
  | .leftBracket => "'['"
  | .rightBracket => "']'"
  | .leftParen => "'('"
  | .rightParen => "')'"
  | .equal => "'=='"
  | .notEqual => "'!='"
  | .greater => "'>'"
  | .greaterEqual => "'>='"
  | .less => "'<'"
  | .lessEqual => "'<='"
  | .minus => "'-'"
  | .plus => "'+'"
  | .boolean => "BOOLEAN_VALUE"
  | .quotedString => "QUOTED_STRING"
  | .integer => "INTEGER_VALUE"
  | .decimal => "DECIMAL_VALUE"
  | .identifier => "IDENTIFIER"
  | .endOfInput => "<EOF>"

/-- Whether a kind is one of the six comparison operators. -/
def Kind.isComparison : Kind → Bool
  | .equal | .notEqual | .greater | .greaterEqual | .less | .lessEqual => true
  | _ => false

/-- The token at the end of a text. -/
def endOfInput (position : Position) : Token := ⟨.endOfInput, "", position⟩

/-- A token as messages show it: its characters, or `<EOF>` at the end of the text. -/
def text (t : Token) : String :=
  if t.kind = .endOfInput then "<EOF>" else t.lexeme

end Token

/-- What can stand in a filter text that is no token. -/
inductive LexFault where
  /-- A character that no token starts with, or that needs a partner. -/
  | unexpected (c : Char)
  /-- A string without its closing delimiter on the same line. -/
  | unterminated
deriving DecidableEq

/-- A fault of the text and the place where the failing piece starts. -/
structure LexError where
  fault : LexFault
  position : Position
deriving DecidableEq

/-- The message for a fault of the text. -/
def LexError.message (e : LexError) : String :=
  match e.fault with
  | .unexpected c => s!"Line: {e.position.text}, Error: token recognition error at: '{c}'"
  | .unterminated => s!"Line: {e.position.text}, Error: unterminated string literal"

end MetadataFilter
