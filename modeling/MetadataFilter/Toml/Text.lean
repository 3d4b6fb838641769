import MetadataFilter.Text.Reader

/-!
# Strings and keys of TOML

Strings stand on one line or between three delimiters over several, and have escapes or not. A key
is one or more names with dots between them; a name is bare or a string on one line.
-/

namespace MetadataFilter.Toml

open Text.Reader

/-- Blanks within a line. -/
def isSpace (c : Char) : Bool := c == ' ' || c == '\t'

/-- A character that may stand in comments and strings: anything but control characters, of which
only the tab is allowed. -/
def isPrintable (c : Char) : Bool := c == '\t' || (0x20 ≤ c.toNat && c != '\x7f')

/-- A character that may stand in a bare name. -/
def isBare (c : Char) : Bool := c.isAlphanum || c == '_' || c == '-'

/-- Skips blanks within a line. -/
def space : Text.Reader Unit := skipWhile isSpace

/-- The text after a line break, if one comes first. -/
def afterNewline? : List Char → Option (List Char)
  | '\n' :: cs => some cs
  | '\r' :: '\n' :: cs => some cs
  | _ => none

/-- The character that hexadecimal digits stand for. -/
def ofHex? (ds : List Char) : Option Char :=
  (ofDigits? 16 ds).bind fun n => if n.isValidChar then some (Char.ofNat n) else none

/-- The character of a short escape. -/
def shortEscape? : Char → Option Char
  | 'b' => some '\x08'
  | 't' => some '\t'
  | 'n' => some '\n'
  | 'f' => some '\x0c'
  | 'r' => some '\r'
  | '\x22' => some '\x22'
  | '\\' => some '\\'
  | _ => none

/-- A string with escapes, from behind its delimiter. -/
def basicTail : List Char → Option (List Char × List Char)
  | '\x22' :: cs => some ([], cs)
  | '\\' :: 'u' :: a :: b :: c :: d :: cs => do
    let x ← ofHex? [a, b, c, d]
    (basicTail cs).map (push x)
  | '\\' :: 'U' :: a :: b :: c :: d :: e :: f :: g :: h :: cs => do
    let x ← ofHex? [a, b, c, d, e, f, g, h]
    (basicTail cs).map (push x)
  | '\\' :: e :: cs => do
    let x ← shortEscape? e
    (basicTail cs).map (push x)
  | c :: cs => if isPrintable c && c != '\\' then (basicTail cs).map (push c) else none
  | [] => none

/-- A string without escapes, from behind its delimiter. -/
def literalTail : List Char → Option (List Char × List Char)
  | '\'' :: cs => some ([], cs)
  | c :: cs => if isPrintable c then (literalTail cs).map (push c) else none
  | [] => none

/-- Whether a backslash before these characters joins two lines. -/
def joinsLines (cs : List Char) : Bool := (afterNewline? (cs.dropWhile isSpace)).isSome

/-- A string over several lines with escapes, from behind its delimiter. Up to two quotes right
before the closing ones belong to the string. After a backslash that joins lines, `skipping` is
set, and blanks and line breaks are left out. -/
def multiBasicTail (skipping : Bool) : List Char → Option (List Char × List Char)
  | '\x22' :: '\x22' :: '\x22' :: '\x22' :: '\x22' :: cs => some (['\x22', '\x22'], cs)
  | '\x22' :: '\x22' :: '\x22' :: '\x22' :: cs => some (['\x22'], cs)
  | '\x22' :: '\x22' :: '\x22' :: cs => some ([], cs)
  | '\\' :: 'u' :: a :: b :: c :: d :: cs => do
    let x ← ofHex? [a, b, c, d]
    (multiBasicTail false cs).map (push x)
  | '\\' :: 'U' :: a :: b :: c :: d :: e :: f :: g :: h :: cs => do
    let x ← ofHex? [a, b, c, d, e, f, g, h]
    (multiBasicTail false cs).map (push x)
  | '\\' :: e :: cs =>
    if joinsLines (e :: cs) then multiBasicTail true (e :: cs)
    else do
      let x ← shortEscape? e
      (multiBasicTail false cs).map (push x)
  | '\r' :: '\n' :: cs =>
    if skipping then multiBasicTail true cs else (multiBasicTail false cs).map (push '\n')
  | '\n' :: cs =>
    if skipping then multiBasicTail true cs else (multiBasicTail false cs).map (push '\n')
  | c :: cs =>
    if skipping && isSpace c then multiBasicTail true cs
    else if isPrintable c && c != '\\' then (multiBasicTail false cs).map (push c)
    else none
  | [] => none

/-- A string over several lines without escapes, from behind its delimiter. Up to two quotes right
before the closing ones belong to the string. -/
def multiLiteralTail : List Char → Option (List Char × List Char)
  | '\'' :: '\'' :: '\'' :: '\'' :: '\'' :: cs => some (['\'', '\''], cs)
  | '\'' :: '\'' :: '\'' :: '\'' :: cs => some (['\''], cs)
  | '\'' :: '\'' :: '\'' :: cs => some ([], cs)
  | '\r' :: '\n' :: cs => (multiLiteralTail cs).map (push '\n')
  | '\n' :: cs => (multiLiteralTail cs).map (push '\n')
  | c :: cs => if isPrintable c then (multiLiteralTail cs).map (push c) else none
  | [] => none

/-- The text without a line break right at its start. -/
def dropNewline (cs : List Char) : List Char := (afterNewline? cs).getD cs

/-- A string of any kind. -/
def string : Text.Reader String := fun cs =>
  let tail := match cs with
    | '\x22' :: '\x22' :: '\x22' :: cs => multiBasicTail false (dropNewline cs)
    | '\'' :: '\'' :: '\'' :: cs => multiLiteralTail (dropNewline cs)
    | '\x22' :: cs => basicTail cs
    | '\'' :: cs => literalTail cs
    | _ => none
  tail.map fun (s, cs) => (String.ofList s, cs)

/-- One name of a key. -/
def name : Text.Reader String := fun cs =>
  let tail := match cs with
    | '\x22' :: cs => basicTail cs
    | '\'' :: cs => literalTail cs
    | cs => if cs.head?.any isBare then some (cs.takeWhile isBare, cs.dropWhile isBare) else none
  tail.map fun (s, cs) => (String.ofList s, cs)

/-- The names of a key after the first one; every name uses up one unit of fuel and at least one
character. -/
def moreNames : Nat → Text.Reader (List String)
  | 0 => failure
  | fuel + 1 => do
    space
    if ← take? '.' then
      space
      let n ← name
      return n :: (← moreNames fuel)
    else return []

/-- How many names a key may have at most, and how many brackets may be open at once. -/
def maxNesting : Nat := 79

/-- The names of a key, with blanks around them. -/
def key : Text.Reader (List String) := do
  space
  let first ← name
  let fuel := (← get).length + 1
  let names := first :: (← moreNames fuel)
  if maxNesting < names.length then failure else return names

end MetadataFilter.Toml
