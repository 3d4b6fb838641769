import MetadataFilter.Json
import MetadataFilter.Text.Reader

/-!
# Reading JSON texts

Strings are decoded, and whole values can be skipped without being decoded.
-/

namespace MetadataFilter.Json

open Text.Reader

namespace Reader

/-- The characters that may stand between the pieces of a document. -/
def isSpace (c : Char) : Bool := c == ' ' || c == '\n' || c == '\t' || c == '\r'

/-- Skips space. -/
def space : Text.Reader Unit := skipWhile isSpace

/-- Whether a unit of 16 bits is the first of two for one character. -/
def isLeading (n : Nat) : Bool := 0xD800 ≤ n && n < 0xDC00

/-- Whether a unit of 16 bits is the second of two for one character. -/
def isTrailing (n : Nat) : Bool := 0xDC00 ≤ n && n < 0xE000

/-- The character of two units of 16 bits. -/
def pairCharacter (high low : Nat) : Char :=
  Char.ofNat (0x10000 + (high - 0xD800) * 0x400 + (low - 0xDC00))

/-- The character of a short escape. -/
def shortEscape? : Char → Option Char
  | '\x22' => some '\x22'
  | '\\' => some '\\'
  | '/' => some '/'
  | 'b' => some '\x08'
  | 'f' => some '\x0c'
  | 'n' => some '\n'
  | 'r' => some '\r'
  | 't' => some '\t'
  | _ => none

/-- The characters of a string up to its closing quote, which is taken as well. After the first of
two units of 16 bits for one character, `high` is that unit, and the second has to follow. -/
def stringTail (high : Option Nat) : List Char → Option (List Char × List Char)
  | '\\' :: 'u' :: a :: b :: c :: d :: rest =>
    match high, ofDigits? 16 [a, b, c, d] with
    | none, some unit =>
      if isLeading unit then stringTail (some unit) rest
      else if isTrailing unit then none
      else (stringTail none rest).map (push (Char.ofNat unit))
    | some high, some low =>
      if isTrailing low then (stringTail none rest).map (push (pairCharacter high low)) else none
    | _, none => none
  | '\x22' :: rest => if high.isSome then none else some ([], rest)
  | '\\' :: e :: rest =>
    match high, shortEscape? e with
    | none, some c => (stringTail none rest).map (push c)
    | _, _ => none
  | c :: rest =>
    if high.isSome || c.toNat < 0x20 || c == '\\' then none
    else (stringTail none rest).map (push c)
  | [] => none

/-- A string. -/
def string : Text.Reader String := do
  space
  expect '\x22'
  let text ← stringTail none
  return String.ofList text

/-! ### Skipping -/

/-- Skips a string up to its closing quote, which is skipped as well. Units of 16 bits may stand
alone here. -/
def skipString : List Char → Option (List Char)
  | [] => none
  | '\x22' :: rest => some rest
  | '\\' :: 'u' :: a :: b :: c :: d :: rest =>
    if (ofDigits? 16 [a, b, c, d]).isSome then skipString rest else none
  | '\\' :: e :: rest => if (shortEscape? e).isSome then skipString rest else none
  | c :: rest => if c.toNat < 0x20 || c == '\\' then none else skipString rest

/-- Skips one or more digits. -/
def skipDigits (cs : List Char) : Option (List Char) :=
  if cs.head?.any Char.isDigit then some (cs.dropWhile Char.isDigit) else none

/-- Skips a number without its sign. -/
def skipNumber (cs : List Char) : Option (List Char) := do
  let cs ← match cs with
    | '0' :: rest => if rest.head?.any Char.isDigit then none else some rest
    | cs => skipDigits cs
  let cs ← match cs with
    | '.' :: rest => skipDigits rest
    | cs => some cs
  match cs with
  | 'e' :: '+' :: rest | 'E' :: '+' :: rest | 'e' :: '-' :: rest | 'E' :: '-' :: rest
  | 'e' :: rest | 'E' :: rest => skipDigits rest
  | cs => some cs

mutual

/-- Skips a value. Every level and every item uses up one unit of fuel and at least one
character. -/
def skipValue : Nat → List Char → Option (List Char)
  | 0, _ => none
  | fuel + 1, cs =>
    match cs.dropWhile isSpace with
    | '\x22' :: rest => skipString rest
    | '[' :: rest =>
      match rest.dropWhile isSpace with
      | ']' :: rest => some rest
      | rest => skipElements fuel rest
    | '\x7b' :: rest =>
      match rest.dropWhile isSpace with
      | '\x7d' :: rest => some rest
      | rest => skipMembers fuel rest
    | 'n' :: 'u' :: 'l' :: 'l' :: rest => some rest
    | 't' :: 'r' :: 'u' :: 'e' :: rest => some rest
    | 'f' :: 'a' :: 'l' :: 's' :: 'e' :: rest => some rest
    | '-' :: rest => skipNumber rest
    | cs => skipNumber cs

/-- Skips the elements of an array and its closing bracket. -/
def skipElements : Nat → List Char → Option (List Char)
  | 0, _ => none
  | fuel + 1, cs => do
    match (← skipValue fuel cs).dropWhile isSpace with
    | ',' :: rest => skipElements fuel rest
    | ']' :: rest => some rest
    | _ => none

/-- Skips the members of an object and its closing brace. -/
def skipMembers : Nat → List Char → Option (List Char)
  | 0, _ => none
  | fuel + 1, cs =>
    match cs.dropWhile isSpace with
    | '\x22' :: cs => do
      match (← skipString cs).dropWhile isSpace with
      | ':' :: cs =>
        match (← skipValue fuel cs).dropWhile isSpace with
        | ',' :: rest => skipMembers fuel rest
        | '\x7d' :: rest => some rest
        | _ => none
      | _ => none
    | _ => none

end

/-- Skips a value. -/
def value : Text.Reader Unit := fun cs => (skipValue (cs.length + 1) cs).map ((), ·)

/-- What a reader gives for a text that holds nothing else. -/
def run {α : Type} (r : Text.Reader α) (text : String) : Option α :=
  match r text.toList with
  | some (x, rest) => if (rest.dropWhile isSpace).isEmpty then some x else none
  | none => none

end Reader

end MetadataFilter.Json
