import MetadataFilter.Json.Reader
import MetadataFilter.Proofs.Expr.Meaning
import MetadataFilter.Proofs.Reading.Language
import MetadataFilter.Render.JsonPath

/-!
# Reading path predicates

How a predicate over paths into a JSON document is read. A path starts at `$` and goes on with
members, which are words or strings; strings have the escapes of JSON; `!` negates what stands in
parentheses after it. From loose to tight bind `||`, `&&`, comparisons, and steps into members. A
predicate is read as a formula over atoms, which compare what is at the end of a path with a
constant.

## Key results

- `stringTail_quote`: a JSON string is read back
- `scans_string`, `scans_word`, `scans_operator`, `scans_number`: lexemes in front of a rest
-/

namespace MetadataFilter

open Reading Text

namespace Json.Reader

/-- A character is read back from its escape. -/
theorem stringTail_escapeChar (c : Char) (rest : List Char) :
    stringTail none (escapeChar c ++ rest) = (stringTail none rest).map (Text.Reader.push c) := by
  -- control characters have four digits, of which the first two are zero
  have hunit : ∀ n < 0x20, Text.Reader.ofDigits? 16
      ['0', '0', Nat.digitChar (n / 16), Nat.digitChar (n % 16)] = some n := by
    decide
  unfold escapeChar
  -- The seven short escapes; what is left is a control character or stands for itself.
  split
  · simp [stringTail, shortEscape?]
  · simp [stringTail, shortEscape?]
  · simp [stringTail, shortEscape?]
  · simp [stringTail, shortEscape?]
  · simp [stringTail, shortEscape?]
  · simp [stringTail, shortEscape?]
  · simp [stringTail, shortEscape?]
  · next hquote hslash _ _ _ _ _ =>
    split
    · next hcontrol =>
      have hleading : isLeading c.toNat = false := by simp [isLeading]; omega
      have htrailing : isTrailing c.toNat = false := by simp [isTrailing]; omega
      simp [stringTail, hunit c.toNat hcontrol, hleading, htrailing]
    -- any other character stands for itself
    · next hcontrol =>
      have hescape : c ≠ '\\' := hslash
      rw [List.singleton_append, stringTail]
      · simp [hcontrol, hescape]
      · rintro _ _ _ _ _ rfl
        exact absurd rfl hescape
      · exact hquote
      · rintro _ _ rfl
        exact absurd rfl hescape

/-- A JSON string is read back. -/
theorem stringTail_quote (cs rest : List Char) :
    stringTail none (cs.flatMap escapeChar ++ '\x22' :: rest) = some (cs, rest) := by
  induction cs with
  | nil => simp [stringTail]
  | cons c cs ih =>
    rw [List.flatMap_cons, List.append_assoc, stringTail_escapeChar, ih]
    rfl

end Json.Reader

namespace JsonPath

/-- The pieces of a predicate. -/
inductive Lexeme where
  /-- The dollar sign that paths start with. -/
  | root
  | dot
  | word (s : String)
  | string (s : String)
  | number (digits : List Char)
  | operator (symbol : String)
  | mark (c : Char)
deriving DecidableEq

/-- A predicate, or a part of one. -/
inductive Term where
  | root
  | member (t : Term) (name : String)
  | constant (v : Value)
  | compare (op : CompareOp) (left right : Term)
  | not (t : Term)
  | connect (c : Connective) (left right : Term)

/-! ### Lexemes -/

/-- The characters of operators. -/
def isOperatorChar (c : Char) : Bool := "=!<>&|-".toList.contains c

/-- What stands at the front of a predicate. -/
def front : Front Lexeme
  | [] => none
  | c :: cs =>
    if c = '\x22' then
      (Json.Reader.stringTail none cs).map fun r => (.string (String.ofList r.1), r.2)
    else if Token.isWordStart c then
      some (.word (String.ofList ((c :: cs).takeWhile Token.isWordChar)),
        (c :: cs).dropWhile Token.isWordChar)
    else if c.isDigit then
      some (.number (readNumeral (c :: cs)).1, (readNumeral (c :: cs)).2)
    else if c = '$' then some (.root, cs)
    else if c = '.' then some (.dot, cs)
    else if c = '(' ∨ c = ')' then some (.mark c, cs)
    else
      let run := (c :: cs).takeWhile isOperatorChar
      if run = [] then none
      else some (.operator (String.ofList run), (c :: cs).dropWhile isOperatorChar)

/-! ### Operators -/

/-- The operator of a comparison. -/
def comparator? (symbol : String) : Option CompareOp :=
  if symbol = "==" then some .equal
  else if symbol = "!=" then some .notEqual
  else if symbol = ">" then some .greater
  else if symbol = ">=" then some .greaterEqual
  else if symbol = "<" then some .less
  else if symbol = "<=" then some .lessEqual
  else none

/-- Reads an operand: the start of a path, a constant, or a predicate in parentheses, which `!` in
front of them negates. -/
def operand (inner : Nat → Part Lexeme Term) : Part Lexeme Term
  | .root :: rest => some (.root, rest)
  | .string s :: rest => some (.constant (.text s), rest)
  | .word w :: rest =>
    if w = "true" then some (.constant (.boolean true), rest)
    else if w = "false" then some (.constant (.boolean false), rest)
    else none
  | .number ds :: rest => (numeralValue? false ds).map fun v => (.constant v, rest)
  | .operator symbol :: .number ds :: rest =>
    if symbol = "-" then (numeralValue? true ds).map fun v => (.constant v, rest) else none
  | .operator symbol :: .mark '(' :: rest =>
    if symbol = "!" then
      match inner 1 rest with
      | some (t, .mark ')' :: rest) => some (.not t, rest)
      | _ => none
    else none
  | .mark '(' :: rest =>
    match inner 1 rest with
    | some (t, .mark ')' :: rest) => some (t, rest)
    | _ => none
  | _ => none

/-- How tightly the operator binds that comes next. -/
def binding : List Lexeme → Nat
  | .dot :: _ => 4
  | .operator symbol :: _ =>
    if symbol = "||" then 1
    else if symbol = "&&" then 2
    else if (comparator? symbol).isSome then 3
    else 0
  | _ => 0

/-- Reads an operator and what follows it. -/
def extend (inner : Nat → Part Lexeme Term) (t : Term) : Part Lexeme Term
  | .dot :: .word s :: rest => some (.member t s, rest)
  | .dot :: .string s :: rest => some (.member t s, rest)
  | .operator symbol :: rest =>
    if symbol = "||" then (inner 2 rest).map fun r => (.connect .or t r.1, r.2)
    else if symbol = "&&" then (inner 3 rest).map fun r => (.connect .and t r.1, r.2)
    else
      match comparator? symbol with
      | some op => (inner 4 rest).map fun r => (.compare op t r.1, r.2)
      | none => none
  | _ => none

/-- Path predicates. -/
def language : Language Lexeme Term where
  operand := operand
  binding := binding
  extend := extend
  binding_nil := rfl
  front := front
  opening := .mark '('
  closing := .mark ')'
  front_opening _ := rfl
  front_closing _ := rfl
  operand_opening h := by simp only [operand, h]
  binding_closing _ := rfl

/-! ### Formulas -/

/-- A comparison of what is at the end of a path with a constant. -/
structure Atom where
  path : List String
  op : CompareOp
  value : Value
deriving DecidableEq

/-- A formula over atoms. -/
inductive Formula where
  | atom (a : Atom)
  | not (f : Formula)
  | connect (c : Connective) (left right : Formula)
deriving DecidableEq

namespace Formula

/-- Whether a formula holds, if `assign` says which atoms do. -/
def holds (assign : Atom → Bool) : Formula → Bool
  | atom a => assign a
  | not f => !f.holds assign
  | connect c left right => c.apply (left.holds assign) (right.holds assign)

/-- The atoms of a formula, in order. -/
def atoms : Formula → List Atom
  | atom a => [a]
  | not f => f.atoms
  | connect _ left right => left.atoms ++ right.atoms

end Formula

namespace Term

/-- The members on a path, outermost first. -/
def path? : Term → Option (List String)
  | root => some []
  | member t name => t.path?.map (· ++ [name])
  | _ => none

/-- The formula that a predicate is. -/
def formula? : Term → Option Formula
  | compare op left (constant v) => left.path?.map fun path => .atom ⟨path, op, v⟩
  | not t => t.formula?.map .not
  | connect c left right => do return .connect c (← left.formula?) (← right.formula?)
  | _ => none

end Term

/-- Reads a predicate. -/
def read (s : String) : Option Formula := (language.read s).bind Term.formula?

/-! ### Lexemes in front of a rest -/

/-- A string is found whatever follows it. -/
theorem scans_string (s : String) :
    Scans front (fun _ => false) (Json.quote s).toList [.string s] := by
  have htext : (Json.quote s).toList =
      '\x22' :: (s.toList.flatMap Json.escapeChar ++ ['\x22']) := by
    simp [Json.quote]
  rw [htext]
  refine Scans.lexeme (fun rest _ => ?_) (by decide)
  rw [List.cons_append, List.append_assoc, List.singleton_append, front, if_pos rfl,
    Json.Reader.stringTail_quote, Option.map_some, String.ofList_toList]

/-- A word is found unless it is carried on. -/
theorem scans_word {w : String} (h : Token.isWord w = true) :
    Scans front Token.isWordChar w.toList [.word w] := by
  refine Scans.word (fun c cs hc => ?_) h
  rw [front, if_neg (ne_of_class hc (by decide)), if_pos hc]

/-- A number is found unless it is carried on. -/
theorem scans_number {ds : List Char} (h : IsNumeral ds) :
    Scans front (fun c => c.isDigit || c == '.') ds [.number ds] := by
  refine Scans.numeral (fun c cs hc => ?_) h
  rw [front, if_neg (ne_of_class hc (by decide)),
    if_neg (not_isWordStart_of_isDigit hc), if_pos hc]

/-- Digits are no characters of operators. -/
theorem isOperatorChar_of_isDigit {c : Char} (h : c.isDigit = true) : isOperatorChar c = false :=
  contains_of_isDigit (by decide) h

/-- A row of operator characters is one operator, unless another such character follows. -/
theorem scans_operator {c : Char} {cs : List Char} (hall : (c :: cs).all isOperatorChar = true) :
    Scans front isOperatorChar (c :: cs) [.operator (String.ofList (c :: cs))] := by
  have hall := List.all_eq_true.1 hall
  -- no other lexeme starts like an operator
  have hother : "=!<>&|-".toList.all (fun d => decide (d ≠ '\x22' ∧ Token.isWordStart d = false ∧
      d.isDigit = false ∧ d ≠ '$' ∧ d ≠ '.' ∧ ¬ (d = '(' ∨ d = ')') ∧
      d.isWhitespace = false)) = true := by
    decide
  have hmem : c ∈ "=!<>&|-".toList := List.contains_iff_mem.1 (hall c List.mem_cons_self)
  obtain ⟨h1, h2, h3, h4, h5, h6, h7⟩ := of_decide_eq_true (List.all_eq_true.1 hother c hmem)
  let lex (run : List Char) : Lexeme := .operator (String.ofList run)
  show Scans front isOperatorChar (c :: cs) [lex (c :: cs)]
  refine Scans.run (fun rest => ?_) hall h7
  rw [front, if_neg h1, if_neg (by simp [h2]), if_neg (by simp [h3]), if_neg h4, if_neg h5,
    if_neg h6]
  simp [hall c, lex]

end JsonPath

end MetadataFilter
