import MetadataFilter.Proofs.Reading.Language
import MetadataFilter.Proofs.Text.Doubled
import MetadataFilter.Render.Sql

/-!
# Reading conditions in SQL

How a condition in SQL is read. Words are folded to lower case; between single quotes stands a
string and between double quotes a name, in which the quote is written twice and a backslash is a
character like any other; operators are the longest runs of their characters, and comments are
refused. From loose to tight bind OR, AND, comparisons, IN and NOT IN, all other operators, and
casts.

## Key results

- `scans_string`, `scans_quotedName`, `scans_word`, `scans_operator`: lexemes in front of a rest
-/

namespace MetadataFilter

open Reading Text

namespace Sql

/-- The pieces of a condition. -/
inductive Lexeme where
  /-- A word, in lower case. -/
  | word (name : String)
  /-- What stands between double quotes. -/
  | name (s : String)
  /-- What stands between single quotes. -/
  | string (s : String)
  | number (digits : List Char)
  | operator (symbol : String)
  /-- Two colons. -/
  | castMark
  | mark (c : Char)
deriving DecidableEq

/-- A condition, or a part of one. -/
inductive Term where
  | column (name : String)
  | constant (v : Value)
  | cast (t : Term) (type : String)
  | apply (symbol : String) (left right : Term)
  | among (t : Term) (negated : Bool) (values : List Term)
  | connect (c : Connective) (left right : Term)

/-! ### Lexemes -/

/-- The characters of operators. -/
def isOperatorChar (c : Char) : Bool := "+-*/<>=~!@#%^&|?".toList.contains c

/-- Whether a comment starts somewhere in a run of operator characters. -/
def hasComment : List Char → Bool
  | '-' :: '-' :: _ => true
  | '/' :: '*' :: _ => true
  | _ :: cs => hasComment cs
  | [] => false

/-- What stands at the front of a condition. -/
def front : Front Lexeme
  | [] => none
  | c :: cs =>
    if c = '\'' then
      (readDoubled '\'' cs).map fun r => (.string (String.ofList r.1), r.2)
    else if c = '\x22' then
      (readDoubled '\x22' cs).map fun r => (.name (String.ofList r.1), r.2)
    else if Token.isWordStart c then
      some (.word (String.ofList (((c :: cs).takeWhile Token.isWordChar).map Char.toLower)),
        (c :: cs).dropWhile Token.isWordChar)
    else if c.isDigit then
      some (.number (readNumeral (c :: cs)).1, (readNumeral (c :: cs)).2)
    -- one colon alone is nothing
    else if c = ':' then if cs.head? = some ':' then some (.castMark, cs.tail) else none
    else if c = '(' ∨ c = ')' ∨ c = ',' then some (.mark c, cs)
    else
      let run := (c :: cs).takeWhile isOperatorChar
      if run = [] ∨ hasComment run then none
      else some (.operator (String.ofList run), (c :: cs).dropWhile isOperatorChar)

/-! ### Operators -/

/-- The words that are no columns because this reader knows them. -/
def keywords : List String := ["and", "or", "not", "in", "true", "false"]

/-- The operators that compare. -/
def comparators : List String := ["=", "<>", "!=", "<", ">", "<=", ">="]

/-- Reads an operand: a column, a constant, or an expression in parentheses. -/
def operand (inner : Nat → Part Lexeme Term) : Part Lexeme Term
  | .word w :: rest =>
    if w = "true" then some (.constant (.boolean true), rest)
    else if w = "false" then some (.constant (.boolean false), rest)
    else if w ∈ keywords ∨ w ∈ reservedWords then none
    else some (.column w, rest)
  | .name s :: rest => some (.column s, rest)
  | .string s :: rest => some (.constant (.text s), rest)
  | .number ds :: rest => (numeralValue? false ds).map fun v => (.constant v, rest)
  | .operator symbol :: .number ds :: rest =>
    if symbol = "-" then (numeralValue? true ds).map fun v => (.constant v, rest) else none
  | .mark '(' :: rest =>
    match inner 1 rest with
    | some (t, .mark ')' :: rest) => some (t, rest)
    | _ => none
  | _ => none

/-- How tightly the operator binds that comes next. -/
def binding : List Lexeme → Nat
  | .word w :: rest =>
    if w = "or" then 1
    else if w = "and" then 2
    else if w = "in" then 4
    else if w = "not" ∧ rest.head? = some (.word "in") then 4
    else 0
  | .operator symbol :: _ => if symbol ∈ comparators then 3 else 5
  | .castMark :: _ => 6
  | _ => 0

/-- Reads the list of a membership test. -/
def among (inner : Nat → Part Lexeme Term) (t : Term) (negated : Bool) : Part Lexeme Term
  | .mark '(' :: rest =>
    (Operators.list (.mark ',') (.mark ')') (inner 1) rest).map fun r =>
      (.among t negated r.1, r.2)
  | _ => none

/-- Reads an operator and what follows it. -/
def extend (inner : Nat → Part Lexeme Term) (t : Term) : Part Lexeme Term
  | .word w :: rest =>
    if w = "or" then (inner 2 rest).map fun r => (.connect .or t r.1, r.2)
    else if w = "and" then (inner 3 rest).map fun r => (.connect .and t r.1, r.2)
    else if w = "in" then among inner t false rest
    else if w = "not" ∧ rest.head? = some (.word "in") then among inner t true rest.tail
    else none
  | .operator symbol :: rest =>
    (inner (if symbol ∈ comparators then 4 else 6) rest).map fun r =>
      (.apply symbol t r.1, r.2)
  | .castMark :: .word type :: rest => some (.cast t type, rest)
  | _ => none

/-- Conditions in SQL. -/
def language : Language Lexeme Term where
  operand := operand
  binding := binding
  extend := extend
  binding_nil := rfl
  front := front
  opening := .mark '('
  closing := .mark ')'
  front_opening _ := rfl
  front_closing _ := rfl
  operand_opening h := by simp only [operand, h]
  binding_closing _ := rfl

/-- Reads a condition. -/
def read (s : String) : Option Term := language.read s

/-! ### Lexemes in front of a rest -/

/-- A string is found unless another quote follows it. -/
theorem scans_string (s : String) :
    Scans front (· == '\'') (quoteDoubled '\'' s).toList [.string s] := by
  rw [toList_quoteDoubled]
  refine Scans.lexeme (fun rest hrest => ?_) (by decide)
  rw [List.cons_append, List.append_assoc, List.singleton_append, front, if_pos rfl,
    readDoubled_double hrest, Option.map_some, String.ofList_toList]

/-- A name between quotes is found unless another quote follows it. -/
theorem scans_quotedName (s : String) :
    Scans front (· == '\x22') (quoteDoubled '\x22' s).toList [.name s] := by
  rw [toList_quoteDoubled]
  refine Scans.lexeme (fun rest hrest => ?_) (by decide)
  rw [List.cons_append, List.append_assoc, List.singleton_append, front, if_neg (by decide),
    if_pos rfl, readDoubled_double hrest, Option.map_some, String.ofList_toList]

/-- A word is folded to lower case. -/
theorem scans_word {w : String} (h : Token.isWord w = true) :
    Scans front Token.isWordChar w.toList [.word (String.ofList (w.toList.map Char.toLower))] := by
  let lex (s : String) : Lexeme := .word (String.ofList (s.toList.map Char.toLower))
  refine @Scans.word Lexeme front lex (fun c cs hc => ?_) w h
  show _ = some (Lexeme.word _, _)
  rw [front, if_neg (ne_of_class hc (by decide)), if_neg (ne_of_class hc (by decide)), if_pos hc,
    String.toList_ofList]

/-- Digits are no characters of operators. -/
theorem isOperatorChar_of_isDigit {c : Char} (h : c.isDigit = true) : isOperatorChar c = false :=
  contains_of_isDigit (by decide) h

/-- A row of operator characters without a comment is one operator, unless another such character
follows. -/
theorem scans_operator {c : Char} {cs : List Char} (hall : (c :: cs).all isOperatorChar = true)
    (hcomment : hasComment (c :: cs) = false) :
    Scans front isOperatorChar (c :: cs) [.operator (String.ofList (c :: cs))] := by
  have hall := List.all_eq_true.1 hall
  -- No other lexeme starts like an operator.
  have hother : "+-*/<>=~!@#%^&|?".toList.all (fun d => decide (d ≠ '\'' ∧ d ≠ '\x22' ∧
      Token.isWordStart d = false ∧ d.isDigit = false ∧ d ≠ ':' ∧
      ¬ (d = '(' ∨ d = ')' ∨ d = ',') ∧ d.isWhitespace = false)) = true := by
    decide
  have hmem : c ∈ "+-*/<>=~!@#%^&|?".toList := List.contains_iff_mem.1 (hall c List.mem_cons_self)
  obtain ⟨h1, h2, h3, h4, h5, h6, h7⟩ := of_decide_eq_true (List.all_eq_true.1 hother c hmem)
  refine Scans.lexeme (fun rest hrest => ?_) h7
  rw [List.cons_append, front, if_neg h1, if_neg h2, if_neg (by simp [h3]), if_neg (by simp [h4]),
    if_neg h5, if_neg h6, ← List.cons_append, hrest.takeWhile_append hall,
    hrest.dropWhile_append hall]
  simp [hcomment]

/-- A number is found unless it is carried on. -/
theorem scans_number {ds : List Char} (h : IsNumeral ds) :
    Scans front (fun c => c.isDigit || c == '.') ds [.number ds] := by
  refine Scans.numeral (fun c cs hc => ?_) h
  rw [front, if_neg (ne_of_class hc (by decide)),
    if_neg (ne_of_class hc (by decide)), if_neg (not_isWordStart_of_isDigit hc), if_pos hc]

end Sql

end MetadataFilter
