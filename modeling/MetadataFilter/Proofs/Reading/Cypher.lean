import MetadataFilter.Proofs.Reading.Language
import MetadataFilter.Proofs.Text.Doubled
import MetadataFilter.Render.Cypher

/-!
# Reading conditions on graph nodes

How a condition in Cypher is read. Between back-ticks stands a name, in which the back-tick is
written twice; between single quotes stands a string, in which a backslash starts an escape.
Keywords may be written in any case. From loose to tight bind OR, AND, NOT in front of its operand,
comparisons, IN, and the dot in front of a property. A condition is read as a filter, whose keys are
the properties of variables.

## Key results

- `stringTail_escape`: a string is read back
- `scans_string`, `scans_name`, `scans_word`, `scans_operator`, `scans_number`: lexemes in front of
  a rest
-/

namespace MetadataFilter.Cypher

open Reading Text

/-- The pieces of a condition. -/
inductive Lexeme where
  | word (w : String)
  /-- What stands between back-ticks. -/
  | name (s : String)
  /-- What stands between single quotes. -/
  | string (s : String)
  | number (digits : List Char)
  | operator (symbol : String)
  | mark (c : Char)
deriving DecidableEq

/-- A condition, or a part of one. -/
inductive Term where
  /-- A variable, which stands for a node. -/
  | node (name : String)
  | constant (v : Value)
  | property (t : Term) (name : String)
  | compare (op : CompareOp) (left right : Term)
  | among (t : Term) (values : List Term)
  | not (t : Term)
  | connect (c : Connective) (left right : Term)

/-! ### Lexemes -/

/-- The character that is written with a backslash in front of `c`. -/
def escaped? : Char → Option Char
  | '\\' => some '\\'
  | '\'' => some '\''
  | 'n' => some '\n'
  | 'r' => some '\r'
  | 't' => some '\t'
  | _ => none

/-- What stands in a string whose first quote has been read, and what is left after it. -/
def stringTail : List Char → Option (List Char × List Char)
  | [] => none
  | '\'' :: rest => some ([], rest)
  | ['\\'] => none
  | '\\' :: c :: rest => do
    let d ← escaped? c
    (stringTail rest).map fun r => (d :: r.1, r.2)
  | c :: rest => (stringTail rest).map fun r => (c :: r.1, r.2)

/-- The characters of operators. -/
def isOperatorChar (c : Char) : Bool := "=<>-".toList.contains c

/-- The marks of one character. -/
def marks : List Char := ['.', ',', '(', ')', '[', ']']

/-- What stands at the front of a condition. -/
def front : Front Lexeme
  | [] => none
  | c :: cs =>
    if c = '\'' then (stringTail cs).map fun r => (.string (String.ofList r.1), r.2)
    else if c = '\x60' then
      (readDoubled '\x60' cs).map fun r => (.name (String.ofList r.1), r.2)
    else if Token.isWordStart c then
      some (.word (String.ofList ((c :: cs).takeWhile Token.isWordChar)),
        (c :: cs).dropWhile Token.isWordChar)
    else if c.isDigit then
      some (.number (readNumeral (c :: cs)).1, (readNumeral (c :: cs)).2)
    else if c ∈ marks then some (.mark c, cs)
    else
      let run := (c :: cs).takeWhile isOperatorChar
      if run = [] then none
      else some (.operator (String.ofList run), (c :: cs).dropWhile isOperatorChar)

/-! ### Operators -/

/-- A word as keywords are known. -/
def keyword (w : String) : String := String.ofList (w.toList.map Char.toUpper)

/-- The upper case of a word, character by character. -/
theorem keyword_eq_map (w : String) : keyword w = w.map Char.toUpper := by
  rw [keyword, ← String.toList_map, String.ofList_toList]

/-- The operator of a comparison. -/
def comparator? (symbol : String) : Option CompareOp :=
  if symbol = "=" then some .equal
  else if symbol = "<>" then some .notEqual
  else if symbol = ">" then some .greater
  else if symbol = ">=" then some .greaterEqual
  else if symbol = "<" then some .less
  else if symbol = "<=" then some .lessEqual
  else none

/-- Reads an operand: a variable, a constant, NOT with its operand, or a condition in
parentheses. -/
def operand (inner : Nat → Part Lexeme Term) : Part Lexeme Term
  | .word w :: rest =>
    if keyword w = "NOT" then (inner 4 rest).map fun r => (.not r.1, r.2)
    else if keyword w = "TRUE" then some (.constant (.boolean true), rest)
    else if keyword w = "FALSE" then some (.constant (.boolean false), rest)
    else if keyword w ∈ reservedWords then none
    else some (.node w, rest)
  | .name s :: rest => some (.node s, rest)
  | .string s :: rest => some (.constant (.text s), rest)
  | .number ds :: rest => (numeralValue? false ds).map fun v => (.constant v, rest)
  | .operator symbol :: .number ds :: rest =>
    if symbol = "-" then (numeralValue? true ds).map fun v => (.constant v, rest) else none
  | .mark '(' :: rest =>
    match inner 1 rest with
    | some (t, .mark ')' :: rest) => some (t, rest)
    | _ => none
  | _ => none

/-- How tightly the operator binds that comes next. -/
def binding : List Lexeme → Nat
  | .word w :: _ =>
    if keyword w = "OR" then 1
    else if keyword w = "AND" then 2
    else if keyword w = "IN" then 5
    else 0
  | .operator symbol :: _ => if (comparator? symbol).isSome then 4 else 0
  | .mark '.' :: _ => 6
  | _ => 0

/-- Reads the list of a membership test. -/
def among (inner : Nat → Part Lexeme Term) (t : Term) : Part Lexeme Term
  | .mark '[' :: rest =>
    (Operators.list (.mark ',') (.mark ']') (inner 1) rest).map fun r => (.among t r.1, r.2)
  | _ => none

/-- Reads an operator and what follows it. -/
def extend (inner : Nat → Part Lexeme Term) (t : Term) : Part Lexeme Term
  | .word w :: rest =>
    if keyword w = "OR" then (inner 2 rest).map fun r => (.connect .or t r.1, r.2)
    else if keyword w = "AND" then (inner 3 rest).map fun r => (.connect .and t r.1, r.2)
    else if keyword w = "IN" then among inner t rest
    else none
  | .operator symbol :: rest =>
    match comparator? symbol with
    | some op => (inner 5 rest).map fun r => (.compare op t r.1, r.2)
    | none => none
  | .mark '.' :: .word w :: rest => some (.property t w, rest)
  | .mark '.' :: .name s :: rest => some (.property t s, rest)
  | _ => none

/-- Conditions on nodes. -/
def language : Language Lexeme Term where
  operand := operand
  binding := binding
  extend := extend
  binding_nil := rfl
  front := front
  opening := .mark '('
  closing := .mark ')'
  front_opening _ := rfl
  front_closing _ := rfl
  operand_opening h := by simp only [operand, h]
  binding_closing _ := rfl

/-! ### Filters -/

namespace Term

/-- The property of a variable, as a key: the property's name is inside the variable's. -/
def key? : Term → Option Key
  | property (node name) s => some (.nested name s)
  | _ => none

/-- The constant that a part of a condition is. -/
def constant? : Term → Option Value
  | constant v => some v
  | _ => none

/-- A test whether a property is among constants, or among none of them. -/
def membership? (negated : Bool) (t : Term) (values : List Term) : Option Expr := do
  return .membership (← t.key?) negated (← ValueList.ofList? (← values.mapM constant?))

/-- The filter that a condition is. -/
def filter? : Term → Option Expr
  | compare op left right => do return .comparison (← left.key?) op (← right.constant?)
  | among t values => membership? false t values
  | not (among t values) => membership? true t values
  | connect c left right => do return .join c (← left.filter?) (← right.filter?)
  | _ => none

end Term

/-- Reads a condition. -/
def read (s : String) : Option Expr := (language.read s).bind Term.filter?

/-! ### Lexemes in front of a rest -/

/-- A character is read back from its escape. -/
theorem stringTail_escapeChar (c : Char) (rest : List Char) :
    stringTail (escapeChar c ++ rest) = (stringTail rest).map fun r => (c :: r.1, r.2) := by
  unfold escapeChar
  -- The five characters that are written as escapes.
  split
  · rfl
  · rfl
  · rfl
  · rfl
  · rfl
  -- any other character stands for itself
  · next hslash hquote _ _ _ =>
    rw [List.singleton_append, stringTail]
    · exact hquote
    · exact fun h _ => hslash h
    · exact fun _ _ h _ => hslash h

/-- A string is read back. -/
theorem stringTail_escape (cs rest : List Char) :
    stringTail (cs.flatMap escapeChar ++ '\'' :: rest) = some (cs, rest) := by
  induction cs with
  | nil => rfl
  | cons c cs ih =>
    rw [List.flatMap_cons, List.append_assoc, stringTail_escapeChar, ih]
    rfl

/-- A string is found whatever follows it. -/
theorem scans_string (s : String) :
    Scans front (fun _ => false) (string s).toList [.string s] := by
  have htext : (string s).toList = '\'' :: (s.toList.flatMap escapeChar ++ ['\'']) := by
    simp [string]
  rw [htext]
  refine Scans.lexeme (fun rest _ => ?_) (by decide)
  rw [List.cons_append, List.append_assoc, List.singleton_append, front, if_pos rfl,
    stringTail_escape, Option.map_some, String.ofList_toList]

/-- A name between back-ticks is found unless another back-tick follows it. -/
theorem scans_name (s : String) :
    Scans front (· == '\x60') (quotedName s).toList [.name s] := by
  rw [quotedName, toList_quoteDoubled]
  refine Scans.lexeme (fun rest hrest => ?_) (by decide)
  rw [List.cons_append, List.append_assoc, List.singleton_append, front, if_neg (by decide),
    if_pos rfl, readDoubled_double hrest, Option.map_some, String.ofList_toList]

/-- A word is found unless it is carried on. -/
theorem scans_word {w : String} (h : Token.isWord w = true) :
    Scans front Token.isWordChar w.toList [.word w] := by
  refine Scans.word (fun c cs hc => ?_) h
  rw [front, if_neg (ne_of_class hc (by decide)), if_neg (ne_of_class hc (by decide)), if_pos hc]

/-- A number is found unless it is carried on. -/
theorem scans_number {ds : List Char} (h : IsNumeral ds) :
    Scans front (fun c => c.isDigit || c == '.') ds [.number ds] := by
  refine Scans.numeral (fun c cs hc => ?_) h
  rw [front, if_neg (ne_of_class hc (by decide)), if_neg (ne_of_class hc (by decide)),
    if_neg (not_isWordStart_of_isDigit hc), if_pos hc]

/-- A row of operator characters is one operator, unless another such character follows. -/
theorem scans_operator {c : Char} {cs : List Char} (hall : (c :: cs).all isOperatorChar = true) :
    Scans front isOperatorChar (c :: cs) [.operator (String.ofList (c :: cs))] := by
  have hall := List.all_eq_true.1 hall
  -- no other lexeme starts like an operator
  have hother : "=<>-".toList.all (fun d => decide (d ≠ '\'' ∧ d ≠ '\x60' ∧
      Token.isWordStart d = false ∧ d.isDigit = false ∧ d ∉ marks ∧
      d.isWhitespace = false)) = true := by
    decide
  have hmem : c ∈ "=<>-".toList := List.contains_iff_mem.1 (hall c List.mem_cons_self)
  obtain ⟨h1, h2, h3, h4, h5, h6⟩ := of_decide_eq_true (List.all_eq_true.1 hother c hmem)
  let lex (run : List Char) : Lexeme := .operator (String.ofList run)
  show Scans front isOperatorChar (c :: cs) [lex (c :: cs)]
  refine Scans.run (fun rest => ?_) hall h6
  rw [front, if_neg h1, if_neg h2, if_neg (by simp [h3]), if_neg (by simp [h4]), if_neg h5]
  simp [hall c, lex]

end MetadataFilter.Cypher
