import MetadataFilter.Expr.Parser
import MetadataFilter.Text.EditDistance
import MetadataFilter.Text.Lines

/-!
# Reports on rejected texts

A diagnostic shows a reader why a text is no filter: the message, the line with a caret under the
place, the tokens that would have fitted, and where possible a hint.

Main statements:

* `leastBy_eq_none_iff`, `leastBy_mem`, `leastBy_le`  the least of several elements
-/

namespace MetadataFilter

/-- Advice on how to mend a text. -/
inductive Diagnostic.Hint where
  /-- The word looks like a misspelt keyword. -/
  | keyword (kind : Token.Kind)
  /-- The word has to be a string. -/
  | quoteWord (word : String)
  | fewerParentheses
  | listOfValues
  | exampleFilter
deriving DecidableEq

/-- A report on a rejected text. -/
structure Diagnostic where
  message : String
  position : Option Position
  sourceLine : Option String
  expected : List Token.Kind
  hint : Option Diagnostic.Hint
deriving DecidableEq

namespace Diagnostic

/-- The wording of a hint. -/
def Hint.text : Hint → String
  | keyword kind => s!"did you mean '{kind.display}'?"
  | quoteWord word => s!"string values must be quoted, e.g. '{word}'"
  | fewerParentheses => "remove redundant parentheses or split the filter"
  | listOfValues => "use IN [...] instead of a long chain of == comparisons"
  | exampleFilter => "a filter looks like: country == 'BG' AND year >= 2020"

/-- Whether a kind of token is a keyword. -/
def isKeyword : Token.Kind → Bool
  | .andWord | .orWord | .inWord | .ninWord | .notWord | .whereWord => true
  | _ => false

/-- The first element with the least measure. -/
def leastBy {α : Type} (measure : α → Nat) : List α → Option α
  | [] => none
  | a :: as =>
    match leastBy measure as with
    | none => some a
    | some b => if measure b < measure a then some b else some a

/-- There is a least element where there is any. -/
theorem leastBy_eq_none_iff {α : Type} {measure : α → Nat} {as : List α} :
    leastBy measure as = none ↔ as = [] := by
  cases as with
  | nil => simp [leastBy]
  | cons a as =>
    simp only [leastBy, reduceCtorEq, iff_false]
    split
    · simp
    · split <;> simp

/-- The least element is one of the list. -/
theorem leastBy_mem {α : Type} {measure : α → Nat} {as : List α} {a : α}
    (h : leastBy measure as = some a) : a ∈ as := by
  induction as generalizing a with
  | nil => simp [leastBy] at h
  | cons b bs ih =>
    simp only [leastBy] at h
    split at h
    · simp_all
    · next c hc => split at h <;> simp_all

/-- No element measures less than the least one. -/
theorem leastBy_le {α : Type} {measure : α → Nat} {as : List α} {a : α}
    (h : leastBy measure as = some a) : ∀ b ∈ as, measure a ≤ measure b := by
  induction as generalizing a with
  | nil => simp
  | cons b bs ih =>
    simp only [leastBy] at h
    split at h
    · next hn =>
      rw [leastBy_eq_none_iff] at hn
      simp_all
    -- The least of the tail is below all of the tail, and the head is compared with it alone.
    · next c hc =>
      have hle := ih hc
      intro x hx
      split at h <;> cases h <;> rcases List.mem_cons.1 hx with rfl | hx
      · omega
      · exact hle x hx
      · exact Nat.le_refl _
      · have := hle x hx
        omega

/-- The distance of a word to a keyword, the word taken in upper case. -/
def keywordDistance (word : String) (kind : Token.Kind) : Nat :=
  Text.editDistance (word.map Char.toUpper) kind.display

/-- The keyword among the expected kinds that a word is likely to stand for: the nearest one, if it
is one or two edits away. -/
def similarKeyword? (word : String) (expected : List Token.Kind) : Option Token.Kind :=
  match leastBy (keywordDistance word) (expected.filter isKeyword) with
  | none => none
  | some kind =>
    let distance := keywordDistance word kind
    if 0 < distance && distance ≤ 2 then some kind else none

/-- A hint for a word that starts no alternative. -/
def wordHint? (e : ParseError) : Option Hint :=
  if e.reason != .noViableAlternative || !Token.isWord e.found then none
  else
    match similarKeyword? e.found e.expected with
    | some kind => some (.keyword kind)
    | none => if .quotedString ∈ e.expected then some (.quoteWord e.found) else none

/-- The line of a text, counted from 1. -/
def line? (text : String) (n : Nat) : Option String :=
  ((Text.lines text.toList)[n - 1]?).map String.ofList

/-- The report on a text that was rejected. -/
def ofError (e : FilterError) (text : String) : Diagnostic where
  message := e.message
  position := e.position?
  sourceLine := e.position?.bind fun p => line? (normalize text) p.line
  expected := match e with
    | .parse e => e.expected
    | _ => []
  hint := match e with
    | .emptyExpression => some .exampleFilter
    | .lex _ => none
    | .parse e => wordHint? e
    | .tooDeep _ => some .fewerParentheses
    | .tooLarge _ => some .listOfValues

/-- A report with its parts as they are shown. -/
structure Texts where
  message : String
  position : Option Position
  sourceLine : Option String
  expected : List String
  hint : Option String
deriving DecidableEq

/-- The parts of a report as they are shown. -/
def texts (d : Diagnostic) : Texts where
  message := d.message
  position := d.position
  sourceLine := d.sourceLine
  expected := d.expected.map Token.Kind.display
  hint := d.hint.map Hint.text

/-- The caret under the place of a report. -/
def Texts.caret (t : Texts) : Option String :=
  t.position.map fun p => String.ofList (List.replicate p.column ' ' ++ ['^'])

/-- The tokens that would have fitted, as a report lists them. -/
def Texts.expectedText (t : Texts) : String := ", ".intercalate t.expected

/-- The whole report. -/
def Texts.report (t : Texts) : String :=
  let place := match t.sourceLine, t.caret with
    | some line, some caret => s!"\n  {line}\n  {caret}"
    | _, _ => ""
  let expected := if t.expected.isEmpty then "" else s!"\n  expected one of: {t.expectedText}"
  let hint := match t.hint with
    | some hint => s!"\n  hint: {hint}"
    | none => ""
  t.message ++ place ++ expected ++ hint

/-- The caret under the place of a report. -/
def caret (d : Diagnostic) : Option String := d.texts.caret

/-- The whole report. -/
def report (d : Diagnostic) : String := d.texts.report

end Diagnostic

end MetadataFilter
