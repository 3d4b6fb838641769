import MetadataFilter.Render.Construct

/-!
# Dialects with infix operators

A dialect says how it writes single tests and the two connectives; `Dialect.render` joins tests
with the fewest parentheses under which AND binds tighter than OR and both lean to the left. The
parentheses of the source do not count.

Main statements:

* `run_ungroupAll`  parentheses of the source do not count
-/

namespace MetadataFilter

/-- A language that writes AND and OR between their operands. -/
structure Dialect where
  comparison : Key → CompareOp → Value → Rendered String
  membership : Key → Bool → ValueList → Rendered String
  word : Connective → String

/-- How tightly a connective binds. -/
def Connective.precedence : Connective → Nat
  | .or => 1
  | .and => 2

/-- A rendered expression: its operands, the last one first, and the connective between them. A
single test is one operand without a connective. -/
structure Dialect.Run where
  connective : Option Connective
  operands : List String

namespace Dialect

/-- How tightly the operands of a run are bound; a single test is one piece. -/
def Run.precedence (r : Run) : Nat :=
  match r.connective with
  | some c => c.precedence
  | none => 3

/-- The text of a run. -/
def Run.text (d : Dialect) (r : Run) : String :=
  match r.connective with
  | some c => (" " ++ d.word c ++ " ").intercalate r.operands.reverse
  | none => "".intercalate r.operands.reverse

/-- A text in parentheses if need be. -/
def wrap (needed : Bool) (s : String) : String :=
  if needed then "(" ++ s ++ ")" else s

/-- Joins two runs. A left run of the same connective goes on; any other operand is wrapped if it
binds less tightly, on the right also if it binds as tightly. -/
def Run.join (d : Dialect) (c : Connective) (left right : Run) : Run :=
  let last := wrap (right.precedence ≤ c.precedence) (right.text d)
  if left.connective = some c then ⟨some c, last :: left.operands⟩
  else ⟨some c, [last, wrap (left.precedence < c.precedence) (left.text d)]⟩

/-- The run of an expression. -/
def run (d : Dialect) : Expr → Rendered Run
  | .comparison key op value => return ⟨none, [← d.comparison key op value]⟩
  | .membership key negated values => return ⟨none, [← d.membership key negated values]⟩
  | .join c left right => do
    let left ← d.run left
    let right ← d.run right
    return left.join d c right
  | .group inner => d.run inner

/-- The text of an expression. -/
def render (d : Dialect) (e : Expr) : Rendered String := do
  return (← d.run e).text d

@[simp] theorem run_group (d : Dialect) (e : Expr) : d.run (.group e) = d.run e := rfl

/-- Parentheses of the source do not count, wherever they stand. -/
theorem run_ungroupAll (d : Dialect) (e : Expr) : d.run e.ungroupAll = d.run e := by
  induction e with
  | comparison => rfl
  | membership => rfl
  | join c l r hl hr => simp only [Expr.ungroupAll, run, hl, hr]
  | group e ih => simpa [Expr.ungroupAll] using ih

end Dialect

end MetadataFilter
