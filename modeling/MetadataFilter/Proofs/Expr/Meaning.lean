import MetadataFilter.Proofs.Expr.Grouping

/-!
# What filters mean

Whether a filter holds, once it is known which comparisons hold: a field is among values if it is
equal to one of them, and it is not among them if it is equal to none.

## Key results

- `holds_ungroupAll`, `tests_ungroupAll`: parentheses have no meaning of their own
- `holds_regroup`, `tests_regroup`: what has only the parentheses that it needs means the same
-/

namespace MetadataFilter

/-- The truth value of two truth values that are joined. -/
def Connective.apply : Connective → Bool → Bool → Bool
  | and, a, b => a && b
  | or, a, b => a || b

/-- A comparison of a field with a constant. -/
structure Comparison where
  key : Key
  op : CompareOp
  value : Value
deriving DecidableEq

namespace Expr

/-- Whether a filter holds, if `passes` says which comparisons do. -/
def holds (passes : Comparison → Bool) : Expr → Bool
  | comparison k op v => passes ⟨k, op, v⟩
  | membership k false vs => vs.toList.any fun v => passes ⟨k, .equal, v⟩
  | membership k true vs => !vs.toList.any fun v => passes ⟨k, .equal, v⟩
  | join c left right => c.apply (left.holds passes) (right.holds passes)
  | group inner => inner.holds passes

/-- The comparisons that a filter makes, in order. -/
def tests : Expr → List Comparison
  | comparison k op v => [⟨k, op, v⟩]
  | membership k _ vs => vs.toList.map fun v => ⟨k, .equal, v⟩
  | join _ left right => left.tests ++ right.tests
  | group inner => inner.tests

/-- Parentheses have no meaning of their own. -/
theorem holds_ungroupAll (passes : Comparison → Bool) (e : Expr) :
    e.ungroupAll.holds passes = e.holds passes := by
  induction e with
  | join c left right hl hr => simp only [ungroupAll, holds, hl, hr]
  | group inner ih => exact ih
  | _ => rfl

/-- Parentheses are no comparisons. -/
theorem tests_ungroupAll (e : Expr) : e.ungroupAll.tests = e.tests := by
  induction e with
  | join c left right hl hr => simp only [ungroupAll, tests, hl, hr]
  | group inner ih => exact ih
  | _ => rfl

/-- A tree with only the parentheses that it needs means the same. -/
theorem holds_regroup (passes : Comparison → Bool) (e : Expr) :
    e.regroup.holds passes = e.holds passes := by
  rw [← holds_ungroupAll, ungroupAll_regroup, holds_ungroupAll]

/-- A tree with only the parentheses that it needs makes the same comparisons. -/
theorem tests_regroup (e : Expr) : e.regroup.tests = e.tests := by
  rw [← tests_ungroupAll, ungroupAll_regroup, tests_ungroupAll]

end Expr

end MetadataFilter
