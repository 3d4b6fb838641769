import MetadataFilter.Proofs.Expr.Meaning

/-!
# Filters over their leaves

What a filter says once it is known which of its leaves hold. Unlike in `Expr.holds`, which takes a
membership test apart into comparisons, a leaf counts as a whole here.

## Key results

- `Connective.apply_assoc`, `Connective.apply_neutral`: operands may be put together in runs
-/

namespace MetadataFilter

/-- The truth value that a connective gives no operands at all. -/
def Connective.neutral : Connective → Bool
  | and => true
  | or => false

/-- How three truth values are grouped does not matter. -/
theorem Connective.apply_assoc (c : Connective) (x y z : Bool) :
    c.apply (c.apply x y) z = c.apply x (c.apply y z) := by
  cases c with
  | and => exact Bool.and_assoc x y z
  | or => exact Bool.or_assoc x y z

/-- In front the neutral truth value does not count. -/
theorem Connective.neutral_apply (c : Connective) (x : Bool) : c.apply c.neutral x = x := by
  cases c <;> rfl

/-- Nor does it count behind. -/
theorem Connective.apply_neutral (c : Connective) (x : Bool) : c.apply x c.neutral = x := by
  cases c with
  | and => exact Bool.and_true x
  | or => exact Bool.or_false x

/-- A test of a filter. -/
inductive Leaf where
  | comparison (key : Key) (op : CompareOp) (value : Value)
  | membership (key : Key) (negated : Bool) (values : ValueList)
deriving DecidableEq

/-- The field that a test looks at. -/
def Leaf.key : Leaf → Key
  | comparison k _ _ => k
  | membership k _ _ => k

/-- A test as a filter of its own. -/
def Leaf.expr : Leaf → Expr
  | comparison k op v => .comparison k op v
  | membership k negated vs => .membership k negated vs

namespace Expr

/-- Whether a filter holds, if `passes` says which of its leaves do. -/
def holdsAt (passes : Leaf → Bool) : Expr → Bool
  | comparison k op v => passes (.comparison k op v)
  | membership k negated vs => passes (.membership k negated vs)
  | join c left right => c.apply (left.holdsAt passes) (right.holdsAt passes)
  | group inner => inner.holdsAt passes

/-- The tests of a filter, in order. -/
def leaves : Expr → List Leaf
  | comparison k op v => [.comparison k op v]
  | membership k negated vs => [.membership k negated vs]
  | join _ left right => left.leaves ++ right.leaves
  | group inner => inner.leaves

end Expr

end MetadataFilter
