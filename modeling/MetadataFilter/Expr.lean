import MetadataFilter.Double.Basic

/-!
# Filter expressions

A filter is a tree of comparisons and membership tests on fields of a document's metadata, joined
with AND and OR. Parentheses of the source are kept as `group` nodes.

Main statements:

* `ungroupAll_group`    parentheses do not count once all are taken away
-/

namespace MetadataFilter

/-- The name of a field: a bare one, one inside another field, or a quoted one, in which a dot is a
character like any other. -/
inductive Key where
  | field (name : String)
  | nested (parent child : String)
  | quoted (name : String)
deriving DecidableEq

/-- The name by which field maps know a key. -/
def Key.logicalName : Key → String
  | .field name => name
  | .nested parent child => parent ++ "." ++ child
  | .quoted name => name

/-- A constant that a field is compared with. -/
inductive Value where
  | integer (n : Int64)
  | decimal (x : Double)
  | text (s : String)
  | boolean (b : Bool)
deriving DecidableEq

/-- The name of a value's type. -/
def Value.typeName : Value → String
  | .integer _ => "integer"
  | .decimal _ => "decimal"
  | .text _ => "text"
  | .boolean _ => "boolean"

/-- Equality of values of one type; decimals are equal as numbers. -/
def Value.equals : Value → Value → Bool
  | .integer m, .integer n => m == n
  | .decimal x, .decimal y => x.equals y
  | .text s, .text t => s == t
  | .boolean a, .boolean b => a == b
  | _, _ => false

/-- The values of a membership test, of which there is at least one. -/
structure ValueList where
  first : Value
  others : List Value
deriving DecidableEq

namespace ValueList

/-- The values in order. -/
def toList (vs : ValueList) : List Value := vs.first :: vs.others

/-- The list of the given values, if there are any. -/
def ofList? : List Value → Option ValueList
  | [] => none
  | v :: vs => some ⟨v, vs⟩

/-- How many values there are. -/
def size (vs : ValueList) : Nat := vs.others.length + 1

/-- The list of the values of a list is that list. -/
theorem ofList?_toList (vs : ValueList) : ofList? vs.toList = some vs := rfl

@[simp] theorem length_toList (vs : ValueList) : vs.toList.length = vs.size := rfl

end ValueList

/-- Equality of two lists of values, place by place. -/
def Value.listEquals : List Value → List Value → Bool
  | [], [] => true
  | v :: vs, w :: ws => v.equals w && listEquals vs ws
  | _, _ => false

/-- The operators that compare a field with a constant. -/
inductive CompareOp where
  | equal | notEqual | greater | greaterEqual | less | lessEqual
deriving DecidableEq

/-- An operator as filters write it. -/
def CompareOp.symbol : CompareOp → String
  | .equal => "=="
  | .notEqual => "!="
  | .greater => ">"
  | .greaterEqual => ">="
  | .less => "<"
  | .lessEqual => "<="

/-- The operators that join expressions. -/
inductive Connective where
  | and | or
deriving DecidableEq

/-- A filter. -/
inductive Expr where
  /-- A comparison of a field with a constant. -/
  | comparison (key : Key) (op : CompareOp) (value : Value)
  /-- A test whether a field is among constants, or among none of them. -/
  | membership (key : Key) (negated : Bool) (values : ValueList)
  /-- Two expressions joined with AND or OR. -/
  | join (connective : Connective) (left right : Expr)
  /-- An expression in parentheses. -/
  | group (inner : Expr)
deriving DecidableEq

namespace Expr

/-- The expression without the parentheses around it. -/
def ungrouped : Expr → Expr
  | group inner => inner.ungrouped
  | e => e

/-- The expression without any parentheses. -/
def ungroupAll : Expr → Expr
  | group inner => inner.ungroupAll
  | join c left right => join c left.ungroupAll right.ungroupAll
  | e => e

/-- The connective that joins the expression's two sides, looking through parentheses. -/
def connective? : Expr → Option Connective
  | join c _ _ => some c
  | group inner => inner.connective?
  | _ => none

/-- The longest path from the root to a leaf, counted in nodes. -/
def height : Expr → Nat
  | join _ left right => max left.height right.height + 1
  | group inner => inner.height + 1
  | _ => 1

/-- How deeply the expression is nested where it continues a run of the connective `run`, if any, to
the left: a run counts as one level however long it is, and so do parentheses. -/
def depthAfter (run : Option Connective) : Expr → Nat
  | join c left right =>
    max (left.depthAfter (some c)) (right.depthAfter none) + if run = some c then 0 else 1
  | group inner => inner.depthAfter none + 1
  | _ => 0

/-- How deeply the expression is nested. -/
def depth (e : Expr) : Nat := e.depthAfter none

/-- Equality of expressions, in which decimals are equal as numbers. -/
def equals : Expr → Expr → Bool
  | comparison k o v, comparison k' o' v' => k == k' && o == o' && v.equals v'
  | membership k n vs, membership k' n' vs' =>
    k == k' && n == n' && Value.listEquals vs.toList vs'.toList
  | join c l r, join c' l' r' => c == c' && l.equals l' && r.equals r'
  | group e, group e' => e.equals e'
  | _, _ => false

@[simp] theorem ungroupAll_group (inner : Expr) : (group inner).ungroupAll = inner.ungroupAll := rfl

end Expr

end MetadataFilter
