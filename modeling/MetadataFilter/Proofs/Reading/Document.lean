import MetadataFilter.Json
import MetadataFilter.Proofs.Expr.Leaves

/-!
# Reading filter documents

How stores read a filter document. An object with the one member `$and` or `$or` holds a list of
documents, of which all or any have to hold; an object with one member of any other name tests the
field of that name with the one operator in it. A field has a name, and none that starts with a
dollar sign.

## Key results

- `holdsJoined_append`, `atomsOf_append`, `formulas?_append`: lists one after the other
-/

namespace MetadataFilter.Document

/-- A test of a field, as stores know it. -/
inductive Atom where
  | compare (field : String) (op : CompareOp) (value : Value)
  | among (field : String) (negated : Bool) (values : List Value)
deriving DecidableEq

/-- The name of the field that is tested. -/
def Atom.field : Atom → String
  | compare name _ _ => name
  | among name _ _ => name

/-- A formula over tests. -/
inductive Formula where
  | atom (a : Atom)
  | join (c : Connective) (fs : List Formula)

namespace Formula

mutual

/-- Whether a formula holds, if `assign` says which tests do. -/
def holds (assign : Atom → Bool) : Formula → Bool
  | atom a => assign a
  | join c fs => holdsJoined assign c fs

/-- Whether formulas hold that are joined with a connective. -/
def holdsJoined (assign : Atom → Bool) (c : Connective) : List Formula → Bool
  | [] => c.neutral
  | f :: fs => c.apply (f.holds assign) (holdsJoined assign c fs)

end

mutual

/-- The tests of a formula, in order. -/
def atoms : Formula → List Atom
  | atom a => [a]
  | join _ fs => atomsOf fs

/-- The tests of some formulas, in order. -/
def atomsOf : List Formula → List Atom
  | [] => []
  | f :: fs => f.atoms ++ atomsOf fs

end

variable (assign : Atom → Bool)

/-- Two lists that are joined one after the other. -/
theorem holdsJoined_append (c : Connective) (fs gs : List Formula) :
    holdsJoined assign c (fs ++ gs) =
      c.apply (holdsJoined assign c fs) (holdsJoined assign c gs) := by
  induction fs with
  | nil => rw [List.nil_append, holdsJoined, c.neutral_apply]
  | cons f fs ih => rw [List.cons_append, holdsJoined, holdsJoined, ih, c.apply_assoc]

/-- The tests of two lists of formulas. -/
theorem atomsOf_append (fs gs : List Formula) : atomsOf (fs ++ gs) = atomsOf fs ++ atomsOf gs := by
  induction fs with
  | nil => rfl
  | cons f fs ih => rw [List.cons_append, atomsOf, atomsOf, ih, List.append_assoc]

end Formula

/-! ### Tests -/

/-- The constant that an operand is. -/
def constant? : Json → Option Value
  | .integer n =>
    if Int64.minValue.toInt ≤ n ∧ n ≤ Int64.maxValue.toInt then some (.integer (Int64.ofInt n))
    else none
  | .decimal x => some (.decimal x)
  | .text s => some (.text s)
  | .boolean b => some (.boolean b)
  | _ => none

/-- The operator of a comparison. -/
def comparator? (name : String) : Option CompareOp :=
  if name = "$eq" then some .equal
  else if name = "$ne" then some .notEqual
  else if name = "$gt" then some .greater
  else if name = "$gte" then some .greaterEqual
  else if name = "$lt" then some .less
  else if name = "$lte" then some .lessEqual
  else none

/-- The test of a field with an operator and its operand. -/
def atom? (field name : String) : Json → Option Atom
  | .array elements =>
    if name = "$in" then (elements.mapM constant?).map (.among field false)
    else if name = "$nin" then (elements.mapM constant?).map (.among field true)
    else none
  | operand => do return .compare field (← comparator? name) (← constant? operand)

/-! ### Formulas -/

/-- The connective of a list of documents. -/
def connective? (name : String) : Option Connective :=
  if name = "$and" then some .and
  else if name = "$or" then some .or
  else none

/-- Whether a name can be that of a field. -/
def isField (name : String) : Bool := !name.isEmpty && name.toList.head? != some '$'

mutual

/-- The formula that a document is. -/
def formula? : Json → Option Formula
  | .object [(name, .array elements)] => do
    return .join (← connective? name) (← formulas? elements)
  | .object [(name, .object [(op, operand)])] =>
    if isField name then (atom? name op operand).map .atom else none
  | _ => none

/-- The formulas that some documents are. -/
def formulas? : List Json → Option (List Formula)
  | [] => some []
  | d :: ds => do return (← formula? d) :: (← formulas? ds)

end

/-- The formulas of two lists of documents. -/
theorem formulas?_append {ds es : List Json} {fs gs : List Formula} (hds : formulas? ds = some fs)
    (hes : formulas? es = some gs) : formulas? (ds ++ es) = some (fs ++ gs) := by
  induction ds generalizing fs with
  | nil =>
    rw [formulas?] at hds
    cases hds
    exact hes
  -- A list of documents is read only if all of them are, so the first one has to be a formula.
  | cons d ds ih =>
    rw [formulas?] at hds
    cases hd : formula? d with
    | none => simp [hd] at hds
    | some f =>
      cases hrest : formulas? ds with
      | none => simp [hd, hrest] at hds
      | some fs' =>
        simp only [hd, hrest] at hds
        cases hds
        rw [List.cons_append, formulas?, hd, ih hrest]
        rfl

end MetadataFilter.Document
