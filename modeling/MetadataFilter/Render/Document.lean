import MetadataFilter.Json
import MetadataFilter.Render.Config
import MetadataFilter.Render.Construct

/-!
# Filters as JSON documents

A test becomes a field with an operator and an operand, and a run of one connective an array of its
operands in order, whatever its parentheses. Document stores split names at dots and know membership
tests; embedding stores do neither.

Main statements:

* `run_ungroupAll`  parentheses of the source do not count
-/

namespace MetadataFilter.Document

/-- The two kinds of store that take documents. -/
inductive Store where
  | documents
  | embeddings
deriving DecidableEq

/-- The name of a field. It may not be empty or read as an operator, and a quoted key of a document
store may not read as a path. -/
def field (store : Store) (config : RenderConfig) (key : Key) : Rendered String :=
  let path := config.path key
  let name := path.dotted
  if path.segments.any String.isEmpty then .error .emptyKey
  else if name.toList.head? = some '$' then .error (.dollarKey name)
  else
    match store, config.mapped? key, key with
    | .documents, none, .quoted _ =>
      if '.' ∈ name.toList then .error (.dottedKey name) else .ok name
    | _, _, _ => .ok name

/-- A value as an operand. -/
def operand : Value → Rendered Json
  | .integer n => .ok (.integer n.toInt)
  | .decimal x => if x.isFinite then .ok (.decimal x) else .error (.nonFinite x)
  | .text s => .ok (.text s)
  | .boolean b => .ok (.boolean b)

/-- The name of a comparison operator. -/
def operator : CompareOp → String
  | .equal => "$eq"
  | .notEqual => "$ne"
  | .greater => "$gt"
  | .greaterEqual => "$gte"
  | .less => "$lt"
  | .lessEqual => "$lte"

/-- The name of a connective. -/
def connectiveName : Connective → String
  | .and => "$and"
  | .or => "$or"

/-- A field with an operator and its operand. -/
def condition (field operator : String) (operand : Json) : Json :=
  .object [(field, .object [(operator, operand)])]

/-- An expression as the operands of its connective; a single test is one operand without a
connective. -/
structure Run where
  connective : Option Connective
  operands : List Json

/-- The document of a run. -/
def Run.document (r : Run) : Json :=
  match r.connective with
  | some c => .object [(connectiveName c, .array r.operands)]
  | none => match r.operands with
    | [single] => single
    | operands => .array operands

/-- The operands that a run adds to one of the connective `c`. -/
def Run.operandsFor (c : Connective) (r : Run) : List Json :=
  if r.connective = some c then r.operands else [r.document]

/-- The run of an expression. -/
def run (store : Store) (config : RenderConfig) : Expr → Rendered Run
  | .comparison key op value => do
    let operand ← operand value
    let field ← field store config key
    return ⟨none, [condition field (operator op) operand]⟩
  | .membership key negated values =>
    if store = .embeddings then .error (.membership negated)
    else do
      let operands ← values.toList.mapM operand
      let field ← field store config key
      return ⟨none, [condition field (if negated then "$nin" else "$in") (.array operands)]⟩
  | .join c left right => do
    let left ← run store config left
    let right ← run store config right
    return ⟨some c, left.operandsFor c ++ right.operandsFor c⟩
  | .group inner => run store config inner

/-- A filter as a document. -/
def document (store : Store) (config : RenderConfig) (e : Expr) : Rendered Json := do
  return (← run store config e).document

/-- A filter as the text of a document. -/
def render (store : Store) (config : RenderConfig) (e : Expr) : Rendered String := do
  return (← document store config e).compact

@[simp] theorem run_group (store : Store) (config : RenderConfig) (e : Expr) :
    run store config (.group e) = run store config e := rfl

/-- Parentheses of the source do not count, wherever they stand. -/
theorem run_ungroupAll (store : Store) (config : RenderConfig) (e : Expr) :
    run store config e.ungroupAll = run store config e := by
  induction e with
  | comparison => rfl
  | membership => rfl
  | join c l r hl hr => simp only [Expr.ungroupAll, run, hl, hr]
  | group e ih => simpa [Expr.ungroupAll] using ih

end MetadataFilter.Document
