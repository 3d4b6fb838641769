import MetadataFilter.Diagnostic
import MetadataFilter.Json

/-!
# Filters and reports as JSON documents

A filter's tree becomes a document with a `type` in every node, and a report one with the members
it has something to say about.
-/

namespace MetadataFilter

/-- A key as a document. -/
def Key.document : Key → Json
  | .field name => .object [("kind", .text "field"), ("name", .text name)]
  | .nested parent child =>
    .object [("kind", .text "nested"), ("parent", .text parent), ("child", .text child)]
  | .quoted name => .object [("kind", .text "quoted"), ("name", .text name)]

/-- A value as a document that holds its type. -/
def Value.document : Value → Json
  | .integer n => .object [("type", .text "integer"), ("value", .integer n.toInt)]
  | .decimal x => .object [("type", .text "decimal"), ("value", .decimal x)]
  | .text s => .object [("type", .text "text"), ("value", .text s)]
  | .boolean b => .object [("type", .text "bool"), ("value", .boolean b)]

/-- The name of an operator in documents. -/
def CompareOp.documentName : CompareOp → String
  | .equal => "eq"
  | .notEqual => "ne"
  | .greater => "gt"
  | .greaterEqual => "ge"
  | .less => "lt"
  | .lessEqual => "le"

/-- The name of a connective in documents. -/
def Connective.documentName : Connective → String
  | .and => "and"
  | .or => "or"

/-- A filter's tree as a document. -/
def Expr.document : Expr → Json
  | .comparison key op value =>
    .object [("type", .text "comparison"), ("key", key.document), ("op", .text op.documentName),
      ("value", value.document)]
  | .membership key negated values =>
    .object [("type", .text "membership"), ("key", key.document), ("negated", .boolean negated),
      ("values", .array (values.toList.map Value.document))]
  | .join c left right =>
    .object [("type", .text c.documentName), ("left", left.document), ("right", right.document)]
  | .group inner => .object [("type", .text "group"), ("inner", inner.document)]

/-- A place as a document. -/
def Position.document (p : Position) : Json :=
  .object [("offset", .integer p.offset), ("line", .integer p.line), ("column", .integer p.column)]

/-- The kinds of token that would have fitted, as a document. -/
def Diagnostic.expectedDocument (d : Diagnostic) : Json :=
  .array (d.expected.map fun kind => .text kind.display)

/-- A report as a document. -/
def Diagnostic.document (d : Diagnostic) : Json :=
  .object <|
    [("message", .text d.message)] ++
    (d.position.map fun p => ("position", p.document)).toList ++
    (d.sourceLine.map fun line => ("source_line", .text line)).toList ++
    (if d.expected.isEmpty then [] else [("expected", d.expectedDocument)]) ++
    (d.hint.map fun hint => ("hint", .text hint.text)).toList

end MetadataFilter
