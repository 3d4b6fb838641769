import MetadataFilter.Cli.Style
import MetadataFilter.Diagnostic
import MetadataFilter.Expr.Document
import MetadataFilter.Render

/-!
# What the command line shows

Reports on rejected texts, drawings of trees, and tables of tokens, with colours or without.
-/

namespace MetadataFilter.Cli

/-- A report in colours: its labels and its message stand out. -/
def colouredReport (t : Diagnostic.Texts) : String :=
  let place := match t.sourceLine, t.caret with
    | some line, some caret => s!"\n  {line}\n  " ++ paint true [.red, .bold] caret
    | _, _ => ""
  let expected := if t.expected.isEmpty then ""
    else "\n  " ++ paint true [.dimmed] "expected one of:" ++ " " ++ t.expectedText
  let hint := match t.hint with
    | some hint => "\n  " ++ paint true [.cyan, .bold] "hint:" ++ " " ++ hint
    | none => ""
  paint true [.red, .bold] "error:" ++ " " ++ paint true [.bold] t.message ++ place ++ expected ++
    hint

/-- A report on a rejected text. -/
def report (colours : Bool) (t : Diagnostic.Texts) : String :=
  if colours then colouredReport t else "error: " ++ t.report

/-- What a node of a tree is drawn as: a connective, a pair of parentheses, or a test in its
canonical spelling. -/
def label (colours : Bool) : Expr → Except RenderError String
  | .join .and _ _ => .ok (paint colours [.cyan, .bold] "AND")
  | .join .or _ _ => .ok (paint colours [.cyan, .bold] "OR")
  | .group _ => .ok (paint colours [.dimmed] "( )")
  | e => render .text .standard e

/-- The lines of a tree: its own, which starts with `lead`, and those below, which start with
`margin`. A corner leads to the last node inside another one, and a bar goes on to the last node. -/
def drawLines (colours : Bool) (lead margin : String) : Expr → Except RenderError (List String)
  | .join c left right => do
    let own ← label colours (.join c left right)
    let upper ← drawLines colours (margin ++ "├── ") (margin ++ "│   ") left
    let lower ← drawLines colours (margin ++ "└── ") (margin ++ "    ") right
    return (lead ++ own) :: (upper ++ lower)
  | .group inner => do
    let own ← label colours (.group inner)
    let lower ← drawLines colours (margin ++ "└── ") (margin ++ "    ") inner
    return (lead ++ own) :: lower
  | e => do
    let own ← label colours e
    return [lead ++ own]

/-- A tree, one line for each node. -/
def drawing (colours : Bool) (e : Expr) : Except RenderError String := do
  let lines ← drawLines colours "" "" e
  return "".intercalate (lines.map (· ++ "\n"))

/-- A tree and its canonical spelling as a document. -/
def treeDocument (e : Expr) : Json :=
  let canonical := match render .text .standard e with
    | .ok text => text
    | .error err => err.message
  .object [("canonical", .text canonical), ("ast", e.document)]

/-- A line of the table of tokens. -/
def tokenRow (colours : Bool) (t : Token) : String :=
  pad 8 t.position.text ++ " " ++ paint colours [.cyan] (pad 16 t.kind.display) ++ " " ++ t.text ++
    "\n"

/-- The tokens of a text, one line for each. -/
def tokenTable (colours : Bool) (ts : List Token) : String :=
  paint colours [.dimmed] (pad 8 "Pos" ++ " " ++ pad 16 "Kind" ++ " Text") ++ "\n" ++
    "".intercalate (ts.map (tokenRow colours))

/-- The tokens of a text as a document. -/
def tokenDocument (ts : List Token) : Json :=
  .array (ts.map fun t => .object
    [("kind", .text t.kind.display), ("text", .text t.text),
     ("line", .integer t.position.line), ("column", .integer t.position.column),
     ("offset", .integer t.position.offset)])

end MetadataFilter.Cli
