import MetadataFilter.Cli.Action

/-!
# Commands on filters

The commands that show the tree of a filter, its canonical spelling, or its tokens. They need no
files.
-/

namespace MetadataFilter.Cli

variable {m : Type → Type} [Monad m]

/-- Shows the tree of a filter. -/
def showTree (s : Surroundings) (i : Invocation) (expression : String) :
    Action (Printing m) Unit := do
  let text ← Action.ofExcept (readFilter s expression)
  let e ← Action.ofExcept (parseFilter text)
  if i.json then print (documentText (treeDocument e))
  else unless i.quiet do
    print (← Action.ofExcept ((drawing (colours s i) e).mapError .render))

/-- Says that a filter is valid, and shows its canonical spelling. -/
def checkFilter (s : Surroundings) (i : Invocation) (expression : String) :
    Action (Printing m) Unit := do
  let text ← Action.ofExcept (readFilter s expression)
  let e ← Action.ofExcept (parseFilter text)
  let canonical ← Action.ofExcept ((render .text .standard e).mapError .render)
  if i.json then
    print (documentText
      (.sorted (.object [("valid", .boolean true), ("canonical", .text canonical)])))
  else unless i.quiet do
    let mark := if colours s i then paint true [.green] "✓ valid" else "valid"
    print s!"{mark}: {canonical}\n"

/-- Shows the tokens of a filter. -/
def showTokens (s : Surroundings) (i : Invocation) (expression : String) :
    Action (Printing m) Unit := do
  let text ← Action.ofExcept (readFilter s expression)
  let ts ← Action.ofExcept (readTokens text)
  if i.json then print (documentText (tokenDocument ts))
  else unless i.quiet do print (tokenTable (colours s i) ts)

end MetadataFilter.Cli
