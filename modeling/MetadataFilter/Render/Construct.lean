import MetadataFilter.Backend
import MetadataFilter.Double.Text
import MetadataFilter.Expr

/-!
# What a backend cannot express
-/

namespace MetadataFilter

/-- A part of a filter that some backend cannot express. -/
inductive Construct where
  | emptyKey
  | lineBreak
  | nulCharacter
  /-- A key inside another one, of which one is no identifier. -/
  | nestedKey (parent child : String)
  /-- A decimal that is not finite. -/
  | nonFinite (x : Double)
  /-- A list whose values need different casts. -/
  | mixedList (first other : Value)
  /-- A membership test. -/
  | membership (negated : Bool)
  /-- A key that would read as an operator. -/
  | dollarKey (name : String)
  /-- A quoted key that would read as a path. -/
  | dottedKey (name : String)
deriving DecidableEq

/-- The name of a construct in messages. -/
def Construct.text : Construct → String
  | emptyKey => "an empty key"
  | lineBreak => "a string containing a line break"
  | nulCharacter => "a string containing a NUL character"
  | nestedKey parent child => s!"nested key '{parent}.{child}' with a non-identifier segment"
  | nonFinite x => s!"non-finite decimal {x.text}"
  | mixedList first other => s!"an IN list mixing {first.typeName} and {other.typeName} values"
  | membership negated => if negated then "NOT IN" else "IN"
  | dollarKey name => s!"key '{name}' starting with '$'"
  | dottedKey name => s!"quoted key '{name}' containing '.'"

/-- A construct that a backend cannot express. -/
structure RenderError where
  backend : Backend
  construct : Construct
deriving DecidableEq

/-- The message for a construct that a backend cannot express. -/
def RenderError.message (e : RenderError) : String :=
  s!"{e.backend.name} backend cannot render {e.construct.text}"

/-- The result of writing a part of a filter. -/
abbrev Rendered (α : Type) := Except Construct α

/-- A number or truth value as all languages with infix operators write it, or the text given for
a string. -/
def Value.render (text : String → Rendered String) : Value → Rendered String
  | .integer n => .ok (Text.integerText n.toInt)
  | .decimal x => if x.isFinite then .ok x.text else .error (.nonFinite x)
  | .text s => text s
  | .boolean b => .ok (if b then "true" else "false")

end MetadataFilter
