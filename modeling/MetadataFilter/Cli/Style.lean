/-!
# Coloured text

Terminals take codes that switch colours and weights on and off. A text is painted with styles one
around the other, and left as it is where colours are off.

Main statements:

* `paint_off`  without colours a text stays as it is
-/

namespace MetadataFilter.Cli

/-- A colour or weight of text. -/
inductive Style where
  | red | green | cyan | bold | dimmed
deriving DecidableEq

namespace Style

/-- A code of the terminal. -/
def code (n : Nat) : String := s!"\x1b[{n}m"

/-- The code that switches a style on. -/
def opening : Style → String
  | red => code 31
  | green => code 32
  | cyan => code 36
  | bold => code 1
  | dimmed => code 2

/-- The code that switches a style off. -/
def closing : Style → String
  | red | green | cyan => code 39
  | bold | dimmed => code 0

/-- A text with the codes of a style around it. -/
def wrap (s : String) (style : Style) : String := style.opening ++ s ++ style.closing

end Style

/-- A text in some styles, the innermost first, if colours are on. -/
def paint (colours : Bool) (styles : List Style) (s : String) : String :=
  if colours then styles.foldl Style.wrap s else s

/-- Where colours are off a text is left as it is. -/
@[simp] theorem paint_off (styles : List Style) (s : String) : paint false styles s = s := rfl

/-- A text with blanks after it up to a width. -/
def pad (width : Nat) (s : String) : String :=
  s ++ String.ofList (List.replicate (width - s.length) ' ')

end MetadataFilter.Cli
