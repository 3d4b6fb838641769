/-!
# Positions in a text

A position counts the bytes before it, the line it is on and the characters before it on that
line. Only a line feed starts a new line.

Main statements:

* `advanceBy_append`  moving over two pieces is moving over the first and then the second
* `offset_advanceBy`  moving over a piece adds its length in bytes
-/

namespace MetadataFilter

/-- A place in a text: the bytes before it, its line counted from 1, and the characters before it
on that line. -/
structure Position where
  offset : Nat
  line : Nat
  column : Nat
deriving DecidableEq

namespace Position

/-- The place before the first character of a text. -/
def start : Position := ⟨0, 1, 0⟩

/-- The place after the character `c` that stands at `p`. -/
def advance (p : Position) (c : Char) : Position :=
  if c = '\n' then ⟨p.offset + c.utf8Size, p.line + 1, 0⟩
  else ⟨p.offset + c.utf8Size, p.line, p.column + 1⟩

/-- The place after the characters `cs` that stand at `p`. -/
def advanceBy (p : Position) (cs : List Char) : Position :=
  cs.foldl advance p

/-- A position as messages show it: line and column. -/
def text (p : Position) : String :=
  s!"{p.line}:{p.column}"

@[simp] theorem advanceBy_nil (p : Position) : p.advanceBy [] = p := rfl

@[simp] theorem advanceBy_cons (p : Position) (c : Char) (cs : List Char) :
    p.advanceBy (c :: cs) = (p.advance c).advanceBy cs := rfl

/-- Moving over two pieces is moving over the first and then the second. -/
theorem advanceBy_append (p : Position) (cs ds : List Char) :
    p.advanceBy (cs ++ ds) = (p.advanceBy cs).advanceBy ds := by
  simp [advanceBy]

@[simp] theorem offset_advance (p : Position) (c : Char) :
    (p.advance c).offset = p.offset + c.utf8Size := by
  unfold advance; split <;> rfl

/-- Moving over a piece adds its length in bytes. -/
theorem offset_advanceBy (p : Position) (cs : List Char) :
    (p.advanceBy cs).offset = p.offset + (String.ofList cs).utf8ByteSize := by
  induction cs generalizing p with
  | nil => simp
  | cons c cs ih => simp [ih, Nat.add_assoc]

end Position

end MetadataFilter
