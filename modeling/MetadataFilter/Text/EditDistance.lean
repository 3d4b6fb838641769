/-!
# Edit distance

How many characters have to be inserted, removed or replaced to turn one text into another.
`editDistance` counts with one row of distances per character; `edits` is the plain recursion.

Main statements:

* `editDistance_eq_edits`  counting by rows is the plain recursion
-/

namespace MetadataFilter.Text

/-- The end parts of a text, longest first, and the empty one last. -/
def endParts : List Char → List (List Char)
  | [] => [[]]
  | c :: cs => (c :: cs) :: endParts cs

/-- How many single edits turn one text into another. -/
def edits : List Char → List Char → Nat
  | [], ds => ds.length
  | cs, [] => cs.length
  | c :: cs, d :: ds =>
    min (edits cs ds + if c = d then 0 else 1) (min (edits cs (d :: ds)) (edits (c :: cs) ds) + 1)

/-- The row for a longer text: from the distances of `cs` to every end part of `ds`, longest first,
those of `c :: cs`. -/
def longerRow (c : Char) : List Char → List Nat → List Nat
  | d :: ds, removed :: row =>
    let longer := longerRow c ds row
    let kept := row.headD 0 + if c = d then 0 else 1
    min kept (min removed (longer.headD 0) + 1) :: longer
  | _, row => row.map (· + 1)

/-- The distances of `cs` to every end part of `ds`, longest first. -/
def distanceRow (ds : List Char) : List Char → List Nat
  | [] => (endParts ds).map List.length
  | c :: cs => longerRow c ds (distanceRow ds cs)

/-- How many single edits turn one text into another. -/
def editDistance (s t : String) : Nat :=
  (distanceRow t.toList s.toList).headD 0

/-- From the row of a text, the row of the text with one more character in front. -/
theorem longerRow_eq (c : Char) (cs ds : List Char) :
    longerRow c ds ((endParts ds).map (edits cs)) = (endParts ds).map (edits (c :: cs)) := by
  induction ds with
  | nil => cases cs <;> simp [longerRow, edits, endParts]
  | cons d ds ih =>
    rw [endParts, List.map_cons, List.map_cons, longerRow, ih]
    cases ds <;> simp [edits, endParts]

/-- The row of a text holds its distances to all end parts. -/
theorem distanceRow_eq (cs ds : List Char) : distanceRow ds cs = (endParts ds).map (edits cs) := by
  induction cs with
  | nil =>
    rw [distanceRow]
    exact List.map_congr_left fun t _ => by simp [edits]
  | cons c cs ih => rw [distanceRow, ih, longerRow_eq]

/-- Counting by rows is the plain recursion. -/
theorem editDistance_eq_edits (s t : String) : editDistance s t = edits s.toList t.toList := by
  unfold editDistance
  rw [distanceRow_eq]
  cases t.toList <;> simp [endParts]

end MetadataFilter.Text
