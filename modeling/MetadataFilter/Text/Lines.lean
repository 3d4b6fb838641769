/-!
# Lines of a text

A line ends with a line feed, and a carriage return right before it is part of the ending.

Main statements:

* `lines_append_newline`  a line feed ends the first line
-/

namespace MetadataFilter.Text

/-- A line without the carriage return at its end. -/
def stripReturn (cs : List Char) : List Char :=
  if cs.getLast? = some '\r' then cs.dropLast else cs

/-- The lines of a text. What follows the last line feed is a line if it is not empty. -/
def lines (cs : List Char) : List (List Char) :=
  match h : cs.dropWhile (· != '\n') with
  | [] => if cs.isEmpty then [] else [cs]
  | _ :: rest =>
    have : rest.length < cs.length := by
      have := (List.dropWhile_suffix (· != '\n') (l := cs)).length_le
      simp only [h, List.length_cons] at this
      omega
    stripReturn (cs.takeWhile (· != '\n')) :: lines rest
termination_by cs.length

/-- A line feed ends the first line, and the other lines are those of what follows it. -/
theorem lines_append_newline {line rest : List Char} (h : '\n' ∉ line) :
    lines (line ++ '\n' :: rest) = stripReturn line :: lines rest := by
  have hp : ∀ c ∈ line, (c != '\n') = true := fun c hc => by
    simp only [bne_iff_ne, ne_eq]; rintro rfl; exact h hc
  rw [lines]
  have hd : (line ++ '\n' :: rest).dropWhile (· != '\n') = '\n' :: rest := by
    rw [List.dropWhile_append_of_pos hp]; simp
  have ht : (line ++ '\n' :: rest).takeWhile (· != '\n') = line := by
    rw [List.takeWhile_append_of_pos hp]; simp
  split
  · simp_all
  · next h' => rw [hd] at h'; cases h'; rw [ht]

end MetadataFilter.Text
