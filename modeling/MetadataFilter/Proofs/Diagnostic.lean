import MetadataFilter.Diagnostic
import MetadataFilter.Proofs.Grammar.FailFast
import MetadataFilter.Proofs.Text.Lines

/-!
# Reports show the place of an error

A report on a rejected text shows the line that the error is on, with the caret under the first
character of the token that is refused. The one line that is not shown is the empty line after a
last line feed, where an error stands if the text ends too early.

## Key results

- `showsPlace_ofError`: which line is shown, and what stands over the caret
-/

namespace MetadataFilter.Diagnostic

open Text

/-- The report `d` shows where the text is refused: after the tokens `ts`, at what `refused` starts
with. The place is on the line `start ++ stop`, with `start` in front of it. -/
structure ShowsPlace (d : Diagnostic) (text : String) (ts : List Token) (refused : Token.Stream)
    (earlier start stop later : List Char) : Prop where
  stream_eq : Token.stream (normalize text) = ts.foldr .next refused
  heads : refused.Heads (stop ++ later)
  around : LineAround (normalize text).toList refused.position earlier start stop later
  position_eq : d.position = some refused.position
  caret_eq : d.caret =
    some (String.ofList (List.replicate refused.position.column ' ' ++ ['^']))
  /-- No line is shown exactly if the text ends too early, with a line feed. -/
  missing_iff : d.sourceLine = none ↔ start = [] ∧ stop ++ later = []
  line_eq : ∀ line ∈ d.sourceLine, line.toList = shownLine start stop later
  column_le : ∀ line ∈ d.sourceLine, refused.position.column ≤ line.length
  /-- What stands over the caret is what the text goes on with at the place. -/
  over_caret : ∀ line ∈ d.sourceLine,
    line.toList[refused.position.column]? = (stop ++ later).head?

/-- A report on a rejected text that is not blank shows the line around the place of the error,
without the carriage return in front of its line feed. The caret is under the first character of
the token or fault that is refused, or right after the line if the text ends too early. Only the
empty line after a last line feed is not shown. -/
theorem showsPlace_ofError {text : String} {e : FilterError} (h : Expr.parse text = .error e)
    (hne : e ≠ .emptyExpression) :
    ∃ ts refused earlier start stop later,
      ShowsPlace (ofError e text) text ts refused earlier start stop later := by
  -- The text is cut where the refused token begins, and the line around that place is taken from
  -- it.
  obtain ⟨ts, refused, hstream, hposition⟩ := exists_place_of_parse_error h hne
  obtain ⟨before, rest, htext, hplace, hheads, hends⟩ := Cursor.exists_place hstream
  obtain ⟨earlier, start, stop, later, rfl, haround⟩ := exists_lineAround before rest
  have htext : before ++ (stop ++ later) = (normalize text).toList := htext.symm
  have hplace : Position.start.advanceBy before = refused.position := hplace.symm
  rw [htext, hplace] at haround
  have hline : (ofError e text).sourceLine =
      (if start = [] ∧ stop ++ later = [] then none
        else some (shownLine start stop later)).map String.ofList := by
    show e.position?.bind _ = _
    rw [hposition, ← haround.getElem?_lines]
    rfl
  have hchars : ∀ line ∈ (ofError e text).sourceLine,
      line.toList = shownLine start stop later := by
    intro line hshown
    rw [hline] at hshown
    split at hshown
    · cases hshown
    · cases hshown
      exact String.toList_ofList
  -- the refused character is no blank, so that it does not end the line
  have hhead : ∀ c ∈ (stop ++ later).head?, c ≠ '\n' ∧ c ≠ '\r' := by
    intro c hc
    have hblank := hends c hc
    constructor <;> (rintro rfl; cases hblank)
  obtain ⟨tail, htail, hfirst⟩ := exists_shownLine_eq start hhead haround.later_feed
  refine ⟨ts, refused, earlier, start, stop, later, hstream, hheads, haround, hposition, ?_, ?_,
    hchars, ?_, ?_⟩
  -- The parts of the report, one by one: its position, when no line is shown, that the caret is
  -- within the line, and what stands over it.
  · show e.position?.map _ = _
    rw [hposition]
    rfl
  · rw [hline]
    split
    · next hmissing => exact ⟨fun _ => hmissing, fun _ => rfl⟩
    · next hshown => exact ⟨fun hnone => (nomatch hnone), fun hmissing => absurd hmissing hshown⟩
  · intro line hshown
    rw [← String.length_toList, hchars line hshown, htail, haround.column_eq, List.length_append]
    exact Nat.le_add_right _ _
  · intro line hshown
    rw [hchars line hshown, htail, haround.column_eq, List.getElem?_append_right (Nat.le_refl _),
      Nat.sub_self, ← List.head?_eq_getElem?, hfirst]

/-- The error is on a second line, after a line that ends with a carriage return and a line feed. -/
theorem showsPlace_second_line :
    ∃ ts refused earlier start stop later,
      ShowsPlace (ofError (.parse ⟨.noViableAlternative, ⟨13, 2, 1⟩, "b", Expr.Parser.valueStart⟩)
        "a ==\r\n b\r\n") "a ==\r\n b\r\n" ts refused earlier start stop later :=
  showsPlace_ofError (by decide +kernel) (by simp)

/-- A text that ends too early with a line feed: no line is shown, although the error has a
place. -/
theorem no_sourceLine_after_last_feed :
    Expr.parse "a ==\n" = .error (.parse
      ⟨.noViableAlternative, ⟨11, 2, 0⟩, "<EOF>", Expr.Parser.valueStart⟩) ∧
    (ofError (.parse ⟨.noViableAlternative, ⟨11, 2, 0⟩, "<EOF>", Expr.Parser.valueStart⟩)
      "a ==\n").sourceLine = none := by
  decide +kernel

end MetadataFilter.Diagnostic
