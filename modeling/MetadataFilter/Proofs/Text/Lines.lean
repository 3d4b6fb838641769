import MetadataFilter.Position
import MetadataFilter.Text.Lines

/-!
# The line of a place

A place in a text is on the line between the line feeds next to it. Positions count the line feeds
in front of a place and the characters after the last of them, and `lines` cuts a text at its line
feeds, so that the line with the number of the place is the one that the place is on.

## Key results

- `exists_wholeLines`, `exists_end_of_line`: the line around a place
- `lines_flatMap`: the lines of a text that is made of lines
- `Position.advanceBy_wholeLines`: the line and the column of a place
- `LineAround.getElem?_lines`: the line with the number of a place
-/

namespace MetadataFilter

namespace Text

/-- Whole lines of text: each of them with the line feed that ends it. -/
inductive WholeLines : List Char → Prop
  | nil : WholeLines []
  | cons {line cs : List Char} (no_feed : '\n' ∉ line) (rest : WholeLines cs) :
      WholeLines (line ++ '\n' :: cs)

/-- In front of a place there are whole lines and the start of the line of the place. -/
theorem exists_wholeLines (before : List Char) :
    ∃ earlier start, before = earlier ++ start ∧ WholeLines earlier ∧ '\n' ∉ start := by
  -- by induction from the front: the first line grows by a character, or is ended by a line feed
  induction before with
  | nil => exact ⟨[], [], rfl, .nil, by simp⟩
  | cons c before ih =>
    obtain ⟨earlier, start, rfl, hearlier, hstart⟩ := ih
    by_cases hc : c = '\n'
    · subst hc
      exact ⟨'\n' :: earlier, start, rfl, @WholeLines.cons [] _ (by simp) hearlier, hstart⟩
    -- any other character belongs to the first line
    · have hfeed : ∀ line : List Char, '\n' ∉ line → '\n' ∉ c :: line := by
        intro line hline
        simp [Ne.symm hc, hline]
      cases hearlier with
      | nil => exact ⟨[], c :: start, rfl, .nil, hfeed _ hstart⟩
      | @cons line cs no_feed rest =>
        exact ⟨c :: line ++ '\n' :: cs, start, by simp, .cons (hfeed _ no_feed) rest, hstart⟩

/-- From a place on there is the end of its line, and then nothing or the line feed. -/
theorem exists_end_of_line (rest : List Char) :
    ∃ stop later, rest = stop ++ later ∧ '\n' ∉ stop ∧ (later = [] ∨ later.head? = some '\n') := by
  induction rest with
  | nil => exact ⟨[], [], rfl, by simp, .inl rfl⟩
  | cons c rest ih =>
    by_cases hc : c = '\n'
    · subst hc
      exact ⟨[], '\n' :: rest, rfl, by simp, .inr rfl⟩
    · obtain ⟨stop, later, rfl, hstop, hlater⟩ := ih
      exact ⟨c :: stop, later, rfl, by simp [Ne.symm hc, hstop], hlater⟩

/-- The line that comes after whole lines has their number. -/
theorem getElem?_lines_append {earlier : List Char} (h : WholeLines earlier) (cs : List Char) :
    (lines (earlier ++ cs))[earlier.count '\n']? = (lines cs).head? := by
  induction h with
  | nil => rw [List.count_nil, List.nil_append, List.head?_eq_getElem?]
  | @cons line earlier no_feed _ ih =>
    rw [List.append_assoc, List.cons_append, lines_append_newline no_feed, List.count_append,
      List.count_eq_zero.2 no_feed, Nat.zero_add, List.count_cons_self,
      List.getElem?_cons_succ, ih]

/-- A line that is ended by a line feed is shown without a carriage return. -/
theorem head?_lines_of_feed {line later : List Char} (hline : '\n' ∉ line)
    (hlater : later.head? = some '\n') :
    (lines (line ++ later)).head? = some (stripReturn line) := by
  obtain ⟨rest, rfl⟩ := List.head?_eq_some_iff.1 hlater
  rw [lines_append_newline hline, List.head?_cons]

/-- What comes after the last line feed is a line if it is not empty. -/
theorem head?_lines_of_notMem {line : List Char} (hline : '\n' ∉ line) :
    (lines line).head? = if line = [] then none else some line := by
  have hall : ∀ c ∈ line, (c != '\n') = true := by
    intro c hc
    rw [bne_iff_ne]
    rintro rfl
    exact hline hc
  have hnil : line.dropWhile (· != '\n') = [] := by
    have hdrop := @List.dropWhile_append_of_pos _ (· != '\n') line [] hall
    rwa [List.append_nil] at hdrop
  rw [lines]
  split
  -- an empty text has no lines
  · cases line <;> rfl
  · next h =>
    rw [hnil] at h
    cases h

/-- A text that is made of lines has these lines. -/
theorem lines_flatMap {ls : List (List Char)} (h : ∀ line ∈ ls, '\n' ∉ line ∧ '\r' ∉ line) :
    lines (ls.flatMap fun line => line ++ ['\n']) = ls := by
  induction ls with
  | nil => rw [List.flatMap_nil, lines]; rfl
  | cons line ls ih =>
    obtain ⟨hfeed, hreturn⟩ := h line List.mem_cons_self
    have hlast : line.getLast? ≠ some '\r' := fun hlast => hreturn (List.mem_of_getLast? hlast)
    rw [List.flatMap_cons, List.append_assoc, List.singleton_append, lines_append_newline hfeed,
      stripReturn, if_neg hlast, ih fun other hother => h other (List.mem_cons_of_mem _ hother)]

/-- Texts that are put together without anything between them. -/
theorem toList_intercalate_empty (texts : List String) :
    ("".intercalate texts).toList = texts.flatMap String.toList := by
  induction texts with
  | nil => rfl
  | cons first others ih =>
    rw [List.flatMap_cons, ← ih]
    cases others <;> simp

/-- A carriage return is cut off only from the end of a line. -/
theorem stripReturn_append {c : Char} (hc : c ≠ '\r') (start rest : List Char) :
    stripReturn (start ++ c :: rest) = start ++ c :: stripReturn rest := by
  cases rest with
  | nil => simp [stripReturn, hc]
  | cons d rest =>
    have hlast : (start ++ c :: d :: rest).getLast? = (d :: rest).getLast? := by
      simp [List.getLast?_append, List.getLast?_cons]
    unfold stripReturn
    rw [hlast, List.dropLast_append_cons, List.dropLast_cons_cons]
    split <;> rfl

end Text

namespace Position

open Text

/-- Within a line, the column counts the characters. -/
theorem advanceBy_of_notMem {cs : List Char} (h : '\n' ∉ cs) (p : Position) :
    (p.advanceBy cs).line = p.line ∧ (p.advanceBy cs).column = p.column + cs.length := by
  -- by induction on the characters, each of which moves the position by one column
  induction cs generalizing p with
  | nil => exact ⟨rfl, rfl⟩
  | cons c cs ih =>
    rw [List.mem_cons, not_or] at h
    obtain ⟨hline, hcolumn⟩ := ih h.2 (p.advance c)
    have hadvance : p.advance c = ⟨p.offset + c.utf8Size, p.line, p.column + 1⟩ :=
      if_neg (Ne.symm h.1)
    rw [advanceBy_cons, hline, hcolumn, hadvance, List.length_cons]
    refine ⟨rfl, ?_⟩
    show p.column + 1 + cs.length = p.column + (cs.length + 1)
    omega

/-- Whole lines are counted, and a new line starts after them. -/
theorem advanceBy_wholeLines {cs : List Char} (h : WholeLines cs) {p : Position}
    (hp : p.column = 0) :
    (p.advanceBy cs).line = p.line + cs.count '\n' ∧ (p.advanceBy cs).column = 0 := by
  induction h generalizing p with
  | nil => exact ⟨rfl, hp⟩
  | @cons line cs no_feed _ ih =>
    -- the line feed starts the next line at column zero
    obtain ⟨hline, -⟩ := advanceBy_of_notMem no_feed p
    obtain ⟨hlines, hcolumn⟩ := @ih ((p.advanceBy line).advance '\n') rfl
    have hfeed : ((p.advanceBy line).advance '\n').line = p.line + 1 := by
      rw [← hline]
      rfl
    rw [advanceBy_append, advanceBy_cons, hlines, hcolumn, hfeed, List.count_append,
      List.count_eq_zero.2 no_feed, List.count_cons_self]
    exact ⟨by omega, rfl⟩

end Position

namespace Text

/-- The place `p` of the text `cs` is on the line `start ++ stop`, with `start` in front of it. -/
structure LineAround (cs : List Char) (p : Position) (earlier start stop later : List Char) :
    Prop where
  text_eq : cs = earlier ++ start ++ (stop ++ later)
  position_eq : p = Position.start.advanceBy (earlier ++ start)
  earlier_lines : WholeLines earlier
  start_feed : '\n' ∉ start
  stop_feed : '\n' ∉ stop
  later_feed : later = [] ∨ later.head? = some '\n'

/-- The line as it is shown: the carriage return in front of its line feed is left out. -/
def shownLine (start stop later : List Char) : List Char :=
  if later = [] then start ++ stop else stripReturn (start ++ stop)

/-- Every place in a text is on some line. -/
theorem exists_lineAround (before rest : List Char) :
    ∃ earlier start stop later, rest = stop ++ later ∧
      LineAround (before ++ rest) (Position.start.advanceBy before) earlier start stop later := by
  obtain ⟨earlier, start, rfl, hearlier, hstart⟩ := exists_wholeLines before
  obtain ⟨stop, later, rfl, hstop, hlater⟩ := exists_end_of_line rest
  exact ⟨earlier, start, stop, later, rfl, rfl, rfl, hearlier, hstart, hstop, hlater⟩

section

variable {cs earlier start stop later : List Char} {p : Position}

/-- The column of a place is the number of characters in front of it on its line. -/
theorem LineAround.column_eq (h : LineAround cs p earlier start stop later) :
    p.column = start.length := by
  obtain ⟨-, hcolumn⟩ := Position.advanceBy_wholeLines h.earlier_lines (p := .start) rfl
  obtain ⟨-, hlength⟩ :=
    Position.advanceBy_of_notMem h.start_feed (Position.start.advanceBy earlier)
  rw [h.position_eq, Position.advanceBy_append, hlength, hcolumn, Nat.zero_add]

/-- The line with the number of a place is the one around it. The empty line after a last line feed
is none of the lines. -/
theorem LineAround.getElem?_lines (h : LineAround cs p earlier start stop later) :
    (lines cs)[p.line - 1]? =
      if start = [] ∧ stop ++ later = [] then none else some (shownLine start stop later) := by
  -- the number of a line is the number of line feeds in front of it
  have hnumber : p.line - 1 = earlier.count '\n' := by
    obtain ⟨hlines, -⟩ := Position.advanceBy_wholeLines h.earlier_lines (p := .start) rfl
    obtain ⟨hline, -⟩ :=
      Position.advanceBy_of_notMem h.start_feed (Position.start.advanceBy earlier)
    rw [h.position_eq, Position.advanceBy_append, hline, hlines]
    exact Nat.add_sub_cancel_left 1 _
  have hfeed : '\n' ∉ start ++ stop := by
    rw [List.mem_append, not_or]
    exact ⟨h.start_feed, h.stop_feed⟩
  rw [hnumber, h.text_eq, List.append_assoc, getElem?_lines_append h.earlier_lines,
    ← List.append_assoc]
  -- the line is the last one of the text, or a line feed ends it
  rcases h.later_feed with rfl | hlater
  · rw [List.append_nil, head?_lines_of_notMem hfeed]
    simp only [List.append_nil, List.append_eq_nil_iff, shownLine, if_true]
  · obtain ⟨rest, rfl⟩ := List.head?_eq_some_iff.1 hlater
    rw [head?_lines_of_feed hfeed hlater]
    simp [shownLine]

/-- What is shown of a line goes on at the place as the text does, unless that is the end of the
line. -/
theorem exists_shownLine_eq (start : List Char)
    (hhead : ∀ c ∈ (stop ++ later).head?, c ≠ '\n' ∧ c ≠ '\r')
    (hlater : later = [] ∨ later.head? = some '\n') :
    ∃ tail, shownLine start stop later = start ++ tail ∧ tail.head? = (stop ++ later).head? := by
  rcases hlater with rfl | hlater
  · exact ⟨stop, rfl, by rw [List.append_nil]⟩
  · obtain ⟨rest, rfl⟩ := List.head?_eq_some_iff.1 hlater
    cases stop with
    | nil => exact absurd rfl (hhead '\n' rfl).1
    | cons c stop =>
      exact ⟨c :: stripReturn stop, stripReturn_append (hhead c rfl).2 start stop, rfl⟩

end

end Text

end MetadataFilter
