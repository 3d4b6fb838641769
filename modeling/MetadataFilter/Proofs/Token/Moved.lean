import MetadataFilter.Proofs.Token.Normalize

/-!
# Texts that start at another place

What stands in front of a text moves the places of its tokens and changes nothing else about them.
A change of places that goes along with the characters of a text can be made before the text is cut
into tokens or afterwards.

## Key results

- `Position.goesAlong_behind`, `Position.goesAlong_afterWhere`: places behind another text, and
  behind the word WHERE
- `Cursor.stream_moved`: the tokens of a text that starts at another place
- `stream_where_append`, `normalize_where_append`: a filter with the word WHERE in front
-/

namespace MetadataFilter

open Text

namespace Position

/-- The place `p` of a text, where the text starts at the place `q`. The first line of the text goes
on with the line of `q`. -/
def behind (q p : Position) : Position :=
  ⟨q.offset + p.offset, q.line + (p.line - 1),
    if p.line = 1 then q.column + p.column else p.column⟩

/-- The place `p` of a text with the word WHERE and a blank in front of it: six bytes later, and
six characters later if it is on the first line. -/
def afterWhere (p : Position) : Position :=
  ⟨p.offset + 6, p.line, if p.line = 1 then p.column + 6 else p.column⟩

/-- It makes no difference whether a place is changed before a character or behind it. -/
def GoesAlong (f : Position → Position) : Prop :=
  ∀ p c, 0 < p.line → f (p.advance c) = (f p).advance c

/-- Lines are still numbered from one behind a character. -/
theorem line_pos_advance {p : Position} (h : 0 < p.line) (c : Char) : 0 < (p.advance c).line := by
  unfold advance
  split
  · exact Nat.succ_pos _
  · exact h

/-- Lines are still numbered from one behind a piece of text. -/
theorem line_pos_advanceBy {p : Position} (h : 0 < p.line) (cs : List Char) :
    0 < (p.advanceBy cs).line := by
  induction cs generalizing p with
  | nil => exact h
  | cons c cs ih => exact ih (line_pos_advance h c)

/-- A change of places that goes along with one character goes along with any number of them. -/
theorem GoesAlong.advanceBy {f : Position → Position} (hf : GoesAlong f) {p : Position}
    (h : 0 < p.line) (cs : List Char) : f (p.advanceBy cs) = (f p).advanceBy cs := by
  induction cs generalizing p with
  | nil => rfl
  | cons c cs ih => rw [advanceBy_cons, ih (line_pos_advance h c), hf p c h, advanceBy_cons]

/-- Places behind another text go along with the characters. -/
theorem goesAlong_behind (q : Position) : GoesAlong q.behind := by
  intro p c h
  by_cases hc : c = '\n'
  -- a line feed ends the line that the text has in common with what is in front
  · have hline : q.line + (p.line + 1 - 1) = q.line + (p.line - 1) + 1 := by omega
    have hlast : p.line + 1 ≠ 1 := by omega
    simp only [behind, advance, if_pos hc, if_neg hlast, hline, Nat.add_assoc]
  · by_cases hline : p.line = 1
    · simp only [behind, advance, if_neg hc, if_pos hline, Nat.add_assoc]
    · simp only [behind, advance, if_neg hc, if_neg hline, Nat.add_assoc]

/-- Places behind the word WHERE go along with the characters. -/
theorem goesAlong_afterWhere : GoesAlong afterWhere := by
  intro p c h
  by_cases hc : c = '\n'
  · have hlast : p.line + 1 ≠ 1 := by omega
    simp only [afterWhere, advance, if_pos hc, if_neg hlast, Nat.add_right_comm]
  · by_cases hline : p.line = 1
    · simp only [afterWhere, advance, if_neg hc, if_pos hline, Nat.add_right_comm]
    · simp only [afterWhere, advance, if_neg hc, if_neg hline, Nat.add_right_comm]

end Position

/-! ### Tokens at other places -/

/-- The token at another place. -/
def Token.moved (f : Position → Position) (t : Token) : Token := ⟨t.kind, t.lexeme, f t.position⟩

/-- The fault at another place. -/
def LexError.moved (f : Position → Position) (e : LexError) : LexError := ⟨e.fault, f e.position⟩

/-- The tokens at other places, and so the end or the fault after them. -/
def Token.Stream.moved (f : Position → Position) : Stream → Stream
  | fault e => fault (e.moved f)
  | finish position => finish (f position)
  | next token rest => next (token.moved f) (rest.moved f)

/-- Tokens and what comes after them are moved alike. -/
theorem Token.Stream.moved_foldr (f : Position → Position) (ts : List Token) (stream : Stream) :
    (ts.foldr next stream).moved f = (ts.map (·.moved f)).foldr next (stream.moved f) := by
  induction ts with
  | nil => rfl
  | cons t ts ih => rw [List.foldr_cons, moved, ih, List.map_cons, List.foldr_cons]

/-- A stream that is moved has its fault moved. -/
theorem Token.Stream.fault?_moved (f : Position → Position) (stream : Stream) :
    (stream.moved f).fault? = stream.fault?.map (·.moved f) := by
  induction stream with
  | fault => rfl
  | finish => rfl
  | next t rest ih => exact ih

namespace Cursor

/-- The same text at another place. -/
def moved (f : Position → Position) (s : Cursor) : Cursor := ⟨s.rest, f s.position⟩

section

variable {f : Position → Position} {s : Cursor}

/-- Blanks are skipped wherever they stand. -/
theorem skipBlank_moved (hf : Position.GoesAlong f) (h : 0 < s.position.line) :
    (s.moved f).skipBlank = s.skipBlank.moved f :=
  congrArg (Cursor.mk _) (hf.advanceBy h _).symm

/-- Characters are dropped wherever they stand. -/
theorem drop_moved (hf : Position.GoesAlong f) (h : 0 < s.position.line) (n : Nat) :
    (s.moved f).drop n = (s.drop n).moved f :=
  congrArg (Cursor.mk _) (hf.advanceBy h _).symm

/-- The tokens of a text that starts at another place are its tokens at other places. -/
theorem stream_moved (hf : Position.GoesAlong f) (h : 0 < s.position.line) :
    (s.moved f).stream = s.stream.moved f := by
  -- every token before the end leaves a shorter text
  induction hn : s.rest.length using Nat.strongRecOn generalizing s with
  | ind n ih =>
    have hskip : 0 < s.skipBlank.position.line := Position.line_pos_advanceBy h _
    have hrest : (s.skipBlank.moved f).rest = s.skipBlank.rest := rfl
    rw [stream_eq, stream_eq s, skipBlank_moved hf h, hrest]
    cases hfront : Token.front s.skipBlank.rest with
    | fault fault consumed => rfl
    | token kind lexeme =>
      by_cases hk : kind = .endOfInput
      · simp only [hk, if_true]
        rfl
      -- what is left behind the token is moved as well, and is shorter
      · have hnext : s.next = (.ok ⟨kind, String.ofList lexeme, s.skipBlank.position⟩,
            s.skipBlank.drop lexeme.length) := by
          simp only [next, hfront]
        have hline : 0 < (s.skipBlank.drop lexeme.length).position.line :=
          Position.line_pos_advanceBy hskip _
        simp only [if_neg hk]
        rw [drop_moved hf hskip, ih _ (hn ▸ next_rest_lt hnext hk) hline rfl]
        rfl

/-- The tokens of a text that starts at a place stand behind that place. -/
theorem stream_behind (cs : List Char) (p : Position) :
    (⟨cs, p⟩ : Cursor).stream = (⟨cs, .start⟩ : Cursor).stream.moved p.behind :=
  stream_moved (Position.goesAlong_behind p) (s := ⟨cs, .start⟩) Nat.one_pos

end

end Cursor

/-! ### The word WHERE in front -/

/-- A text starts with the word WHERE if that is its first token. -/
theorem startsWithWhere_iff_exists (text : String) :
    StartsWithWhere text.toList ↔
      ∃ t after, Token.stream text = .next t after ∧ t.kind = .whereWord := by
  constructor
  · rintro ⟨lexeme, hfront⟩
    have hstream := Cursor.stream_eq (Cursor.ofString text)
    have hskip : (Cursor.ofString text).skipBlank.rest = text.toList.dropWhile isBlank := rfl
    simp only [hskip, hfront, reduceCtorEq, if_false] at hstream
    exact ⟨_, _, hstream, rfl⟩
  · rintro ⟨t, after, hstream, hk⟩
    exact (startsWithWhere_iff hstream).2 hk

section

variable {text : String} (h : ¬StartsWithWhere text.toList)

include h

/-- The tokens of a text with the word WHERE in front are that word and those of the text. -/
theorem stream_where_append :
    Token.stream ("WHERE " ++ text) =
      .next ⟨.whereWord, "WHERE", .start⟩ ((Token.stream text).moved Position.afterWhere) := by
  obtain ⟨hnormalize, hstream⟩ := normalize_of_not_startsWithWhere h
  have hmoved : (⟨text.toList, ⟨6, 1, 6⟩⟩ : Cursor).stream =
      (Token.stream text).moved Position.afterWhere :=
    Cursor.stream_moved Position.goesAlong_afterWhere (s := Cursor.ofString text) Nat.one_pos
  rw [← hnormalize, hstream, hmoved]

/-- The word WHERE is put in front once. -/
theorem normalize_where_append : normalize ("WHERE " ++ text) = normalize text := by
  have hwhere : StartsWithWhere ("WHERE " ++ text).toList :=
    (startsWithWhere_iff_exists _).2 ⟨_, _, stream_where_append h, rfl⟩
  rw [normalize_of_startsWithWhere hwhere, (normalize_of_not_startsWithWhere h).1]

end

end MetadataFilter
