import Mathlib.Data.List.DropRight
import Mathlib.Data.String.Basic
import MetadataFilter.Token.Lexer

/-!
# Positions are true to the text at every call

A cursor can be asked for what comes next any number of times: it goes on after a fault, and at the
end of the text it gives the end again. Its offset, line and column are carried along from piece to
piece. `Position.TrueTo` says what they have to be, by the text in front of the offset alone, and
holds of everything a cursor is at or reports.

## Key results

- `Position.trueTo_advanceBy`: what is counted along a piece of text is true
- `Cursor.Within.next`: one call keeps a cursor within its text
- `Cursor.within_after`: any number of calls
- `Cursor.positions_true`: every call of a cursor on a text
-/

namespace MetadataFilter

namespace Position

/-- The text in front of a position, by its offset in bytes. -/
def before (p : Position) (text : String) : String :=
  String.Pos.Raw.extract text 0 ⟨p.offset⟩

/-- The three numbers of a position fit together as a place in the text. -/
structure TrueTo (p : Position) (text : String) : Prop where
  boundary : String.Pos.Raw.IsValid text ⟨p.offset⟩
  offset_le : p.offset ≤ text.utf8ByteSize
  line_eq : p.line = 1 + (p.before text).toList.count '\n'
  /-- The characters since the last line feed, or since the start of the text. -/
  column_eq : p.column = ((p.before text).toList.rtakeWhile (· != '\n')).length

/-- Lines are counted by their line feeds. -/
theorem line_advanceBy (p : Position) (cs : List Char) :
    (p.advanceBy cs).line = p.line + cs.count '\n' := by
  induction cs generalizing p with
  | nil => rfl
  | cons c cs ih =>
    rw [advanceBy_cons, ih, List.count_cons]
    unfold advance
    by_cases hc : c = '\n'
    · simp [hc]
      omega
    · simp [hc]

/-- From the start of a line on, the column counts the characters since the last line feed. -/
theorem column_advanceBy {p : Position} (hp : p.column = 0) (cs : List Char) :
    (p.advanceBy cs).column = (cs.rtakeWhile (· != '\n')).length := by
  -- the last character decides whether the column goes on or starts again
  induction cs using List.reverseRecOn with
  | nil => exact hp
  | append_singleton cs c ih =>
    rw [advanceBy_append, advanceBy_cons, advanceBy_nil, List.rtakeWhile_concat]
    unfold advance
    by_cases hc : c = '\n'
    · simp [hc]
    · simp [hc, ih]

end Position

namespace Position

section

variable {text : String} {front piece rest : List Char}

/-- Offsets are counted in bytes. -/
theorem offset_start_advanceBy (cs : List Char) :
    (start.advanceBy cs).offset = (String.ofList cs).utf8ByteSize := by
  rw [offset_advanceBy]
  exact Nat.zero_add _

/-- The piece of a text that stands at a position, by the bytes it takes up. -/
theorem extract_eq (h : text.toList = front ++ (piece ++ rest)) :
    String.Pos.Raw.extract text ⟨(start.advanceBy front).offset⟩
      ⟨(start.advanceBy front).offset + (String.ofList piece).utf8ByteSize⟩ =
      String.ofList piece := by
  have htext : text = String.ofList (front ++ piece ++ rest) := by
    rw [List.append_assoc, ← h, String.ofList_toList]
  rw [htext, offset_start_advanceBy, String.utf8ByteSize_ofList, String.utf8ByteSize_ofList]
  exact String.extract_of_valid front piece rest

/-- In front of what has been counted stands the text that has been counted. -/
theorem before_advanceBy (h : text.toList = front ++ rest) :
    ((start.advanceBy front).before text).toList = front := by
  have hpiece := @extract_eq text [] front rest h
  rw [advanceBy_nil, show start.offset = 0 from rfl, Nat.zero_add] at hpiece
  rw [before, offset_start_advanceBy]
  exact (congrArg String.toList hpiece).trans String.toList_ofList

/-- What is counted along the front of a text is true to the text. -/
theorem trueTo_advanceBy (h : text.toList = front ++ rest) :
    (start.advanceBy front).TrueTo text := by
  have htext : text = String.ofList front ++ String.ofList rest := by
    rw [← String.ofList_append, ← h, String.ofList_toList]
  have hoffset := offset_start_advanceBy front
  -- the four fields, each of which says what has been counted in front
  refine ⟨?_, ?_, ?_, ?_⟩
  · rw [String.Pos.Raw.isValid_iff_exists_append]
    exact ⟨_, _, htext, congrArg String.Pos.Raw.mk hoffset⟩
  · rw [hoffset, htext, String.utf8ByteSize_append]
    exact Nat.le_add_right _ _
  · rw [before_advanceBy h, line_advanceBy]
    rfl
  · rw [before_advanceBy h]
    exact column_advanceBy rfl front

end

end Position

namespace Cursor

/-- The cursor is in the text: its rest is the end of the text, and its position counts what stands
in front of that. -/
def Within (s : Cursor) (text : String) : Prop :=
  ∃ front, text.toList = front ++ s.rest ∧ s.position = Position.start.advanceBy front

/-- The cursor after `n` calls of `next`, whatever they have given. -/
def after (s : Cursor) : Nat → Cursor
  | 0 => s
  | n + 1 => (s.after n).next.2

/-- The position that the next call reports: that of its token or of its fault. -/
def reported (s : Cursor) : Position :=
  match s.next.1 with
  | .ok t => t.position
  | .error e => e.position

section

variable {s : Cursor} {text : String}

/-- A cursor in a text has a position that is true to the text. -/
theorem Within.trueTo (h : s.Within text) : s.position.TrueTo text := by
  obtain ⟨front, htext, hposition⟩ := h
  rw [hposition]
  exact Position.trueTo_advanceBy htext

/-! ### One call -/

/-- Dropping characters keeps a cursor in its text. -/
theorem Within.drop (h : s.Within text) (n : Nat) : (s.drop n).Within text := by
  obtain ⟨front, htext, hposition⟩ := h
  refine ⟨front ++ s.rest.take n, ?_, ?_⟩
  · show _ = _ ++ s.rest.drop n
    rw [List.append_assoc, List.take_append_drop, htext]
  · rw [Position.advanceBy_append, ← hposition]
    rfl

/-- Dropping characters moves no cursor back. -/
theorem offset_le_drop (s : Cursor) (n : Nat) : s.position.offset ≤ (s.drop n).position.offset := by
  show _ ≤ (s.position.advanceBy _).offset
  rw [Position.offset_advanceBy]
  exact Nat.le_add_right _ _

/-- Skipping blanks drops the characters at the front that are blank. -/
theorem skipBlank_eq_drop (s : Cursor) :
    s.skipBlank = s.drop (s.rest.takeWhile Text.isBlank).length := by
  have hsplit := List.takeWhile_append_dropWhile (p := Text.isBlank) (l := s.rest)
  have htake := @List.take_left _ (s.rest.takeWhile Text.isBlank) (s.rest.dropWhile Text.isBlank)
  have hdrop := @List.drop_left _ (s.rest.takeWhile Text.isBlank) (s.rest.dropWhile Text.isBlank)
  rw [hsplit] at htake hdrop
  simp only [skipBlank, drop, htake, hdrop]

/-- One call skips the blanks, reports the place behind them and uses up some characters there. -/
theorem next_eq (s : Cursor) :
    s.reported = s.skipBlank.position ∧ ∃ n, s.next.2 = s.skipBlank.drop n := by
  -- a fault also uses up characters, so the next call goes on behind them
  cases hfront : Token.front s.skipBlank.rest with
  | token kind lexeme =>
    have hnext : s.next = (.ok ⟨kind, String.ofList lexeme, s.skipBlank.position⟩,
        s.skipBlank.drop lexeme.length) := by
      simp only [next, hfront]
    rw [reported, hnext]
    exact ⟨rfl, lexeme.length, rfl⟩
  | fault fault consumed =>
    have hnext : s.next = (.error ⟨fault, s.skipBlank.position⟩,
        s.skipBlank.drop consumed.length) := by
      simp only [next, hfront]
    rw [reported, hnext]
    exact ⟨rfl, consumed.length, rfl⟩

/-- Skipping blanks keeps a cursor in its text. -/
theorem Within.skipBlank (h : s.Within text) : s.skipBlank.Within text :=
  skipBlank_eq_drop s ▸ h.drop _

/-- One call keeps a cursor within its text. -/
theorem Within.next (h : s.Within text) : s.next.2.Within text := by
  obtain ⟨-, n, hnext⟩ := s.next_eq
  rw [hnext]
  exact h.skipBlank.drop n

/-- What a call reports is not in front of the cursor. -/
theorem offset_le_reported (s : Cursor) : s.position.offset ≤ s.reported.offset := by
  rw [s.next_eq.1, skipBlank_eq_drop]
  exact offset_le_drop s _

/-- A call goes on no earlier than at what it reports. -/
theorem reported_le_next (s : Cursor) : s.reported.offset ≤ s.next.2.position.offset := by
  obtain ⟨hreported, n, hnext⟩ := s.next_eq
  rw [hreported, hnext]
  exact offset_le_drop _ n

/-- A token is what stands at its position, and the next call goes on right behind it. -/
theorem Within.extract_lexeme (h : s.Within text) {t : Token} {s' : Cursor}
    (hnext : s.next = (.ok t, s')) :
    String.Pos.Raw.extract text ⟨t.position.offset⟩
        ⟨t.position.offset + t.lexeme.utf8ByteSize⟩ = t.lexeme ∧
      s'.position.offset = t.position.offset + t.lexeme.utf8ByteSize := by
  obtain ⟨front, htext, hposition⟩ := h.skipBlank
  unfold Cursor.next at hnext
  cases hfront : Token.front s.skipBlank.rest with
  | fault => simp [hfront] at hnext
  | token kind lexeme =>
    simp only [hfront, Prod.mk.injEq, Except.ok.injEq] at hnext
    obtain ⟨rfl, rfl⟩ := hnext
    -- the lexeme has been cut off the front of what is left
    obtain ⟨rest, hrest⟩ := Token.front_token_isPrefix hfront
    constructor
    · rw [← hrest] at htext
      simp only [hposition]
      exact Position.extract_eq htext
    · show (s.skipBlank.position.advanceBy (s.skipBlank.rest.take lexeme.length)).offset = _
      rw [← hrest, List.take_left, Position.offset_advanceBy]

/-! ### Any number of calls -/

/-- A cursor on a whole text is within it. -/
theorem within_ofString (text : String) : (ofString text).Within text :=
  ⟨[], rfl, rfl⟩

/-- However often a cursor on a text has been asked, it is within the text. -/
theorem within_after (text : String) (n : Nat) : ((ofString text).after n).Within text := by
  induction n with
  | zero => exact within_ofString text
  | succ n ih => exact ih.next

/-- More calls lead no further back. -/
theorem offset_after_mono (s : Cursor) {m n : Nat} (h : m ≤ n) :
    (s.after m).position.offset ≤ (s.after n).position.offset := by
  induction h with
  | refl => exact Nat.le_refl _
  | @step n _ ih =>
    have hreported := offset_le_reported (s.after n)
    have hnext := reported_le_next (s.after n)
    exact ih.trans (hreported.trans hnext)

/-- The next call of a cursor is true to the text: its state, what it reports and the state that it
leaves fit the text and come in this order. A token is found in the text at its offset, and the
state left is right behind it. -/
structure NextTrueTo (s : Cursor) (text : String) : Prop where
  state : s.position.TrueTo text
  reported : s.reported.TrueTo text
  left : s.next.2.position.TrueTo text
  state_le : s.position.offset ≤ s.reported.offset
  reported_le : s.reported.offset ≤ s.next.2.position.offset
  lexeme : ∀ t, s.next.1 = .ok t →
    String.Pos.Raw.extract text ⟨t.position.offset⟩
        ⟨t.position.offset + t.lexeme.utf8ByteSize⟩ = t.lexeme ∧
      s.next.2.position.offset = t.position.offset + t.lexeme.utf8ByteSize

/-- The next call of a cursor in a text is true to the text. -/
theorem Within.nextTrueTo (h : s.Within text) : s.NextTrueTo text where
  state := h.trueTo
  reported := s.next_eq.1 ▸ h.skipBlank.trueTo
  left := h.next.trueTo
  state_le := s.offset_le_reported
  reported_le := s.reported_le_next
  lexeme t ht := h.extract_lexeme (Prod.ext ht rfl : s.next = (.ok t, s.next.2))

end

/-- However often a cursor on a text has been asked, also after faults and at the end, its position
and whatever it reports are true to the text, and offsets never decrease from call to call. -/
theorem positions_true (text : String) :
    (∀ n, ((ofString text).after n).NextTrueTo text) ∧
      ∀ n more,
        ((ofString text).after n).position.offset ≤
            ((ofString text).after (n + more)).position.offset ∧
          ((ofString text).after n).reported.offset ≤
            ((ofString text).after (n + more)).reported.offset := by
  refine ⟨fun n => (within_after text n).nextTrueTo, fun n more => ?_⟩
  refine ⟨offset_after_mono _ (Nat.le_add_right n more), ?_⟩
  -- what a later call reports stands behind the state that an earlier one has left
  cases more with
  | zero => exact Nat.le_refl _
  | succ more =>
    have hreported := reported_le_next ((ofString text).after n)
    have hleft := offset_after_mono (ofString text) (show n + 1 ≤ n + (more + 1) by omega)
    have hlater := offset_le_reported ((ofString text).after (n + (more + 1)))
    exact hreported.trans (hleft.trans hlater)

/-- A string that is not closed, behind one of more bytes than characters: the fault is reported
where the string starts, and the next call goes on behind the line feed that has been used up. -/
example :
    ((ofString "'ü' 'é\n x").after 1).next =
      (.error ⟨.unterminated, ⟨5, 1, 4⟩⟩, ⟨[' ', 'x'], ⟨9, 2, 0⟩⟩) := by
  decide +kernel

end Cursor

end MetadataFilter
