import MetadataFilter.Proofs.Cli.Agreement
import MetadataFilter.Proofs.Grammar.Expected
import MetadataFilter.Proofs.Token.Moved

/-!
# What commands say about a filter with the word WHERE in front

A filter is checked with the word WHERE in front, and its tokens are listed without it. The places
that the two commands report differ by that word and by nothing else, so that they name the same
character of the filter. Writing the word changes nothing for a filter that is checked.

## Key results

- `parse_where_append`, `ofError_where_append`: the word makes no difference to trees and reports
- `exists_faultBehindWhere`: a fault in the filter as it was given, and behind the word
- `where_in_front`: tokens, trees, reports and the two commands
-/

namespace MetadataFilter

open Text Expr.Parser

/-- The fault that is reported for a text is the first one among its tokens. -/
theorem fault?_of_parse_error {text : String} {fault : LexError}
    (h : Expr.parse text = .error (.lex fault)) :
    (Token.stream (normalize text)).fault? = some fault := by
  obtain ⟨feed, hstream, hstuck⟩ := exists_stuck h (by simp)
  cases hstuck with
  | fault first => rw [hstream, first]
  | limit split limit => rcases limit.names with h | h <;> cases h
  | passed mem => cases mem

/-- A fault at a character of the text: `given` is the fault in the text as it was given, and
`checked` the one in the text with the word WHERE in front. -/
structure FaultBehindWhere (text : String) (given checked : LexError) : Prop where
  fault_eq : given.fault = checked.fault
  position_eq : checked.position = given.position.afterWhere
  /-- Both places are those of one character of the text, which is what the fault is about. -/
  character : ∃ before c rest, text.toList = before ++ c :: rest ∧
    given.fault = Token.faultAt c ∧
    given.position = Position.start.advanceBy before ∧
    checked.position = Position.start.advanceBy ("WHERE ".toList ++ before)

section

variable {text : String} (h : ¬StartsWithWhere text.toList)

include h

/-- A filter is read alike with the word WHERE and without it. -/
theorem parse_where_append (hblank : text.toList.all isBlank = false) :
    Expr.parse ("WHERE " ++ text) = Expr.parse text := by
  have hall : ("WHERE " ++ text).toList.all isBlank = false := by
    rw [String.toList_append, List.all_append]
    exact Bool.and_eq_false_imp.2 fun h => absurd h (by decide)
  unfold Expr.parse
  rw [parseWithin_eq hall, parseWithin_eq hblank, normalize_where_append h]

/-- Reports show a filter with the word WHERE, so that writing the word changes none of them. -/
theorem ofError_where_append (e : FilterError) :
    Diagnostic.ofError e ("WHERE " ++ text) = Diagnostic.ofError e text := by
  unfold Diagnostic.ofError
  rw [normalize_where_append h]

/-- A fault that is reported for a filter is a fault of the text as it was given, six bytes
earlier. -/
theorem exists_faultBehindWhere {checked : LexError}
    (hparse : Expr.parse text = .error (.lex checked)) :
    ∃ given, (Token.stream text).fault? = some given ∧ FaultBehindWhere text given checked := by
  have hchecked := fault?_of_parse_error hparse
  -- with the word in front the tokens are the same ones, moved
  rw [(normalize_of_not_startsWithWhere h).1, stream_where_append h] at hchecked
  have hmoved : ((Token.stream text).fault?.map (·.moved Position.afterWhere)) = some checked :=
    (Token.Stream.fault?_moved _ _).symm.trans hchecked
  obtain ⟨given, hgiven, rfl⟩ := Option.map_eq_some_iff.1 hmoved
  refine ⟨given, hgiven, rfl, rfl, ?_⟩
  -- the fault comes after the tokens in front of it, and there is its character
  obtain ⟨ts, hstream⟩ := Token.Stream.exists_of_fault? hgiven
  obtain ⟨before, _, htext, hposition, ⟨c, rest, rfl, hc⟩, -⟩ := Cursor.exists_place hstream
  refine ⟨before, c, rest, htext, hc, hposition, ?_⟩
  have hsix : Position.start.advanceBy "WHERE ".toList = Position.start.afterWhere := by decide
  have hgiven : given.position = Position.start.advanceBy before := hposition
  rw [Position.advanceBy_append, hsix,
    ← Position.goesAlong_afterWhere.advanceBy Nat.one_pos, ← hgiven]
  rfl

end

namespace Cli

/-- What listing the tokens of a text says about a fault. -/
def faultReport (text : String) (e : LexError) : Diagnostic where
  message := e.message
  position := some e.position
  sourceLine := Diagnostic.line? text e.position.line
  expected := []
  hint := none

section

variable {σ : Type} [FileStore (StateM σ)] {s : Surroundings} {expression text : String}

/-- Listing tokens fails with the first fault. -/
theorem outcome_tokens_of_fault {t : σ} {i : Invocation} {e : LexError}
    (hread : readFilter s expression = .ok text) (h : i.command = .tokens expression)
    (hfault : (Token.stream text).fault? = some e) :
    outcome s i t = ⟨1, "", diagnosed s i (faultReport text e)⟩ := by
  -- the first fault of the tokens is the one that is reported
  have htokens : readTokens text = .error (.filter (faultReport text e)) := by
    unfold readTokens
    simp only [hfault]
    rfl
  have hshown : (showTokens s i expression : Action (Printing (StateM σ)) Unit).shown "" t =
      .error (.filter (faultReport text e)) := by
    rw [shown_showTokens, hread]
    show (readTokens text >>= _) = _
    rw [htokens]
    rfl
  rw [outcome, outcome_eq, execute, h, hshown]
  rfl

/-- The tokens of a filter with the word WHERE in front are the word and the tokens of the filter,
or its fault, six bytes later and on the first line six characters later. Reading the filter gives
the same with the word and without it, and so do reports. A fault that checking the filter reports
is reported by listing its tokens as well, at the same character. -/
theorem where_in_front
    (h : ∀ t after, Token.stream text = .next t after → t.kind ≠ .whereWord) :
    Token.stream ("WHERE " ++ text) =
      .next ⟨.whereWord, "WHERE", .start⟩ ((Token.stream text).moved Position.afterWhere) ∧
    (text.toList.all isBlank = false →
      Expr.parse ("WHERE " ++ text) = Expr.parse text ∧
      ∀ e, Diagnostic.ofError e ("WHERE " ++ text) = Diagnostic.ofError e text) ∧
    ∀ {checked : LexError} (t : σ) {i j : Invocation}, readFilter s expression = .ok text →
      Expr.parse text = .error (.lex checked) →
      i.command = .check expression → j.command = .tokens expression →
      ∃ given, FaultBehindWhere text given checked ∧
        outcome s i t = ⟨1, "", diagnosed s i (.ofError (.lex checked) text)⟩ ∧
        outcome s j t = ⟨1, "", diagnosed s j (faultReport text given)⟩ := by
  have hwhere : ¬StartsWithWhere text.toList := by
    rw [startsWithWhere_iff_exists]
    rintro ⟨t, after, hstream, hk⟩
    exact h t after hstream hk
  refine ⟨stream_where_append hwhere, fun hblank => ⟨parse_where_append hwhere hblank, ?_⟩, ?_⟩
  · exact ofError_where_append hwhere
  -- the fault is one of the filter itself, and both commands stop at it
  · intro checked t i j hread hparse hcheck htokens
    obtain ⟨given, hgiven, hplaces⟩ := exists_faultBehindWhere hwhere hparse
    exact ⟨given, hplaces, (rejected_of_parse hread hparse).check hcheck,
      outcome_tokens_of_fault hread htokens hgiven⟩

end

/-- A fault on the second line, behind a character of two bytes: both commands report it at the same
line and column. -/
theorem where_in_front_second_line :
    Expr.parse "a == 'ü' and\n b # 1" = .error (.lex ⟨.unexpected '#', ⟨23, 2, 3⟩⟩) ∧
    ∃ given, FaultBehindWhere "a == 'ü' and\n b # 1" given ⟨.unexpected '#', ⟨23, 2, 3⟩⟩ ∧
      given.position = ⟨17, 2, 3⟩ := by
  have hparse : Expr.parse "a == 'ü' and\n b # 1" =
      .error (.lex ⟨.unexpected '#', ⟨23, 2, 3⟩⟩) := by decide +kernel
  have hkinds : (Token.stream "a == 'ü' and\n b # 1").tokens.map Token.kind =
      [.identifier, .equal, .quotedString, .andWord, .identifier] := by decide +kernel
  have hfirst : ∀ t after, Token.stream "a == 'ü' and\n b # 1" = .next t after →
      t.kind ≠ .whereWord := by
    -- the first token is that of the list, which is no such word
    intro t after hstream
    rw [hstream] at hkinds
    injection hkinds with hkind
    rw [hkind]
    decide
  obtain ⟨-, -, hfault⟩ :=
    @where_in_front FileTree _ (.ofInput "") "a == 'ü' and\n b # 1" _ hfirst
  obtain ⟨given, hplaces, -, -⟩ := hfault FileTree.initial rfl hparse
    (i := (Command.check "a == 'ü' and\n b # 1").withFile)
    (j := (Command.tokens "a == 'ü' and\n b # 1").withFile) rfl rfl
  -- the place in the text as it was given is the one that the word has moved
  obtain ⟨fault, offset, line, column⟩ := given
  have hmoved := hplaces.position_eq
  simp only [Position.afterWhere, Position.mk.injEq] at hmoved
  obtain ⟨hoffset, rfl, hcolumn⟩ := hmoved
  obtain rfl : offset = 17 := by omega
  obtain rfl : column = 3 := hcolumn.symm
  exact ⟨hparse, _, hplaces, rfl⟩

end Cli

end MetadataFilter
