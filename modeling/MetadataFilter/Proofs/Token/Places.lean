import MetadataFilter.Proofs.Token.Boundary

/-!
# Where tokens stand

Every token of a text, its end and its first fault have a place in the text: what has been counted
up to it is what the text holds in front of it. Places increase from token to token, so that a
token is known by its place.

## Key results

- `Cursor.exists_place`: the text in front of a token and the text from it on
- `Cursor.eq_next_of_position_eq`: a token is known by its place
-/

namespace MetadataFilter

open Text

namespace Token.Stream

/-- Where a stream starts. -/
def position : Stream → Position
  | fault e => e.position
  | finish position => position
  | next token _ => token.position

/-- What a stream starts with stands in front of the text `cs`: its end if nothing is left, a token
if its lexeme is in front, a fault if it is the one of the first character. -/
def Heads (cs : List Char) : Stream → Prop
  | fault e => ∃ c rest, cs = c :: rest ∧ e.fault = faultAt c
  | finish _ => cs = []
  | next token _ => token.lexeme.toList ≠ [] ∧ token.lexeme.toList <+: cs

/-- A fault ends a stream of tokens. -/
theorem exists_of_fault? {stream : Stream} {e : LexError} (h : stream.fault? = some e) :
    ∃ ts : List Token, stream = ts.foldr next (fault e) := by
  induction stream with
  | fault e' => cases h; exact ⟨[], rfl⟩
  | finish p => cases h
  | next t rest ih =>
    obtain ⟨ts, rfl⟩ := ih h
    exact ⟨t :: ts, rfl⟩

/-- A token of a stream has tokens in front of it and something behind it. -/
theorem exists_of_mem_taken {stream : Stream} {t : Token} (h : t ∈ stream.taken) :
    ∃ (ts : List Token) (after : Stream), stream = ts.foldr next (next t after) := by
  induction stream with
  | fault e => cases h
  | finish p => cases h
  | next u rest ih =>
    rcases List.mem_cons.1 h with rfl | h
    · exact ⟨[], rest, rfl⟩
    · obtain ⟨ts, after, rfl⟩ := ih h
      exact ⟨u :: ts, after, rfl⟩

/-- What has been put behind some tokens is taken with them. -/
theorem mem_taken_foldr (ts : List Token) (t : Token) (after : Stream) :
    t ∈ (ts.foldr next (next t after)).taken := by
  rw [taken_foldr]
  exact List.mem_append_right ts List.mem_cons_self

end Token.Stream

namespace Cursor

/-- What a stream starts with stands where the blanks end. -/
theorem heads_stream (s : Cursor) :
    s.stream.position = s.skipBlank.position ∧ s.stream.Heads s.skipBlank.rest := by
  rw [stream_eq]
  cases hfront : Token.front s.skipBlank.rest with
  | fault fault consumed =>
    refine ⟨rfl, ?_⟩
    -- a fault is found at some character
    cases hrest : s.skipBlank.rest with
    | nil => rw [hrest] at hfront; cases hfront
    | cons c rest =>
      rw [hrest] at hfront
      exact ⟨c, rest, rfl, (Token.front_fault hfront).1⟩
  | token kind lexeme =>
    simp only
    split
    -- before the end of the text its end is not found
    · next hk =>
      subst hk
      refine ⟨rfl, ?_⟩
      show s.skipBlank.rest = []
      cases hrest : s.skipBlank.rest with
      | nil => rfl
      | cons c rest =>
        rw [hrest] at hfront
        exact absurd rfl (Token.matches_of_front hfront).kind_ne_endOfInput
    · next hk =>
      refine ⟨rfl, ?_⟩
      show (String.ofList lexeme).toList ≠ [] ∧ _
      rw [String.toList_ofList]
      exact ⟨Token.front_token_ne_nil hfront hk, Token.front_token_isPrefix hfront⟩

/-- What comes after some tokens of a text has a place in the text: the place counts what stands in
front of it, and from there on the text does not start with a blank. -/
theorem exists_place {s : Cursor} {ts : List Token} {after : Token.Stream}
    (h : s.stream = ts.foldr .next after) :
    ∃ before rest, s.rest = before ++ rest ∧ after.position = s.position.advanceBy before ∧
      after.Heads rest ∧ Ends isBlank rest := by
  obtain ⟨read, tail, htext, hafter, -⟩ := exists_reads h
  have htail : tail = tail.takeWhile isBlank ++ tail.dropWhile isBlank :=
    List.takeWhile_append_dropWhile.symm
  obtain ⟨hposition, hheads⟩ := heads_stream ⟨tail, s.position.advanceBy read⟩
  rw [← hafter] at hposition hheads
  refine ⟨read ++ tail.takeWhile isBlank, tail.dropWhile isBlank, ?_, ?_, hheads,
    Ends.dropWhile isBlank tail⟩
  · rw [List.append_assoc, ← htail, htext]
  · rw [hposition, Position.advanceBy_append]
    rfl

/-- What comes after some tokens has no earlier place. -/
theorem offset_le {s : Cursor} {ts : List Token} {after : Token.Stream}
    (h : s.stream = ts.foldr .next after) : s.position.offset ≤ after.position.offset := by
  obtain ⟨before, rest, -, hposition, -⟩ := exists_place h
  rw [hposition, Position.offset_advanceBy]
  exact Nat.le_add_right _ _

/-- What comes after a token has a later place. -/
theorem offset_lt {s : Cursor} {t : Token} {ts : List Token} {after : Token.Stream}
    (h : s.stream = .next t (ts.foldr .next after)) :
    t.position.offset < after.position.offset := by
  obtain ⟨blanks, rest, hleads, hrest⟩ := exists_leads h
  have hle := offset_le hrest.symm
  obtain ⟨c, cs, hlexeme⟩ := hleads.exists_cons
  rw [hlexeme, Position.advanceBy_cons, Position.offset_advanceBy, Position.offset_advance] at hle
  have hpos := c.utf8Size_pos
  omega

/-- A token of a text is known by its place. -/
theorem eq_next_of_position_eq {s : Cursor} {ts : List Token} {after : Token.Stream} {t : Token}
    (h : s.stream = ts.foldr .next after) (hmem : t ∈ s.stream.taken)
    (hposition : t.position = after.position) : ∃ rest, after = .next t rest := by
  -- along the tokens in front: the token is none of them, since its place would be too early
  induction ts generalizing s with
  | nil =>
    have h : s.stream = after := h
    rw [h] at hmem
    cases after with
    | fault e => cases hmem
    | finish p => cases hmem
    | next u rest =>
      -- the token stands first in what is left, or after a token that starts before it
      rcases List.mem_cons.1 hmem with rfl | hmem
      · exact ⟨rest, rfl⟩
      · obtain ⟨us, last, rfl⟩ := Token.Stream.exists_of_mem_taken hmem
        have hlt : u.position.offset < t.position.offset := offset_lt h
        rw [hposition] at hlt
        exact absurd hlt (Nat.lt_irrefl _)
  | cons u ts ih =>
    obtain ⟨blanks, rest, hleads, hrest⟩ := exists_leads h
    rw [h] at hmem
    rcases List.mem_cons.1 hmem with rfl | hmem
    · have hlt := offset_lt h
      rw [hposition] at hlt
      exact absurd hlt (Nat.lt_irrefl _)
    · refine ih hrest.symm ?_
      rw [← hrest]
      exact hmem

end Cursor

end MetadataFilter
