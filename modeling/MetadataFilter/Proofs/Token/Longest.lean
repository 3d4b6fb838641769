import MetadataFilter.Proofs.Token.Lexeme
import MetadataFilter.Proofs.Token.Stream

/-!
# Texts are cut into longest lexemes

The reference for cutting a text into tokens: blanks are skipped, and then the longest lexeme is
taken, up to the end of the text or to a place where no lexeme is in front. What `Token.stream`
gives is what the reference gives, and nothing of the text gets lost.

## Key results

- `Reference.items_eq`, `reference_stream`: the reference gives the items of the stream, and no
  others
- `cut_stream`: blanks and lexemes make up the text
- `stream_longest`: both, and how many items there are
-/

namespace MetadataFilter

open Text

/-- What is given for a text one after the other: its tokens, and last its end or a fault. -/
def Token.Stream.items : Token.Stream → List (Except LexError Token)
  | fault e => [.error e]
  | finish position => [.ok (.endOfInput position)]
  | next token rest => .ok token :: rest.items

namespace Token

/-- `Reference cs p items`: cutting the text `cs` that starts at `p` gives `items`. -/
inductive Reference : List Char → Position → List (Except LexError Token) → Prop
  | finish {blanks : List Char} (p : Position) (blank : AllBlank blanks) :
      Reference blanks p [.ok (.endOfInput (p.advanceBy blanks))]
  | token {blanks lexeme rest : List Char} {kind : Kind} {items : List (Except LexError Token)}
      (p : Position) (blank : AllBlank blanks) (ends : Ends isBlank (lexeme ++ rest))
      (longest : IsLongest (lexeme ++ rest) kind lexeme)
      (after : Reference rest ((p.advanceBy blanks).advanceBy lexeme) items) :
      Reference (blanks ++ (lexeme ++ rest)) p
        (.ok ⟨kind, String.ofList lexeme, p.advanceBy blanks⟩ :: items)
  | fault {blanks rest : List Char} {c : Char} (p : Position) (blank : AllBlank blanks)
      (not_blank : isBlank c = false)
      (nothing : ∀ kind lexeme, Matches kind lexeme → ¬ lexeme <+: c :: rest) :
      Reference (blanks ++ c :: rest) p [.error ⟨faultAt c, p.advanceBy blanks⟩]

/-! ### One step -/

/-- Skipping blanks stops at what follows them. -/
theorem skipBlank_append {blanks cs : List Char} (hblanks : AllBlank blanks) (hcs : Ends isBlank cs)
    (p : Position) : Cursor.skipBlank ⟨blanks ++ cs, p⟩ = ⟨cs, p.advanceBy blanks⟩ := by
  rw [Cursor.skipBlank, hcs.takeWhile_append hblanks, hcs.dropWhile_append hblanks]

/-! ### The reference and the stream -/

/-- The reference gives nothing but the items of the stream. -/
theorem Reference.items_eq {cs : List Char} {p : Position} {items : List (Except LexError Token)}
    (h : Reference cs p items) : items = (⟨cs, p⟩ : Cursor).stream.items := by
  -- by induction on how the text has been cut, one step of the stream for each of its items
  induction h with
  | @finish blanks p blank =>
    have hskip := skipBlank_append blank (Ends.nil isBlank) p
    rw [List.append_nil] at hskip
    rw [Cursor.stream_eq, hskip]
    rfl
  | @token blanks lexeme rest kind items p blank ends longest after ih =>
    have hne : kind ≠ .endOfInput := longest.lexeme_matches.kind_ne_endOfInput
    rw [Cursor.stream_eq, skipBlank_append blank ends]
    simp only [longest.front_eq, if_neg hne, Stream.items, Cursor.drop, List.drop_left,
      List.take_left, ih]
  | @fault blanks rest c p blank not_blank nothing =>
    rw [Cursor.stream_eq, skipBlank_append blank (Ends.cons not_blank rest)]
    cases hfront : front (c :: rest) with
    | token kind lexeme =>
      -- a lexeme that is found would be in front
      have hlongest := isLongest_of_front hfront
      exact absurd hlongest.isPrefix (nothing _ _ hlongest.lexeme_matches)
    | fault fault consumed =>
      rw [(front_fault hfront).1]
      rfl

/-- The reference gives the items of the stream. -/
theorem reference_stream (s : Cursor) : Reference s.rest s.position s.stream.items := by
  -- every token before the end leaves a shorter text
  induction hn : s.rest.length using Nat.strongRecOn generalizing s with
  | ind n ih =>
    obtain ⟨cs, p⟩ := s
    -- the blanks, and what is left behind them, are named for the rest of the proof
    have hblank : AllBlank (cs.takeWhile isBlank) := List.all_eq_true.1 List.all_takeWhile
    have hends := Ends.dropWhile isBlank cs
    have htext : cs.takeWhile isBlank ++ cs.dropWhile isBlank = cs :=
      List.takeWhile_append_dropWhile
    generalize cs.takeWhile isBlank = blanks at hblank htext
    generalize cs.dropWhile isBlank = tail at hends htext
    subst htext
    rw [Cursor.stream_eq, skipBlank_append hblank hends]
    cases tail with
    | nil =>
      rw [List.append_nil]
      exact .finish p hblank
    | cons c rest =>
      simp only
      cases hfront : front (c :: rest) with
      | token kind lexeme =>
        have hlongest := isLongest_of_front hfront
        have hne := hlongest.lexeme_matches.kind_ne_endOfInput
        obtain ⟨after, hafter⟩ := hlongest.isPrefix
        have hlength : 0 < lexeme.length := List.length_pos_iff.2 hlongest.lexeme_matches.ne_nil
        rw [← hafter] at hends hlongest hn ⊢
        simp only [if_neg hne, Stream.items, Cursor.drop, List.drop_left, List.take_left]
        -- what is left behind a lexeme is shorter
        have hshorter : after.length < n := by
          simp only [List.length_append] at hn
          omega
        exact .token p hblank hends hlongest (ih _ hshorter ⟨after, _⟩ rfl)
      | fault fault consumed =>
        obtain ⟨rfl, hnothing⟩ := front_fault hfront
        exact .fault p hblank (hends c rfl) hnothing

/-! ### What the items are -/

/-- The text that gaps and the lexemes after them make up. -/
def written (pieces : List (List Char × Token)) : List Char :=
  pieces.flatMap fun piece => piece.1 ++ piece.2.lexeme.toList

/-- Gaps of blanks and lexemes make up the text, up to its end or to a fault. Only the last item is
no token before the end. -/
theorem Reference.exists_pieces {cs : List Char} {p : Position}
    {items : List (Except LexError Token)} (h : Reference cs p items) :
    ∃ (pieces : List (List Char × Token)) (last rest : List Char)
      (final : Except LexError Token),
      items = pieces.map (fun piece => .ok piece.2) ++ [final] ∧
      cs = written pieces ++ last ++ rest ∧
      (∀ piece ∈ pieces, AllBlank piece.1 ∧ piece.2.kind ≠ .endOfInput) ∧ AllBlank last ∧
      ((rest = [] ∧ final = .ok (.endOfInput (p.advanceBy cs))) ∨
        ∃ c tail, rest = c :: tail ∧
          final = .error ⟨faultAt c, p.advanceBy (written pieces ++ last)⟩) := by
  -- by induction on how the text has been cut: each token puts one piece in front
  induction h with
  | @finish blanks p blank =>
    refine ⟨[], blanks, [], _, rfl, by simp [written], by simp, blank, .inl ⟨rfl, rfl⟩⟩
  | @token blanks lexeme rest kind items p blank ends longest after ih =>
    obtain ⟨pieces, last, tail, final, hitems, htext, hpieces, hlast, hfinal⟩ := ih
    refine ⟨(blanks, ⟨kind, String.ofList lexeme, p.advanceBy blanks⟩) :: pieces, last, tail,
      final, ?_, ?_, ?_, hlast, ?_⟩
    · rw [hitems]
      rfl
    · simp [written, htext]
    · intro piece hpiece
      rcases List.mem_cons.1 hpiece with rfl | hpiece
      · exact ⟨blank, longest.lexeme_matches.kind_ne_endOfInput⟩
      · exact hpieces piece hpiece
    -- the places after the lexeme are counted on from the place in front of it
    · refine hfinal.imp ?_ ?_
      · rintro ⟨rfl, rfl⟩
        simp [Position.advanceBy_append]
      · rintro ⟨c, tail, rfl, rfl⟩
        exact ⟨c, tail, rfl, by simp [written, Position.advanceBy_append]⟩
  | @fault blanks rest c p blank not_blank nothing =>
    exact ⟨[], blanks, c :: rest, _, rfl, by simp [written], by simp, blank,
      .inr ⟨c, rest, rfl, by simp [written]⟩⟩

/-- There is at most one item more than there are characters. -/
theorem Reference.length_le {cs : List Char} {p : Position} {items : List (Except LexError Token)}
    (h : Reference cs p items) : items.length ≤ cs.length + 1 := by
  induction h with
  | finish => simp
  | token p blank ends longest after ih =>
    have hlength := List.length_pos_iff.2 longest.lexeme_matches.ne_nil
    simp only [List.length_cons, List.length_append] at *
    omega
  | fault => simp

/-- What is given for a text is what the reference gives: blanks are skipped and the longest lexeme
is taken, again and again. Gaps of blanks and the lexemes make up the text, up to its end or to the
place where no lexeme is in front; only the last item is the end or a fault, and there is at most
one item more than there are characters. -/
theorem items_longest_match (text : String) :
    (∀ items, Reference text.toList .start items ↔ items = (Token.stream text).items) ∧
    (∃ (pieces : List (List Char × Token)) (last rest : List Char)
      (final : Except LexError Token),
      (Token.stream text).items = pieces.map (fun piece => .ok piece.2) ++ [final] ∧
      text.toList = written pieces ++ last ++ rest ∧
      (∀ piece ∈ pieces, AllBlank piece.1 ∧ piece.2.kind ≠ .endOfInput) ∧ AllBlank last ∧
      ((rest = [] ∧ final = .ok (.endOfInput (Position.start.advanceBy text.toList))) ∨
        ∃ c tail, rest = c :: tail ∧
          final = .error ⟨faultAt c, Position.start.advanceBy (written pieces ++ last)⟩)) ∧
    (Token.stream text).items.length ≤ text.length + 1 := by
  -- what the stream gives is cut out as the reference says
  have hreference : Reference text.toList .start (Token.stream text).items :=
    reference_stream (Cursor.ofString text)
  refine ⟨fun items => ⟨fun h => h.items_eq, ?_⟩, hreference.exists_pieces, ?_⟩
  · rintro rfl
    exact hreference
  · rw [← String.length_toList]
    exact hreference.length_le

end Token

end MetadataFilter
