import MetadataFilter.Proofs.Token.Boundary

/-!
# Lexemes with other gaps between them

The lexemes of a text can be cut out of it and written one after the other with other gaps. If a
blank stands between each two of them, the result is cut into the same lexemes of the same kinds:
no blank carries a lexeme on, and no lexeme needs what stood around it.

## Key results

- `Cursor.Leads.respaced`: one lexeme behind another gap and in front of another rest
- `Cursor.exists_reads_written`: all lexemes of a text, with other gaps
- `spellings_written`: the kinds and lexemes stay the same
-/

namespace MetadataFilter

open Text

/-- A blank carries nothing on. -/
theorem carriesOn_of_isBlank {c : Char} (h : isBlank c = true) : carriesOn c = false := by
  rw [Bool.eq_false_iff]
  intro hcarries
  rw [isBlank_of_carriesOn hcarries] at h
  cases h

namespace Token

/-- A token without its place. -/
def spelling (t : Token) : Kind × String := (t.kind, t.lexeme)

/-- The gaps in front of the tokens are blank, and two tokens do not touch. -/
structure Apart (pieces : List (List Char × Token)) : Prop where
  blank : ∀ piece ∈ pieces, AllBlank piece.1
  gap_ne_nil : ∀ piece ∈ pieces.tail, piece.1 ≠ []

instance (pieces : List (List Char × Token)) : Decidable (Apart pieces) :=
  decidable_of_iff ((∀ piece ∈ pieces, piece.1.all isBlank = true) ∧
    ∀ piece ∈ pieces.tail, piece.1 ≠ [])
    ⟨fun h => ⟨fun piece hpiece => List.all_eq_true.1 (h.1 piece hpiece), h.2⟩,
      fun h => ⟨fun piece hpiece => List.all_eq_true.2 (h.blank piece hpiece), h.gap_ne_nil⟩⟩

/-- The other pieces are apart as well. -/
theorem Apart.of_cons {piece : List Char × Token} {pieces : List (List Char × Token)}
    (h : Apart (piece :: pieces)) : Apart pieces where
  blank other hother := h.blank other (List.mem_cons_of_mem _ hother)
  gap_ne_nil other hother := h.gap_ne_nil other (List.mem_of_mem_tail hother)

/-- What comes after a token does not carry it on, be it the next gap or what comes after all. -/
theorem Apart.ends {piece : List Char × Token} {pieces : List (List Char × Token)}
    (h : Apart (piece :: pieces)) {rest : List Char} (hrest : Ends carriesOn rest) :
    Ends carriesOn (written pieces ++ rest) := by
  -- behind the last piece comes the rest, behind any other one the gap of the next piece
  cases pieces with
  | nil => exact hrest
  | cons next pieces =>
    obtain ⟨blank, gap, hgap⟩ := List.exists_cons_of_ne_nil (h.gap_ne_nil next List.mem_cons_self)
    have hblank : isBlank blank = true := h.blank next (by simp) blank (by simp [hgap])
    have htext : written (next :: pieces) ++ rest =
        blank :: (gap ++ next.2.lexeme.toList ++ (written pieces ++ rest)) := by
      simp [written, hgap]
    rw [htext]
    exact Ends.cons (carriesOn_of_isBlank hblank) _

/-! ### Streams without a fault -/

/-- Without a fault there is an end behind the tokens. -/
theorem Stream.exists_finish {stream : Stream} (h : stream.fault? = none) :
    ∃ p, stream = stream.taken.foldr next (finish p) := by
  induction stream with
  | fault e => cases h
  | finish p => exact ⟨p, rfl⟩
  | next t rest ih =>
    obtain ⟨p, hp⟩ := ih h
    exact ⟨p, congrArg (next t) hp⟩

/-- Tokens in front of a stream come before its own tokens. -/
theorem Stream.tokens_foldr (ts : List Token) (stream : Stream) :
    (ts.foldr next stream).tokens = ts ++ stream.tokens := by
  induction ts with
  | nil => rfl
  | cons t ts ih => rw [List.foldr_cons, tokens, ih, List.cons_append]

end Token

/-! ### Lexemes behind other gaps -/

namespace Cursor

/-- A token of a text is also found behind another gap and in front of another rest that does not
carry it on. -/
theorem Leads.respaced {s : Cursor} {t : Token} {blanks rest : List Char}
    (h : s.Leads t blanks rest) {gap rest' : List Char} (hgap : AllBlank gap)
    (hrest' : Ends carriesOn rest') (p : Position) :
    Reads ⟨gap ++ (t.lexeme.toList ++ rest'), p⟩ [⟨t.kind, t.lexeme, p.advanceBy gap⟩]
      ⟨rest', (p.advanceBy gap).advanceBy t.lexeme.toList⟩ := by
  have hmoved : Leads ⟨gap ++ (t.lexeme.toList ++ rest), p⟩
      ⟨t.kind, t.lexeme, p.advanceBy gap⟩ gap rest :=
    ⟨hgap, rfl, rfl, h.ends, h.front_eq, h.kind_ne⟩
  exact hmoved.reads (Token.endsAlike_of_head? fun c hc => .inr (hrest' c hc))

/-- The tokens of a text, up to any place in it, written with other gaps. -/
theorem exists_reads_written {s : Cursor} {pieces : List (List Char × Token)}
    {after : Token.Stream} (h : s.stream = (pieces.map Prod.snd).foldr .next after)
    (hapart : Token.Apart pieces) {rest : List Char} (hrest : Ends carriesOn rest) (p : Position) :
    ∃ ts p', ts.map Token.spelling = (pieces.map Prod.snd).map Token.spelling ∧
      Reads ⟨Token.written pieces ++ rest, p⟩ ts ⟨rest, p'⟩ := by
  -- each token leads the stream that the tokens in front of it leave
  induction pieces generalizing s p with
  | nil => exact ⟨[], p, rfl, .nil _⟩
  | cons piece pieces ih =>
    obtain ⟨gap, t⟩ := piece
    obtain ⟨blanks, tail, hleads, htail⟩ := exists_leads h
    have hgap : AllBlank gap := hapart.blank (gap, t) List.mem_cons_self
    have hread := hleads.respaced hgap (hapart.ends hrest) p
    obtain ⟨ts, p', hts, hreads⟩ := ih htail.symm hapart.of_cons _
    refine ⟨⟨t.kind, t.lexeme, p.advanceBy gap⟩ :: ts, p', ?_, ?_⟩
    · rw [List.map_cons, hts]
      rfl
    · have htext : Token.written ((gap, t) :: pieces) ++ rest =
          gap ++ (t.lexeme.toList ++ (Token.written pieces ++ rest)) := by
        simp [Token.written]
      rw [htext]
      exact hread.append hreads

end Cursor

namespace Token

/-- The lexemes of a text without faults, with any gaps of blanks between them, are cut into tokens
of the same kinds with the same lexemes, again without a fault. A gap may also stand in front of
them and behind them. -/
theorem spellings_written {text : String} (hfault : (Token.stream text).fault? = none)
    {pieces : List (List Char × Token)} (hpieces : pieces.map Prod.snd = (Token.stream text).taken)
    (hapart : Apart pieces) {last : List Char} (hlast : AllBlank last) :
    (Token.stream (String.ofList (written pieces ++ last))).fault? = none ∧
      (Token.stream (String.ofList (written pieces ++ last))).tokens.map spelling =
        (Token.stream text).tokens.map spelling := by
  obtain ⟨p, hstream⟩ := Stream.exists_finish hfault
  have hends : Ends carriesOn last :=
    fun c hc => carriesOn_of_isBlank (hlast c (List.mem_of_mem_head? hc))
  rw [← hpieces] at hstream
  obtain ⟨ts, p', hts, hreads⟩ := Cursor.exists_reads_written hstream hapart hends .start
  obtain ⟨q, hq⟩ := Cursor.stream_of_all_blank hlast p'
  have hwritten : Token.stream (String.ofList (written pieces ++ last)) =
      ts.foldr .next (.finish q) := by
    rw [Token.stream, Cursor.ofString, String.toList_ofList, ← hq]
    exact hreads
  refine ⟨?_, ?_⟩
  · rw [hwritten, Stream.fault?_foldr]
    rfl
  -- both streams have their end behind tokens with the same spellings
  · rw [hwritten, hstream, Stream.tokens_foldr, Stream.tokens_foldr, List.map_append,
      List.map_append, hts]
    rfl

/-- Two numbers that touch, and an operator without blanks, keep their lexemes with blanks
between them. -/
theorem spellings_written_points :
    ((Token.stream "1..5>=x").fault? = none ∧
      (Token.stream "1..5>=x").tokens.map spelling =
        [(.decimal, "1."), (.decimal, ".5"), (.greaterEqual, ">="), (.identifier, "x"),
          (.endOfInput, "")]) ∧
    (Token.stream "1. .5\n>=\t x").fault? = none ∧
    (Token.stream "1. .5\n>=\t x").tokens.map spelling =
      (Token.stream "1..5>=x").tokens.map spelling := by
  have hfault : (Token.stream "1..5>=x").fault? = none := by decide +kernel
  have hpieces : [([], ⟨.decimal, "1.", ⟨0, 1, 0⟩⟩), ([' '], ⟨.decimal, ".5", ⟨2, 1, 2⟩⟩),
      (['\n'], ⟨.greaterEqual, ">=", ⟨4, 1, 4⟩⟩),
      (['\t', ' '], ⟨.identifier, "x", ⟨6, 1, 6⟩⟩)].map Prod.snd =
        (Token.stream "1..5>=x").taken := by decide +kernel
  have hlast : AllBlank [] := by simp [AllBlank]
  have hwritten := spellings_written hfault hpieces (by decide) hlast
  exact ⟨⟨hfault, by decide +kernel⟩, hwritten⟩

end Token

end MetadataFilter
