import MetadataFilter.Expr.Parser
import MetadataFilter.Proofs.Token.Front

/-!
# The tokens of a text, piece by piece

A text is cut into tokens from its front on. `Cursor.Reads s ts s'` says that the tokens from `s` on
are `ts` and then those from `s'` on, so that pieces of a text can be read one after the other.

## Key results

- `stream_eq`: one step of cutting a text into tokens
- `Reads.lexeme`, `Reads.blank`: a lexeme in front gives its token, a blank gives none
- `forall_mem_taken`: what holds of every token in front holds of every token of a text
- `stream_normalize`: a text that does not start with WHERE gets that token in front
-/

namespace MetadataFilter

open Text

/-- The tokens before the end or the first fault. -/
def Token.Stream.taken : Token.Stream → List Token
  | .next token rest => token :: rest.taken
  | _ => []

/-- Tokens in front of a stream are taken first. -/
theorem Token.Stream.taken_foldr (ts : List Token) (stream : Stream) :
    (ts.foldr next stream).taken = ts ++ stream.taken := by
  induction ts with
  | nil => rfl
  | cons t ts ih => rw [List.foldr_cons, taken, ih, List.cons_append]

/-- A fault comes after all tokens in front of it. -/
theorem Token.Stream.fault?_foldr (ts : List Token) (stream : Stream) :
    (ts.foldr next stream).fault? = stream.fault? := by
  induction ts with
  | nil => rfl
  | cons t ts ih => exact ih

namespace Cursor

/-- One step of cutting a text into tokens. -/
theorem stream_eq (s : Cursor) :
    s.stream = match Token.front s.skipBlank.rest with
      | .token kind lexeme =>
        if kind = .endOfInput then .finish s.skipBlank.position
        else .next ⟨kind, String.ofList lexeme, s.skipBlank.position⟩
          (s.skipBlank.drop lexeme.length).stream
      | .fault fault _ => .fault ⟨fault, s.skipBlank.position⟩ := by
  rw [stream]
  cases hf : Token.front s.skipBlank.rest with
  -- the lexeme is dropped, and cutting goes on after it
  | token kind lexeme =>
    have hnext : s.next = (.ok ⟨kind, String.ofList lexeme, s.skipBlank.position⟩,
        s.skipBlank.drop lexeme.length) := by
      simp only [next, hf]
    split
    · next h => rw [hnext] at h; cases h
    · next t s' h =>
      rw [hnext] at h
      cases h
      rfl
  -- a fault ends the stream where the token would have started
  | fault fault consumed =>
    have hnext : s.next = (.error ⟨fault, s.skipBlank.position⟩,
        s.skipBlank.drop consumed.length) := by
      simp only [next, hf]
    split
    · next h =>
      rw [hnext] at h
      cases h
      rfl
    · next h => rw [hnext] at h; cases h

/-- Induction along the tokens of a text. -/
theorem forall_mem_taken {P : Token → Prop}
    (h : ∀ cs kind lexeme position, Token.front cs = .token kind lexeme → kind ≠ .endOfInput →
      P ⟨kind, String.ofList lexeme, position⟩) (s : Cursor) : ∀ t ∈ s.stream.taken, P t := by
  -- every token before the end leaves a shorter text
  induction hn : s.rest.length using Nat.strongRecOn generalizing s with
  | ind n ih =>
    rw [stream_eq]
    cases hf : Token.front s.skipBlank.rest with
    | fault fault consumed => simp [Token.Stream.taken]
    | token kind lexeme =>
      -- the end is not among the tokens that are taken
      by_cases hk : kind = .endOfInput
      · simp [hk, Token.Stream.taken]
      · have hnext : s.next = (.ok ⟨kind, String.ofList lexeme, s.skipBlank.position⟩,
            s.skipBlank.drop lexeme.length) := by
          simp only [next, hf]
        simp only [if_neg hk, Token.Stream.taken, List.mem_cons]
        rintro t (rfl | ht)
        · exact h _ _ _ _ hf hk
        · exact ih _ (hn ▸ next_rest_lt hnext hk) _ rfl t ht

/-- No token before the end is the end. -/
theorem kind_ne_endOfInput_of_mem_taken (s : Cursor) :
    ∀ t ∈ s.stream.taken, t.kind ≠ .endOfInput :=
  s.forall_mem_taken (P := fun t => t.kind ≠ .endOfInput) fun _ _ _ _ _ hk => hk

/-! ### Reading pieces -/

/-- The tokens from `s` on are `ts` and then those from `s'` on. -/
def Reads (s : Cursor) (ts : List Token) (s' : Cursor) : Prop :=
  s.stream = ts.foldr Token.Stream.next s'.stream

/-- Without tokens nothing is read. -/
theorem Reads.nil (s : Cursor) : s.Reads [] s := rfl

/-- Pieces of a text are read one after the other. -/
theorem Reads.append {s s' s'' : Cursor} {ts us : List Token} (h : s.Reads ts s')
    (h' : s'.Reads us s'') : s.Reads (ts ++ us) s'' := by
  simp only [Reads, List.foldr_append] at *
  rw [h, h']

/-- A blank in front is skipped. -/
theorem skipBlank_cons {c : Char} (h : isBlank c = true) (cs : List Char) (p : Position) :
    skipBlank ⟨c :: cs, p⟩ = skipBlank ⟨cs, p.advance c⟩ := by
  simp [skipBlank, h]

/-- Nothing is skipped where no blank is in front. -/
theorem skipBlank_of_ends {cs : List Char} (h : Ends isBlank cs) (p : Position) :
    skipBlank ⟨cs, p⟩ = ⟨cs, p⟩ := by
  cases cs with
  | nil => rfl
  | cons c cs => simp [skipBlank, h c rfl]

/-- A blank gives no token. -/
theorem Reads.blank {c : Char} (h : isBlank c = true) (cs : List Char) (p : Position) :
    Reads ⟨c :: cs, p⟩ [] ⟨cs, p.advance c⟩ := by
  unfold Reads
  rw [stream_eq, skipBlank_cons h, ← stream_eq]
  rfl

/-- Blanks give no tokens. -/
theorem Reads.blanks {blanks : List Char} (h : AllBlank blanks) (cs : List Char) (p : Position) :
    Reads ⟨blanks ++ cs, p⟩ [] ⟨cs, p.advanceBy blanks⟩ := by
  induction blanks generalizing p with
  | nil => exact .nil _
  | cons c blanks ih =>
    exact (Reads.blank (h c (by simp)) _ p).append (ih (fun d hd => h d (by simp [hd])) _)

/-- A lexeme in front gives its token. -/
theorem Reads.lexeme {lexeme rest : List Char} {kind : Token.Kind}
    (hf : Token.front (lexeme ++ rest) = .token kind lexeme) (hk : kind ≠ .endOfInput)
    (hblank : Ends isBlank (lexeme ++ rest)) (p : Position) :
    Reads ⟨lexeme ++ rest, p⟩ [⟨kind, String.ofList lexeme, p⟩] ⟨rest, p.advanceBy lexeme⟩ := by
  unfold Reads
  rw [stream_eq, skipBlank_of_ends hblank]
  simp only [hf, if_neg hk, drop, List.drop_left, List.take_left, List.foldr_cons, List.foldr_nil]

/-- A lexeme of one character in front gives its token. -/
theorem Reads.mark {c : Char} {kind : Token.Kind} {rest : List Char}
    (hf : Token.front (c :: rest) = .token kind [c]) (hk : kind ≠ .endOfInput)
    (hblank : isBlank c = false) (p : Position) :
    Reads ⟨c :: rest, p⟩ [⟨kind, String.ofList [c], p⟩] ⟨rest, p.advance c⟩ :=
  @Reads.lexeme [c] rest kind hf hk (Ends.cons hblank _) p

/-! ### Blank texts and the word WHERE -/

/-- A blank text has no tokens but its end. -/
theorem stream_of_all_blank {cs : List Char} (h : AllBlank cs) (p : Position) :
    ∃ position, (⟨cs, p⟩ : Cursor).stream = .finish position := by
  have hread := Reads.blanks h [] p
  rw [List.append_nil] at hread
  exact ⟨p.advanceBy cs, hread.trans (by rw [stream_eq]; rfl)⟩

/-- A text that does not start with the word WHERE gets that token in front. -/
theorem stream_normalize {text : String}
    (h : ∀ t s, (Cursor.ofString text).next = (.ok t, s) → t.kind ≠ .whereWord) :
    Token.stream (normalize text) =
      .next ⟨.whereWord, "WHERE", .start⟩ (⟨text.toList, ⟨6, 1, 6⟩⟩ : Cursor).stream := by
  have hnormalize : normalize text = "WHERE " ++ text := by
    unfold normalize
    split
    · next t s hnext => rw [if_neg (h t s hnext)]
    · rfl
  -- the blank after the word keeps the text from carrying it on
  have hfront : Token.front ("WHERE".toList ++ ' ' :: text.toList) =
      .token .whereWord "WHERE".toList :=
    Token.front_word (by decide) (Ends.cons (by decide) _)
  have hword := Reads.lexeme hfront (by simp) (Ends.cons (by decide) _) .start
  have hblank := Reads.blank (c := ' ') (by decide) text.toList
    (Position.start.advanceBy "WHERE".toList)
  have htext : Cursor.ofString ("WHERE " ++ text) =
      ⟨"WHERE".toList ++ ' ' :: text.toList, .start⟩ := by
    simp [Cursor.ofString]
  rw [hnormalize, Token.stream, htext]
  exact hword.append hblank

/-- Nothing but blanks gets that token as well, and nothing comes after it. -/
theorem stream_normalize_of_all_blank {text : String} (h : AllBlank text.toList) :
    ∃ position, Token.stream (normalize text) =
      .next ⟨.whereWord, "WHERE", .start⟩ (.finish position) := by
  have hfront : (Cursor.ofString text).skipBlank.rest = [] := dropWhile_isBlank_eq_nil_iff.2 h
  have hnext : ∀ t s, (Cursor.ofString text).next = (.ok t, s) → t.kind ≠ .whereWord := by
    intro t s hnext
    simp only [Cursor.next, hfront, Token.front, Prod.mk.injEq, Except.ok.injEq] at hnext
    simp [← hnext.1]
  obtain ⟨position, hstream⟩ := stream_of_all_blank h ⟨6, 1, 6⟩
  exact ⟨position, by rw [stream_normalize hnext, hstream]⟩

end Cursor

end MetadataFilter
