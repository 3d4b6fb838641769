import MetadataFilter.Proofs.Token.Longest
import MetadataFilter.Proofs.Token.Spelling

/-!
# Where a lexeme ends

Whether a lexeme is found in front of a rest depends on one character, the first one of the rest,
and no blank carries a lexeme on. So what has been cut off the front of a text stays the same if
everything after it is replaced, provided that what replaces it starts with a blank, or with a word
in place of another word.

## Key results

- `exists_boundary`: which characters carry a lexeme on
- `endsAlike_of_head?`, `endsAlike_of_wordStart`: one character after a lexeme decides
- `Cursor.exists_leads`, `Cursor.exists_reads`: tokens in front of a stream stand in the front of
  the text
- `Cursor.exists_leads_at`, `Cursor.exists_replace`: a token and what comes after it can be replaced
-/

namespace MetadataFilter

open Text

/-- No blank carries a lexeme on. -/
theorem isBlank_of_carriesOn {c : Char} (h : carriesOn c = true) : isBlank c = false := by
  simp only [carriesOn, Token.isWordChar, Char.isAlphanum, Bool.or_eq_true, beq_iff_eq] at h
  rcases h with ((((h | h) | h) | rfl) | rfl)
  · exact isBlank_of_isWordStart (by simp [Token.isWordStart, h])
  · exact isBlank_of_isDigit h
  · exact isBlank_of_isWordStart (by simp [Token.isWordStart, h])
  · decide
  · decide

/-- The characters of words carry a lexeme on. -/
theorem carriesOn_of_isWordChar {c : Char} (h : Token.isWordChar c = true) :
    carriesOn c = true := by
  simp [carriesOn, h]

/-- Digits carry a lexeme on. -/
theorem carriesOn_of_isDigit (c : Char) (h : c.isDigit = true) : carriesOn c = true :=
  carriesOn_of_isWordChar (by simp [Token.isWordChar, Char.isAlphanum, h])

namespace Token

/-! ### The character after a lexeme -/

/-- The characters of `p` are some of those that carry a lexeme on, and either all characters that
start words are among them or none is. -/
structure Boundary (p : Char → Bool) : Prop where
  carries : ∀ c, p c = true → carriesOn c = true
  wordStarts : (∀ c, isWordStart c = true → p c = true) ∨ ∀ c, isWordStart c = true → p c = false

namespace Boundary

/-- Nothing carries on a lexeme that is complete in itself. -/
theorem none : Boundary fun _ => false := ⟨by simp, .inr fun _ _ => rfl⟩

/-- The characters of words are a boundary. -/
theorem wordChar : Boundary isWordChar :=
  ⟨fun _ => carriesOn_of_isWordChar, .inl fun _ => isWordChar_of_isWordStart⟩

/-- Digits are a boundary. -/
theorem digit : Boundary Char.isDigit :=
  ⟨carriesOn_of_isDigit, .inr fun _ => isDigit_of_isWordStart⟩

/-- Digits and the point are a boundary. -/
theorem digitOrPoint : Boundary fun c => c.isDigit || c == '.' := by
  refine ⟨fun c hc => ?_, .inr fun c hc => ?_⟩
  · rcases Bool.or_eq_true_iff.1 hc with hc | hc
    · exact carriesOn_of_isDigit c hc
    · simp [carriesOn, hc]
  · simp [isDigit_of_isWordStart hc, ne_of_class hc (show isWordStart '.' = false by decide)]

/-- The equality sign is a boundary. -/
theorem equal : Boundary (· == '=') := by
  refine ⟨fun c hc => by simp [carriesOn, hc], .inr fun c hc => ?_⟩
  simp [ne_of_class hc (show isWordStart '=' = false by decide)]

end Boundary

/-- A lexeme that a run carries on is found exactly if there is no run. -/
theorem front_eq_iff_of_run {p : Char → Bool} {kind : Kind} (kindOf : List Char → Kind)
    {cs rest : List Char} (hkind : kindOf [] = kind)
    (h : front (cs ++ rest) = .token (kindOf (rest.takeWhile p)) (cs ++ rest.takeWhile p)) :
    front (cs ++ rest) = .token kind cs ↔ Ends p rest := by
  rw [h]
  constructor
  · intro heq
    injection heq with _ heq
    exact ends_of_takeWhile (List.append_right_eq_self.1 heq)
  · intro hends
    rw [hends.takeWhile, hkind, List.append_nil]

/-- A mark that an equals sign carries on. -/
theorem front_eq_iff_of_angle {c : Char} {kind : Kind}
    (hc : ∀ rest, front (c :: rest) = markFront c rest)
    (hlong : (markKind c (some '=')).map Prod.snd = some 2)
    (hshort : ∀ next, next ≠ some '=' → markKind c next = some (kind, 1)) (rest : List Char) :
    front ([c] ++ rest) = .token kind [c] ↔ Ends (· == '=') rest := by
  rw [List.singleton_append, hc, markFront]
  by_cases h : rest.head? = some '='
  -- the longer mark is the one that is found
  · obtain ⟨tail, rfl⟩ := List.head?_eq_some_iff.1 h
    cases hmark : markKind c (some '=') with
    | none => simp [hmark] at hlong
    | some k =>
      obtain ⟨kind', n⟩ := k
      simp only [hmark, Option.map_some, Option.some.injEq] at hlong
      simp [hmark, hlong, Ends]
  · simp only [hshort _ h, List.take_succ_cons, List.take_zero, true_iff]
    rintro d hd
    rw [beq_eq_false_iff_ne]
    rintro rfl
    exact h hd

/-- A point that a digit carries on. -/
theorem front_eq_iff_of_point (rest : List Char) :
    front (['.'] ++ rest) = .token .dot ['.'] ↔ Ends Char.isDigit rest := by
  cases rest with
  | nil => exact ⟨fun _ => Ends.nil _, fun _ => rfl⟩
  | cons d tail =>
    by_cases hd : d.isDigit = true
    -- the point and the digit behind it are found as a decimal
    · have hdigit : ∀ e ∈ [d], e.isDigit = true := by simpa using hd
      have hfront := (front_point (by simp) hdigit tail).trans
        (@numberFront_decimal [] [d] (by simp) hdigit tail)
      simp only [List.singleton_append] at hfront ⊢
      simp [hfront, Ends, hd]
    · simp [front, hd, isWordStart, isDelimiter, markFront, markKind, Ends]

/-- A mark is found unless the character behind it makes another lexeme of it. -/
theorem front_eq_iff_of_mark {cs : List Char} {kind : Kind} (h : (cs, kind) ∈ marks) :
    ∃ p : Char → Bool, Boundary p ∧ ∀ rest, front (cs ++ rest) = .token kind cs ↔ Ends p rest := by
  simp only [marks, List.mem_cons, Prod.mk.injEq, List.not_mem_nil, or_false] at h
  rcases h with ⟨rfl, rfl⟩ | ⟨rfl, rfl⟩ | ⟨rfl, rfl⟩ | ⟨rfl, rfl⟩ | ⟨rfl, rfl⟩ | ⟨rfl, rfl⟩ |
    ⟨rfl, rfl⟩ | ⟨rfl, rfl⟩ | ⟨rfl, rfl⟩ | ⟨rfl, rfl⟩ | ⟨rfl, rfl⟩ | ⟨rfl, rfl⟩ | ⟨rfl, rfl⟩ |
    ⟨rfl, rfl⟩ | ⟨rfl, rfl⟩ | ⟨rfl, rfl⟩
  -- all marks but three are found as they are, whatever follows
  all_goals
    try exact ⟨_, .none, fun rest => ⟨fun _ => by simp [Ends], fun _ => rfl⟩⟩
  · exact ⟨_, .equal, front_eq_iff_of_angle (fun _ => rfl) rfl fun next hnext => by
      simp [markKind]⟩
  · exact ⟨_, .equal, front_eq_iff_of_angle (fun _ => rfl) rfl fun next hnext => by
      simp [markKind]⟩
  · exact ⟨_, .digit, front_eq_iff_of_point⟩

/-- Digits are found as an integer exactly if no digit and no point follows. -/
theorem front_eq_iff_of_digits {ds : List Char} (ne_nil : ds ≠ [])
    (digits : ∀ d ∈ ds, d.isDigit = true) (rest : List Char) :
    front (ds ++ rest) = .token .integer ds ↔ Ends (fun c => c.isDigit || c == '.') rest := by
  refine ⟨fun h => ?_, front_integer ne_nil digits⟩
  rw [front_digits ne_nil digits, numberFront, List.dropWhile_append_of_pos digits,
    List.takeWhile_append_of_pos digits] at h
  split at h
  · cases h
  · next hpoint =>
    injection h with _ hrun
    have hdigits := ends_of_takeWhile (List.append_right_eq_self.1 hrun)
    -- without more digits, a point would be in front of the rest
    have hrest : rest.dropWhile Char.isDigit = rest :=
      @Ends.dropWhile_append Char.isDigit [] rest hdigits (by simp)
    rw [hrest] at hpoint
    intro c hc
    obtain ⟨tail, rfl⟩ := List.head?_eq_some_iff.1 hc
    show (c.isDigit || c == '.') = false
    rw [hdigits c hc, Bool.false_or, beq_eq_false_iff_ne]
    -- a point would carry the digits on as well
    rintro rfl
    exact hpoint tail rfl

/-- Which characters carry a lexeme on: it is found exactly if none of them follows. -/
theorem exists_boundary {kind : Kind} {cs : List Char} (h : Matches kind cs) :
    ∃ p : Char → Bool, Boundary p ∧ ∀ rest, front (cs ++ rest) = .token kind cs ↔ Ends p rest := by
  cases h with
  | @reserved word kind mem =>
    obtain ⟨hkind, hisWord⟩ := wordKind_of_mem mem
    obtain ⟨c, cs, htext, hc, hall⟩ := isWord_iff.1 hisWord
    refine ⟨isWordChar, .wordChar, fun rest => ?_⟩
    -- all word characters are taken, so the word is found alone if none follows
    have hfront := front_word_append hc (fun d hd => hall d (List.mem_cons_of_mem c hd)) rest
    rw [htext]
    refine front_eq_iff_of_run (fun run => wordKind (String.ofList (c :: cs ++ run))) ?_ hfront
    rw [List.append_nil, ← htext, String.ofList_toList, hkind]
  | @identifier c cs start chars not_reserved =>
    refine ⟨isWordChar, .wordChar, fun rest => ?_⟩
    refine front_eq_iff_of_run (fun run => wordKind (String.ofList (c :: cs ++ run))) ?_
      (front_word_append start chars rest)
    rw [List.append_nil]
    exact wordKind_of_notMem not_reserved
  | integer ne_nil digits => exact ⟨_, .digitOrPoint, front_eq_iff_of_digits ne_nil digits⟩
  -- a decimal goes on with digits only, since it has had its point
  | @decimal ds es ne_nil digits fraction =>
    have hfront : ∀ rest, front (ds ++ '.' :: es ++ rest) =
        .token .decimal (ds ++ '.' :: es ++ rest.takeWhile Char.isDigit) := by
      intro rest
      simp only [List.append_assoc, List.cons_append]
      rw [← numberFront_decimal digits fraction rest]
      by_cases hds : ds = []
      · subst hds
        exact front_point (ne_nil.resolve_left fun h => h rfl) fraction rest
      · exact front_digits hds digits _
    exact ⟨_, .digit, fun rest => front_eq_iff_of_run (fun _ => .decimal) rfl (hfront rest)⟩
  | quoted delimiter_mem inner =>
    exact ⟨_, .none, fun rest =>
      ⟨fun _ => by simp [Ends], fun _ => front_string delimiter_mem inner rest⟩⟩
  | mark mem => exact front_eq_iff_of_mark mem

/-- Every lexeme that is found in front of `rest` is found in front of `rest'` as well. -/
def EndsAlike (rest rest' : List Char) : Prop :=
  ∀ ⦃kind : Kind⦄ ⦃lexeme : List Char⦄, kind ≠ .endOfInput →
    front (lexeme ++ rest) = .token kind lexeme → front (lexeme ++ rest') = .token kind lexeme

section

variable {rest rest' : List Char}

/-- One boundary holds for all lexemes, so the rest need only end each of them. -/
theorem endsAlike_of_boundary (h : ∀ p, Boundary p → Ends p rest → Ends p rest') :
    EndsAlike rest rest' := by
  intro kind lexeme hk hfront
  have hmatches : Matches kind lexeme := by
    obtain ⟨c, tail, htext⟩ := exists_cons_of_front hfront hk
    rw [htext] at hfront
    exact matches_of_front hfront
  obtain ⟨p, hp, hiff⟩ := exists_boundary hmatches
  exact (hiff rest').2 (h p hp ((hiff rest).1 hfront))

/-- A character that has been there before, or one that carries nothing on. -/
theorem endsAlike_of_head? (h : ∀ c ∈ rest'.head?, c ∈ rest.head? ∨ carriesOn c = false) :
    EndsAlike rest rest' := by
  refine endsAlike_of_boundary fun p hp hends c hc => ?_
  rcases h c hc with hrest | hcarries
  · exact hends c hrest
  · rw [Bool.eq_false_iff]
    intro hc
    rw [hp.carries c hc] at hcarries
    cases hcarries

/-- A word in place of another word. -/
theorem endsAlike_of_wordStart {c d : Char} (hc : isWordStart c = true) (hd : isWordStart d = true)
    (cs ds : List Char) : EndsAlike (c :: cs) (d :: ds) := by
  refine endsAlike_of_boundary fun p hp hends => Ends.cons ?_ _
  rcases hp.wordStarts with hall | hnone
  · have hcarried := hends c rfl
    rw [hall c hc] at hcarried
    cases hcarried
  · exact hnone d hd

/-- What ends a lexeme still does so with more characters in front of it. -/
theorem EndsAlike.append_left (h : EndsAlike rest rest') (cs : List Char) :
    EndsAlike (cs ++ rest) (cs ++ rest') := by
  cases cs with
  | nil => exact h
  | cons c cs => exact endsAlike_of_head? fun d hd => .inl hd

end

end Token

/-! ### Tokens in the stream of a text -/

namespace Cursor

/-- The token `t` is the first one from `s` on: its lexeme stands between `blanks` and `rest`. -/
structure Leads (s : Cursor) (t : Token) (blanks rest : List Char) : Prop where
  blank : AllBlank blanks
  text_eq : s.rest = blanks ++ (t.lexeme.toList ++ rest)
  position_eq : t.position = s.position.advanceBy blanks
  ends : Ends isBlank (t.lexeme.toList ++ rest)
  front_eq : Token.front (t.lexeme.toList ++ rest) = .token t.kind t.lexeme.toList
  kind_ne : t.kind ≠ .endOfInput

/-- The first token of a stream stands behind blanks. -/
theorem exists_leads {s : Cursor} {t : Token} {after : Token.Stream}
    (h : s.stream = .next t after) :
    ∃ blanks rest, s.Leads t blanks rest ∧
      after = (⟨rest, t.position.advanceBy t.lexeme.toList⟩ : Cursor).stream := by
  rw [stream_eq] at h
  cases hfront : Token.front s.skipBlank.rest with
  | fault fault consumed => rw [hfront] at h; cases h
  | token kind lexeme =>
    rw [hfront] at h
    simp only at h
    split at h
    · cases h
    · next hk =>
      cases h
      -- the lexeme is cut out of the text, and what is left goes on behind it
      obtain ⟨rest, hrest⟩ := Token.front_token_isPrefix hfront
      have hends : Ends isBlank s.skipBlank.rest := Ends.dropWhile isBlank s.rest
      have htext : s.rest = s.rest.takeWhile isBlank ++ s.skipBlank.rest :=
        List.takeWhile_append_dropWhile.symm
      rw [← hrest] at hfront hends htext
      rw [← String.toList_ofList (l := lexeme)] at hfront hends htext
      refine ⟨s.rest.takeWhile isBlank, rest, ?_, ?_⟩
      · exact ⟨List.all_eq_true.1 List.all_takeWhile, htext, rfl, hends, hfront, hk⟩
      · rw [drop, ← hrest, List.drop_left, List.take_left, String.toList_ofList]

section

variable {s : Cursor} {t : Token} {blanks rest : List Char}

/-- The lexeme of a token has a first character. -/
theorem Leads.exists_cons (h : s.Leads t blanks rest) : ∃ c cs, t.lexeme.toList = c :: cs :=
  List.exists_cons_of_ne_nil (Token.front_token_ne_nil h.front_eq h.kind_ne)

/-- What comes after the first token can be replaced by anything that does not carry it on. -/
theorem Leads.reads (h : s.Leads t blanks rest) {rest' : List Char}
    (hends : Token.EndsAlike rest rest') :
    Reads ⟨blanks ++ (t.lexeme.toList ++ rest'), s.position⟩ [t]
      ⟨rest', t.position.advanceBy t.lexeme.toList⟩ := by
  have hfront := hends h.kind_ne h.front_eq
  have hstart : Ends isBlank (t.lexeme.toList ++ rest') := by
    obtain ⟨c, cs, hlexeme⟩ := h.exists_cons
    have hc := h.ends c (by rw [hlexeme]; rfl)
    rw [hlexeme]
    exact Ends.cons hc _
  have hskip := Reads.blanks h.blank (t.lexeme.toList ++ rest') s.position
  have hread := Reads.lexeme hfront h.kind_ne hstart (s.position.advanceBy blanks)
  rw [← h.position_eq] at hskip hread
  rw [String.ofList_toList] at hread
  exact hskip.append hread

end

/-- Tokens in front of a stream stand in the front of the text. What comes after them can be
replaced by anything that does not carry the last of them on. -/
theorem exists_reads {s : Cursor} {ts : List Token} {after : Token.Stream}
    (h : s.stream = ts.foldr .next after) :
    ∃ read rest, s.rest = read ++ rest ∧
      after = (⟨rest, s.position.advanceBy read⟩ : Cursor).stream ∧
      ∀ rest' : List Char, Token.EndsAlike rest rest' →
        Reads ⟨read ++ rest', s.position⟩ ts ⟨rest', s.position.advanceBy read⟩ := by
  -- by induction on the tokens, each with the blanks in front of it
  induction ts generalizing s with
  | nil => exact ⟨[], s.rest, rfl, h.symm, fun rest' _ => .nil _⟩
  | cons t ts ih =>
    obtain ⟨blanks, tail, hleads, htail⟩ := exists_leads h
    obtain ⟨read, rest, rfl, hafter, hreplace⟩ := ih htail.symm
    have hstop : s.position.advanceBy (blanks ++ (t.lexeme.toList ++ read)) =
        (t.position.advanceBy t.lexeme.toList).advanceBy read := by
      rw [Position.advanceBy_append, Position.advanceBy_append, hleads.position_eq]
    refine ⟨blanks ++ (t.lexeme.toList ++ read), rest, by simp [hleads.text_eq],
      hstop ▸ hafter, ?_⟩
    intro rest' hends
    rw [hstop, List.append_assoc, List.append_assoc]
    exact (hleads.reads (hends.append_left read)).append (hreplace rest' hends)

/-- A token stands in the text where its position says. The text from the token on can be replaced
by anything that does not carry on what is in front of it. -/
theorem exists_leads_at {s : Cursor} {ts : List Token} {t : Token} {after : Token.Stream}
    (h : s.stream = ts.foldr .next (.next t after)) :
    ∃ before rest, s.rest = before ++ (t.lexeme.toList ++ rest) ∧
      t.position = s.position.advanceBy before ∧
      Leads ⟨t.lexeme.toList ++ rest, t.position⟩ t [] rest ∧
      ∀ cs : List Char, Token.EndsAlike (t.lexeme.toList ++ rest) cs →
        Reads ⟨before ++ cs, s.position⟩ ts ⟨cs, t.position⟩ := by
  obtain ⟨read, tail, htext, hafter, hreplace⟩ := exists_reads h
  obtain ⟨blanks, rest, hleads, -⟩ := exists_leads hafter.symm
  -- the first of the tokens that follow stands behind blanks of its own
  have htail : tail = blanks ++ (t.lexeme.toList ++ rest) := hleads.text_eq
  have hposition : t.position = (s.position.advanceBy read).advanceBy blanks := hleads.position_eq
  refine ⟨read ++ blanks, rest, ?_, ?_, ?_, fun cs hends => ?_⟩
  · rw [htext, htail, List.append_assoc]
  · rw [hposition, Position.advanceBy_append]
  · exact ⟨by simp [AllBlank], rfl, rfl, hleads.ends, hleads.front_eq, hleads.kind_ne⟩
  · have hread := hreplace (blanks ++ cs) (htail ▸ hends.append_left blanks)
    have hskip := Reads.blanks hleads.blank cs (s.position.advanceBy read)
    rw [← hposition] at hskip
    rw [List.append_assoc, ← List.append_nil ts]
    exact hread.append hskip

/-- What comes after a token can be replaced by a blank and any other text. -/
theorem exists_replace {s : Cursor} {ts : List Token} {t : Token} {after : Token.Stream}
    (h : s.stream = ts.foldr .next (.next t after)) :
    ∃ before rest, s.rest = before ++ (t.lexeme.toList ++ rest) ∧
      t.position = s.position.advanceBy before ∧
      ∀ (blank : Char) (other : List Char), isBlank blank = true →
        (⟨before ++ (t.lexeme.toList ++ blank :: other), s.position⟩ : Cursor).stream =
          ts.foldr .next (.next t
            (⟨blank :: other, t.position.advanceBy t.lexeme.toList⟩ : Cursor).stream) := by
  obtain ⟨before, rest, htext, hposition, hleads, hreads⟩ := exists_leads_at h
  refine ⟨before, rest, htext, hposition, fun blank other hblank => ?_⟩
  -- a blank carries nothing on, so the last lexeme ends there as well
  have hends : Token.EndsAlike rest (blank :: other) := by
    refine Token.endsAlike_of_head? fun c hc => ?_
    cases hc
    rw [← Bool.not_eq_true]
    exact .inr fun hcarries => ne_of_class hblank (isBlank_of_carriesOn hcarries) rfl
  have hread := hreads (t.lexeme.toList ++ blank :: other) <|
    Token.endsAlike_of_head? fun c hc => .inl (by
      obtain ⟨d, ds, hlexeme⟩ := hleads.exists_cons
      rwa [hlexeme] at hc ⊢)
  exact (hread.append (hleads.reads hends)).trans List.foldr_append

end Cursor

end MetadataFilter
