import MetadataFilter.Proofs.Grammar
import MetadataFilter.Proofs.Token.Stream

/-!
# Strings in a row

A text value is written as one string or as several in a row. It is what the strings stand for, one
after the other, with a delimiter between two of them if they touch and start with the same one. So
writing a delimiter twice, and a backslash twice, puts any text without line breaks between
delimiters, in as many strings as that takes.

## Key results

- `StringRun.exists_reads`: the strings of a run are read in front of anything
- `exists_run_double`: a text with its delimiters and backslashes doubled is a run that stands for it
-/

namespace MetadataFilter

open Text

/-- A string as it is written: its delimiter, and what stands between it and the closing one. -/
structure StringLiteral where
  delimiter : Char
  body : List Char
  isDelimiter : Token.isDelimiter delimiter = true
  inner : Token.StringBody delimiter body

namespace StringLiteral

/-- The characters of a string, with its delimiters. -/
def text (l : StringLiteral) : List Char := l.delimiter :: (l.body ++ [l.delimiter])

/-- What a string stands for on its own. -/
def meaning (l : StringLiteral) : List Char := unescape l.delimiter l.body

/-- A string as a token. -/
def token (l : StringLiteral) (p : Position) : Token := ⟨.quotedString, String.ofList l.text, p⟩

/-- What stands between the delimiters of a string is unescaped. -/
theorem unquote_text (l : StringLiteral) : unquote l.text = l.meaning := by
  rw [text, unquote, List.dropLast_concat]
  rfl

/-- A string is read in front of anything. -/
theorem reads (l : StringLiteral) (rest : List Char) (p : Position) :
    Cursor.Reads ⟨l.text ++ rest, p⟩ [l.token p] ⟨rest, p.advanceBy l.text⟩ := by
  have hstart : isBlank l.delimiter = false := by
    rcases Token.eq_of_isDelimiter l.isDelimiter with h | h <;> rw [h] <;> decide
  exact Cursor.Reads.lexeme (Token.front_string l.isDelimiter l.inner rest) (by simp)
    (Ends.cons hstart _) p

end StringLiteral

/-- A string with blanks in front of it, or with none. -/
structure SpacedString where
  blanks : List Char
  blank : AllBlank blanks
  literal : StringLiteral

/-- Strings in a row. -/
structure StringRun where
  first : StringLiteral
  others : List SpacedString

namespace StringRun

/-- The characters of the strings after the first one, with the blanks. -/
def textOf (others : List SpacedString) : List Char :=
  others.flatMap fun s => s.blanks ++ s.literal.text

/-- What the strings after one with the delimiter stand for. Those that touch and start with the
same delimiter have it between them. -/
def meaningOf (delimiter : Char) : List SpacedString → List Char
  | [] => []
  | s :: others =>
    (if s.blanks = [] ∧ s.literal.delimiter = delimiter then [delimiter] else []) ++
      s.literal.meaning ++ meaningOf s.literal.delimiter others

/-- The characters of a run. -/
def text (run : StringRun) : String := String.ofList (run.first.text ++ textOf run.others)

/-- What a run stands for. -/
def meaning (run : StringRun) : String :=
  String.ofList (run.first.meaning ++ meaningOf run.first.delimiter run.others)

/-! ### Reading a run -/

/-- Two strings have a delimiter between them if nothing is between their tokens and they start with
the same delimiter. -/
theorem seam_token (l : StringLiteral) (s : SpacedString) (p : Position) :
    Expr.Parser.seam (l.token p)
        (s.literal.token ((p.advanceBy l.text).advanceBy s.blanks)) =
      if s.blanks = [] ∧ s.literal.delimiter = l.delimiter then [l.delimiter] else [] := by
  -- strings touch if no blank stands between them, as every character takes up a byte
  have htouch : p.offset + (String.ofList l.text).utf8ByteSize =
      ((p.advanceBy l.text).advanceBy s.blanks).offset ↔ s.blanks = [] := by
    rw [Position.offset_advanceBy, Position.offset_advanceBy, Nat.left_eq_add]
    cases hblanks : s.blanks with
    | nil => simp
    | cons c cs =>
      have hpos := c.utf8Size_pos
      simp
      omega
  have hhead : s.literal.text.head? = some l.delimiter ↔
      s.literal.delimiter = l.delimiter := by
    simp [StringLiteral.text]
  unfold Expr.Parser.seam StringLiteral.token
  simp only [String.toList_ofList, StringLiteral.text] at htouch hhead ⊢
  simp only [htouch, hhead]

/-- The strings of a run after its first one are read in front of anything. -/
theorem exists_reads_others (others : List SpacedString) (first : StringLiteral)
    (rest : List Char) (p : Position) :
    ∃ ts : List Token, (∀ t ∈ ts, t.kind = .quotedString) ∧
      Cursor.Reads ⟨textOf others ++ rest, p.advanceBy first.text⟩ ts
        ⟨rest, (p.advanceBy first.text).advanceBy (textOf others)⟩ ∧
      Grammar.joined (first.token p) ts = meaningOf first.delimiter others := by
  -- by induction on the strings, where `first` is the one in front of them
  induction others generalizing first p with
  | nil => exact ⟨[], by simp, .nil _, rfl⟩
  | cons s others ih =>
    -- the next string stands behind the blanks, and is the first one of what is left
    let q := (p.advanceBy first.text).advanceBy s.blanks
    obtain ⟨ts, hts, hread, hjoined⟩ := ih s.literal q
    refine ⟨s.literal.token q :: ts, ?_, ?_, ?_⟩
    · intro t ht
      rcases List.mem_cons.1 ht with rfl | ht
      · rfl
      · exact hts t ht
    · have htext : textOf (s :: others) ++ rest =
          s.blanks ++ (s.literal.text ++ (textOf others ++ rest)) := by
        simp [textOf]
      have hplace : (p.advanceBy first.text).advanceBy (textOf (s :: others)) =
          (q.advanceBy s.literal.text).advanceBy (textOf others) := by
        simp [textOf, q, Position.advanceBy_append]
      rw [htext, hplace]
      exact (Cursor.Reads.blanks s.blank _ _).append ((s.literal.reads _ q).append hread)
    · rw [Grammar.joined, seam_token, hjoined, meaningOf]
      show _ ++ unquote (String.ofList s.literal.text).toList ++ _ = _
      rw [String.toList_ofList, StringLiteral.unquote_text]

/-- The strings of a run are read in front of anything, and stand for what the run does. -/
theorem exists_reads (run : StringRun) (rest : List Char) (p : Position) :
    ∃ ts : List Token,
      Cursor.Reads ⟨run.text.toList ++ rest, p⟩ (run.first.token p :: ts)
        ⟨rest, p.advanceBy run.text.toList⟩ ∧
      Grammar.Literal (run.first.token p :: ts) (.text run.meaning) := by
  obtain ⟨ts, hts, hread, hjoined⟩ := exists_reads_others run.others run.first rest p
  refine ⟨ts, ?_, ?_⟩
  · rw [text, String.toList_ofList, List.append_assoc, Position.advanceBy_append]
    exact (run.first.reads _ p).append hread
  · have hstrings := Grammar.Literal.strings (t := run.first.token p) rfl hts
    rw [hjoined] at hstrings
    rw [meaning, ← StringLiteral.unquote_text, ← String.toList_ofList (l := run.first.text)]
    exact hstrings

/-! ### Delimiters that are written twice -/

/-- An empty string in front of a run that it touches stands for one delimiter. -/
def withDelimiter (run : StringRun) : StringRun where
  first := ⟨run.first.delimiter, [], run.first.isDelimiter, .nil⟩
  others := ⟨[], by simp [AllBlank], run.first⟩ :: run.others

/-- A run with more characters at the start of its first string. -/
def withFront (run : StringRun) (front : List Char)
    (inner : Token.StringBody run.first.delimiter (front ++ run.first.body)) : StringRun where
  first := ⟨run.first.delimiter, front ++ run.first.body, run.first.isDelimiter, inner⟩
  others := run.others

/-- The run is how `cs` is written between delimiters, with delimiters and backslashes doubled. -/
structure Doubles (run : StringRun) (delimiter : Char) (cs : List Char) : Prop where
  delimiter_eq : run.first.delimiter = delimiter
  text_eq : run.first.body ++ [delimiter] ++ textOf run.others =
    double delimiter (double '\\' cs) ++ [delimiter]
  meaning_eq : run.first.meaning ++ meaningOf delimiter run.others = cs

/-- Characters are doubled one by one. -/
theorem double_double_cons (delimiter c : Char) (cs : List Char) :
    double delimiter (double '\\' (c :: cs)) =
      double delimiter (double '\\' [c]) ++ double delimiter (double '\\' cs) := by
  simp [double]

/-- A backslash is no delimiter. -/
theorem ne_slash_of_isDelimiter {c : Char} (h : Token.isDelimiter c = true) : c ≠ '\\' :=
  ne_of_class h (by decide)

/-- A delimiter is written twice, and ends the string that it is in. -/
theorem Doubles.withDelimiter {run : StringRun} {delimiter : Char} {cs : List Char}
    (h : run.Doubles delimiter cs) : run.withDelimiter.Doubles delimiter (delimiter :: cs) := by
  obtain ⟨rfl, htext, hmeaning⟩ := h
  have hslash := ne_slash_of_isDelimiter run.first.isDelimiter
  have htwice : double run.first.delimiter (double '\\' [run.first.delimiter]) =
      [run.first.delimiter, run.first.delimiter] := by simp [double, hslash]
  refine ⟨rfl, ?_, ?_⟩
  · rw [double_double_cons, htwice, List.append_assoc [_, _], ← htext]
    simp [StringRun.withDelimiter, textOf, StringLiteral.text]
  · rw [← hmeaning]
    simp [StringRun.withDelimiter, meaningOf, StringLiteral.meaning, unescape]

/-- Any other character goes into the first string. -/
theorem Doubles.withFront {run : StringRun} {delimiter c : Char} {cs front : List Char}
    (h : run.Doubles delimiter cs)
    (inner : Token.StringBody run.first.delimiter (front ++ run.first.body))
    (htwice : double delimiter (double '\\' [c]) = front)
    (hunescape : unescape delimiter (front ++ run.first.body) =
      c :: unescape delimiter run.first.body) :
    (run.withFront front inner).Doubles delimiter (c :: cs) := by
  obtain ⟨rfl, htext, hmeaning⟩ := h
  refine ⟨rfl, ?_, ?_⟩
  · rw [double_double_cons, htwice, List.append_assoc front, ← htext]
    simp [StringRun.withFront]
  · rw [← hmeaning]
    show unescape run.first.delimiter (front ++ run.first.body) ++ meaningOf _ run.others = _
    rw [hunescape]
    rfl

/-- Every text without line breaks can be written with its delimiters and backslashes doubled. -/
theorem exists_doubles {delimiter : Char} (hd : Token.isDelimiter delimiter = true)
    {cs : List Char} (hcs : ∀ c ∈ cs, Token.isLineBreak c = false) :
    ∃ run : StringRun, run.Doubles delimiter cs := by
  -- by induction on the text: a delimiter starts a string of its own, any other character goes into
  -- the first one
  induction cs with
  | nil => exact ⟨⟨⟨delimiter, [], hd, .nil⟩, []⟩, rfl, rfl, rfl⟩
  | cons c cs ih =>
    obtain ⟨run, h⟩ := ih fun d hd => hcs d (List.mem_cons_of_mem c hd)
    have hbreak := hcs c List.mem_cons_self
    have hinner : Token.StringBody delimiter run.first.body := h.delimiter_eq ▸ run.first.inner
    by_cases hc : c = delimiter
    · subst hc
      exact ⟨_, h.withDelimiter⟩
    · by_cases hslash : c = '\\'
      -- two backslashes stand for one
      · subst hslash
        have hbody : Token.StringBody run.first.delimiter
            (['\\', '\\'] ++ run.first.body) := .escaped hbreak run.first.inner
        exact ⟨_, h.withFront hbody (by simp [double, hc]) (by simp [unescape])⟩
      · have hbody : Token.StringBody run.first.delimiter ([c] ++ run.first.body) :=
          .plain (by rwa [h.delimiter_eq]) hslash hbreak run.first.inner
        refine ⟨_, h.withFront hbody (by simp [double, hc, hslash]) ?_⟩
        rw [List.singleton_append, unescape]
        intro d ds hcons
        exact absurd hcons hslash

/-- A text without line breaks, with its delimiters and its backslashes written twice, is a run that
stands for the text. -/
theorem exists_run_double {delimiter : Char} (hd : Token.isDelimiter delimiter = true) {v : String}
    (hv : ∀ c ∈ v.toList, Token.isLineBreak c = false) :
    ∃ run : StringRun, run.meaning = v ∧
      run.text = quoteDoubled delimiter (String.ofList (double '\\' v.toList)) := by
  obtain ⟨run, rfl, htext, hmeaning⟩ := exists_doubles hd hv
  refine ⟨run, ?_, ?_⟩
  · rw [meaning, hmeaning, String.ofList_toList]
  · rw [text, quoteDoubled, String.toList_ofList, List.cons_append, ← htext]
    simp [StringLiteral.text]

end StringRun

end MetadataFilter
