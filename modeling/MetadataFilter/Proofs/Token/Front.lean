import MetadataFilter.Proofs.Text.Span
import MetadataFilter.Text.Quoted
import MetadataFilter.Text.Digits

/-!
# Words, strings and numbers at the front of a text

What `Token.front` finds if a text starts with a word, a string or a number. Words and numbers go on
as far as their characters do, strings end with their delimiter.

## Key results

- `front_word_append`, `front_digits`, `numberFront_decimal`: words and numbers with what carries
  them on
- `closeString_of_body`, `body_of_closeString`: strings
- `front_word`, `front_quote`, `front_integer`, `front_decimal`: a written lexeme is found
-/

namespace MetadataFilter.Token

open Text

/-! ### Words -/

/-- The first character of a word decides that a word is looked for. -/
theorem front_of_isWordStart {c : Char} {rest : List Char} (h : isWordStart c = true) :
    front (c :: rest) = wordFront (c :: rest) := by
  have hdot : (c == '.') = false := by
    rw [beq_eq_false_iff_ne]
    rintro rfl
    exact absurd h (by decide)
  simp [front, isDigit_of_isWordStart h, hdot, h]

/-- A word is found with all the word characters after it. -/
theorem front_word_append {c : Char} {cs : List Char} (hc : isWordStart c = true)
    (hcs : ∀ d ∈ cs, isWordChar d = true) (rest : List Char) :
    front (c :: cs ++ rest) =
      .token (wordKind (String.ofList (c :: cs ++ rest.takeWhile isWordChar)))
        (c :: cs ++ rest.takeWhile isWordChar) := by
  have hall : ∀ d ∈ c :: cs, isWordChar d = true := by
    intro d hd
    rcases List.mem_cons.1 hd with rfl | hd
    · exact isWordChar_of_isWordStart hc
    · exact hcs d hd
  rw [List.cons_append, front_of_isWordStart hc, wordFront, ← List.cons_append,
    List.takeWhile_append_of_pos hall]

/-- A word is found in front of anything that does not carry it on. -/
theorem front_word {text : String} {rest : List Char} (h : isWord text = true)
    (hrest : Ends isWordChar rest) :
    front (text.toList ++ rest) = .token (wordKind text) text.toList := by
  obtain ⟨c, cs, htext, hc, hall⟩ := isWord_iff.1 h
  have hfront := front_word_append hc (fun d hd => hall d (List.mem_cons_of_mem c hd)) rest
  have hmore : rest.takeWhile isWordChar = [] := hrest.takeWhile
  rwa [hmore, List.append_nil, ← htext, String.ofList_toList] at hfront

/-! ### Strings -/

/-- What may stand between two delimiters: any characters but the delimiter, backslashes and line
breaks, and backslashes with any character after them that is no line break. -/
inductive StringBody (delimiter : Char) : List Char → Prop
  | nil : StringBody delimiter []
  | plain {c : Char} {cs : List Char} (not_delimiter : c ≠ delimiter) (not_slash : c ≠ '\\')
      (not_break : isLineBreak c = false) (rest : StringBody delimiter cs) :
      StringBody delimiter (c :: cs)
  | escaped {c : Char} {cs : List Char} (not_break : isLineBreak c = false)
      (rest : StringBody delimiter cs) : StringBody delimiter ('\\' :: c :: cs)

/-- There are two delimiters of strings. -/
theorem eq_of_isDelimiter {c : Char} (h : isDelimiter c = true) : c = '\'' ∨ c = '\x22' := by
  simpa [isDelimiter] using h

/-- No delimiter breaks a line. -/
theorem isLineBreak_of_isDelimiter {c : Char} (h : isDelimiter c = true) :
    isLineBreak c = false := by
  rcases eq_of_isDelimiter h with rfl | rfl <;> decide

/-- A class without line feed and carriage return has no line breaks. -/
theorem isLineBreak_of_class {p : Char → Bool} {c : Char} (hfeed : p '\n' = false)
    (hreturn : p '\r' = false) (hc : p c = true) : isLineBreak c = false := by
  simp [isLineBreak, ne_of_class hc hfeed, ne_of_class hc hreturn]

/-- What may stand between delimiters is found with the second one, whatever follows it. -/
theorem closeString_of_body {delimiter : Char} (hd : isDelimiter delimiter = true)
    {body : List Char} (h : StringBody delimiter body) (rest : List Char) :
    closeString delimiter (body ++ delimiter :: rest) = .ok (body ++ [delimiter]) := by
  induction h with
  | nil =>
    -- the delimiter itself is found at once
    have hbreak := isLineBreak_of_isDelimiter hd
    have hslash : delimiter ≠ '\\' := by rcases eq_of_isDelimiter hd with rfl | rfl <;> decide
    simp [closeString, hbreak, hslash]
  | plain not_delimiter not_slash not_break _ ih =>
    rw [List.cons_append, closeString]
    · simp [not_break, not_delimiter, ih]
    · intro heq
      exact absurd heq not_slash
    · intro d ds heq
      exact absurd heq not_slash
  | escaped not_break _ ih =>
    simp only [List.cons_append, closeString, not_break, ih, Bool.false_eq_true, if_false]

/-- What is found after a delimiter is what may stand between two of them. -/
theorem body_of_closeString {delimiter : Char} {cs taken : List Char}
    (h : closeString delimiter cs = .ok taken) :
    ∃ body, taken = body ++ [delimiter] ∧ StringBody delimiter body := by
  fun_induction closeString delimiter cs generalizing taken with
  | case1 => cases h
  | case2 => cases h
  | case3 => cases h
  -- a backslash and the character behind it are taken together
  | case4 c rest hc taken' hr ih =>
    cases h
    obtain ⟨body, rfl, hbody⟩ := ih hr
    exact ⟨'\\' :: c :: body, rfl, .escaped (Bool.eq_false_iff.2 hc) hbody⟩
  | case5 => cases h
  | case6 => cases h
  -- the delimiter ends the string
  | case7 c rest _ _ hc heq =>
    cases h
    exact ⟨[], by simp [beq_iff_eq.1 heq], .nil⟩
  | case8 c rest hlast hescape hc hne taken' hr ih =>
    cases h
    obtain ⟨body, rfl, hbody⟩ := ih hr
    -- a backslash would have been read with the character after it
    have hslash : c ≠ '\\' := by
      rintro rfl
      cases rest with
      | nil => exact hlast rfl rfl
      | cons d ds => exact hescape d ds rfl rfl
    exact ⟨c :: body, rfl, .plain (by simpa using hne) hslash (Bool.eq_false_iff.2 hc) hbody⟩
  | case9 => cases h

/-- No line break stands in a string. -/
theorem isLineBreak_of_body {delimiter : Char} {body : List Char}
    (h : StringBody delimiter body) : ∀ c ∈ body, isLineBreak c = false := by
  induction h with
  | nil => simp
  | plain _ _ not_break _ ih => simpa [not_break] using ih
  | escaped not_break _ ih =>
    have hslash : isLineBreak '\\' = false := by decide
    simpa [hslash, not_break] using ih

/-- With escapes, all characters but line breaks may stand in a string. -/
theorem stringBody_escape (delimiter : Char) {cs : List Char}
    (hcs : ∀ c ∈ cs, isLineBreak c = false) : StringBody delimiter (escape delimiter cs) := by
  induction cs with
  | nil => exact .nil
  | cons c cs ih =>
    have hc := hcs c (by simp)
    have ih := ih fun d hd => hcs d (by simp [hd])
    unfold escape
    split
    · exact .escaped hc ih
    · next hne =>
      rw [not_or] at hne
      exact .plain hne.2 hne.1 hc ih

/-- A string is found whatever follows it. -/
theorem front_string {delimiter : Char} (hd : isDelimiter delimiter = true) {body : List Char}
    (h : StringBody delimiter body) (rest : List Char) :
    front (delimiter :: (body ++ [delimiter]) ++ rest) =
      .token .quotedString (delimiter :: (body ++ [delimiter])) := by
  have hclose := closeString_of_body hd h rest
  have hfront : ∀ tail, front (delimiter :: tail) = stringFront delimiter tail := by
    intro tail
    rcases eq_of_isDelimiter hd with rfl | rfl <;> rfl
  simp [hfront, stringFront, hclose]

/-- A text that has been quoted is found. -/
theorem front_quote (delimiter : Char) (hd : isDelimiter delimiter = true) {cs : List Char}
    (hcs : ∀ c ∈ cs, isLineBreak c = false) (rest : List Char) :
    front (quote delimiter cs ++ rest) = .token .quotedString (quote delimiter cs) :=
  front_string hd (stringBody_escape delimiter hcs) rest

/-! ### Numbers -/

/-- Digits are found with what carries them on: more digits, or a point. -/
theorem front_digits {ds : List Char} (hne : ds ≠ []) (hds : ∀ d ∈ ds, d.isDigit = true)
    (rest : List Char) : front (ds ++ rest) = numberFront (ds ++ rest) := by
  obtain ⟨d, ds, rfl⟩ := List.exists_cons_of_ne_nil hne
  simp [front, hds d (by simp)]

/-- A point is found as a number if a digit comes after it. -/
theorem front_point {es : List Char} (hne : es ≠ []) (hes : ∀ d ∈ es, d.isDigit = true)
    (rest : List Char) : front ('.' :: (es ++ rest)) = numberFront ('.' :: (es ++ rest)) := by
  obtain ⟨d, es, rfl⟩ := List.exists_cons_of_ne_nil hne
  simp [front, hes d (by simp)]

/-- Digits around a point are found as a decimal, with all digits that follow. -/
theorem numberFront_decimal {ds es : List Char} (hds : ∀ d ∈ ds, d.isDigit = true)
    (hes : ∀ d ∈ es, d.isDigit = true) (rest : List Char) :
    numberFront (ds ++ '.' :: (es ++ rest)) =
      .token .decimal (ds ++ '.' :: (es ++ rest.takeWhile Char.isDigit)) := by
  have hpoint : Ends Char.isDigit ('.' :: (es ++ rest)) := Ends.cons (by decide) _
  unfold numberFront
  rw [hpoint.takeWhile_append hds, hpoint.dropWhile_append hds]
  simp only [List.takeWhile_append_of_pos hes]

/-- Digits are found as an integer if no point and no digit follows. -/
theorem front_integer {ds rest : List Char} (hne : ds ≠ []) (hds : ∀ c ∈ ds, c.isDigit = true)
    (hrest : Ends (fun c => c.isDigit || c == '.') rest) :
    front (ds ++ rest) = .token .integer ds := by
  have hdigits : Ends Char.isDigit rest := fun c hc => (Bool.or_eq_false_iff.1 (hrest c hc)).1
  rw [front_digits hne hds, numberFront, hdigits.takeWhile_append hds,
    hdigits.dropWhile_append hds]
  -- a point after the digits would make them a decimal
  split
  · next tail =>
    have := hrest '.' rfl
    simp at this
  · rfl

/-- Digits around a point are found as a decimal if no digit follows. -/
theorem front_decimal {whole fraction rest : List Char} (hne : whole ≠ [])
    (hwhole : ∀ c ∈ whole, c.isDigit = true) (hfraction : ∀ c ∈ fraction, c.isDigit = true)
    (hrest : Ends Char.isDigit rest) :
    front (whole ++ '.' :: fraction ++ rest) = .token .decimal (whole ++ '.' :: fraction) := by
  have hmore : rest.takeWhile Char.isDigit = [] := hrest.takeWhile
  rw [List.append_assoc, List.cons_append, front_digits hne hwhole,
    numberFront_decimal hwhole hfraction, hmore, List.append_nil]

end MetadataFilter.Token
