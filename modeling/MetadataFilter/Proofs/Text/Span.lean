import MetadataFilter.Token.Lexer

/-!
# Runs of characters at the front of a text

Words and numbers are the longest runs of their characters. A run that has been written is read back
whole if what follows it does not carry it on, which `Ends` says.

## Key results

- `Ends.takeWhile_append`, `Ends.dropWhile_append`: a run is read back whole
- `isBlank_of_isWordStart`, `isBlank_of_isDigit`: words and numbers do not start with a blank
-/

namespace MetadataFilter.Text

/-- What follows does not start with a character of the class `p`. -/
def Ends (p : Char → Bool) (rest : List Char) : Prop := ∀ c ∈ rest.head?, p c = false

/-- The end of the text ends every run. -/
theorem Ends.nil (p : Char → Bool) : Ends p [] := by simp [Ends]

/-- A character outside of the class ends a run. -/
theorem Ends.cons {p : Char → Bool} {c : Char} (h : p c = false) (rest : List Char) :
    Ends p (c :: rest) := by
  simpa [Ends] using h

/-- What ends a run has nothing that carries it on. -/
theorem Ends.takeWhile {p : Char → Bool} {rest : List Char} (hrest : Ends p rest) :
    rest.takeWhile p = [] := by
  cases rest with
  | nil => rfl
  | cons c rest => simp [hrest c rfl]

/-- Where no character is taken the run has ended. -/
theorem ends_of_takeWhile {p : Char → Bool} {rest : List Char} (h : rest.takeWhile p = []) :
    Ends p rest := by
  intro c hc
  obtain ⟨tail, rfl⟩ := List.head?_eq_some_iff.1 hc
  rw [Bool.eq_false_iff]
  intro hp
  simp [hp] at h

/-- A run is taken whole, up to what ends it. -/
theorem Ends.takeWhile_append {p : Char → Bool} {cs rest : List Char} (hrest : Ends p rest)
    (hcs : ∀ c ∈ cs, p c = true) : (cs ++ rest).takeWhile p = cs := by
  rw [List.takeWhile_append_of_pos hcs, hrest.takeWhile, List.append_nil]

/-- What ends a run is left when the run has been taken. -/
theorem Ends.dropWhile_append {p : Char → Bool} {cs rest : List Char} (hrest : Ends p rest)
    (hcs : ∀ c ∈ cs, p c = true) : (cs ++ rest).dropWhile p = rest := by
  rw [List.dropWhile_append_of_pos hcs]
  cases rest with
  | nil => rfl
  | cons c rest => simp [hrest c rfl]

/-- A run goes up to what does not carry it on. -/
theorem Ends.dropWhile (p : Char → Bool) (cs : List Char) : Ends p (cs.dropWhile p) := by
  intro c hc
  have hnot := List.head?_dropWhile_not p cs
  rw [Option.mem_def] at hc
  rw [hc] at hnot
  exact hnot

/-! ### Classes of characters -/

/-- No blank lies between the space and the end of ASCII. -/
theorem toNat_of_isBlank {c : Char} (h : isBlank c = true) : c.toNat ≤ 0x20 ∨ 0x85 ≤ c.toNat := by
  simp only [isBlank, blankRanges, List.any_cons, List.any_nil, Bool.or_eq_true, Bool.and_eq_true,
    decide_eq_true_eq, Bool.or_false] at h
  omega

/-- The codes of letters in upper case. -/
theorem toNat_of_isUpper {c : Char} (h : c.isUpper = true) : 65 ≤ c.toNat ∧ c.toNat ≤ 90 := by
  have h : 'A'.val ≤ c.val ∧ c.val ≤ 'Z'.val := of_decide_eq_true h
  exact ⟨UInt32.le_iff_toNat_le.1 h.1, UInt32.le_iff_toNat_le.1 h.2⟩

/-- The codes of letters in lower case. -/
theorem toNat_of_isLower {c : Char} (h : c.isLower = true) : 97 ≤ c.toNat ∧ c.toNat ≤ 122 := by
  obtain ⟨h1, h2⟩ := Bool.and_eq_true_iff.1 h
  have h1 : 'a'.val ≤ c.val := of_decide_eq_true h1
  have h2 : c.val ≤ 'z'.val := of_decide_eq_true h2
  exact ⟨UInt32.le_iff_toNat_le.1 h1, UInt32.le_iff_toNat_le.1 h2⟩

/-- Only letters in upper case have another lower case. -/
theorem toLower_of_isUpper_eq_false {c : Char} (h : c.isUpper = false) : c.toLower = c :=
  dif_neg (of_decide_eq_false h)

/-- The codes of letters are between those of A and z. -/
theorem toNat_of_isAlpha {c : Char} (h : c.isAlpha = true) : 65 ≤ c.toNat ∧ c.toNat ≤ 122 := by
  rcases Bool.or_eq_true_iff.1 h with h | h
  · have := toNat_of_isUpper h
    omega
  · have := toNat_of_isLower h
    omega

/-- The codes of digits. -/
theorem toNat_of_isDigit {c : Char} (h : c.isDigit = true) : 48 ≤ c.toNat ∧ c.toNat ≤ 57 :=
  Char.isDigit_iff_toNat.1 h

/-- A digit is no blank. -/
theorem isBlank_of_isDigit {c : Char} (h : c.isDigit = true) : isBlank c = false := by
  have hd := toNat_of_isDigit h
  rw [Bool.eq_false_iff]
  intro hb
  have := toNat_of_isBlank hb
  omega

/-- The first character of a word is no blank. -/
theorem isBlank_of_isWordStart {c : Char} (h : Token.isWordStart c = true) :
    isBlank c = false := by
  rw [Token.isWordStart, Bool.or_eq_true] at h
  rcases h with h | h
  · have ha := toNat_of_isAlpha h
    rw [Bool.eq_false_iff]
    intro hb
    have := toNat_of_isBlank hb
    omega
  · rw [beq_iff_eq.1 h]
    decide

/-- The first character of a word is no digit. -/
theorem isDigit_of_isWordStart {c : Char} (h : Token.isWordStart c = true) :
    c.isDigit = false := by
  rw [Token.isWordStart, Bool.or_eq_true] at h
  rcases h with h | h
  · have ha := toNat_of_isAlpha h
    rw [Bool.eq_false_iff]
    intro hd
    have := toNat_of_isDigit hd
    omega
  · rw [beq_iff_eq.1 h]
    decide

/-- A digit starts no word. -/
theorem not_isWordStart_of_isDigit {c : Char} (h : c.isDigit = true) :
    ¬ Token.isWordStart c = true := by
  intro hword
  rw [isDigit_of_isWordStart hword] at h
  cases h

/-- What starts a word may also stand in it. -/
theorem isWordChar_of_isWordStart {c : Char} (h : Token.isWordStart c = true) :
    Token.isWordChar c = true := by
  simp only [Token.isWordStart, Token.isWordChar, Char.isAlphanum, Bool.or_eq_true] at h ⊢
  rcases h with h | h
  · exact .inl (.inl h)
  · exact .inr h

/-- Characters of a class are not those outside of it. -/
theorem ne_of_class {p : Char → Bool} {c d : Char} (hc : p c = true) (hd : p d = false) :
    c ≠ d := by
  rintro rfl
  rw [hd] at hc
  cases hc

/-- What is no blank is no space between words either. -/
theorem isWhitespace_of_isBlank {c : Char} (h : isBlank c = false) : c.isWhitespace = false := by
  rw [Bool.eq_false_iff]
  intro hspace
  rw [isBlank_of_isWhitespace hspace] at h
  cases h

/-- A word is a first character and the run of characters after it. -/
theorem isWord_iff {text : String} : Token.isWord text = true ↔
    ∃ c cs, text.toList = c :: cs ∧ Token.isWordStart c = true ∧
      ∀ d ∈ c :: cs, Token.isWordChar d = true := by
  unfold Token.isWord
  cases htext : text.toList with
  | nil => simp
  | cons c cs =>
    simp only [Bool.and_eq_true, List.all_eq_true]
    -- the first character is one of those that may stand in a word
    constructor
    · intro h
      obtain ⟨hc, hcs⟩ := h
      refine ⟨c, cs, rfl, hc, ?_⟩
      intro d hd
      rcases List.mem_cons.1 hd with rfl | hd
      · exact isWordChar_of_isWordStart hc
      · exact hcs d hd
    · intro h
      obtain ⟨c, cs, ⟨⟩, hc, hcs⟩ := h
      exact ⟨hc, fun d hd => hcs d (by simp [hd])⟩

/-- Only the characters of words stand in words. -/
theorem notMem_of_isWord {text : String} (h : Token.isWord text = true) {c : Char}
    (hc : Token.isWordChar c = false) : c ∉ text.toList := by
  obtain ⟨first, cs, htext, -, hchars⟩ := isWord_iff.1 h
  rw [htext]
  intro hmem
  rw [hchars c hmem] at hc
  cases hc

end MetadataFilter.Text
