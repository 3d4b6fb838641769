import MetadataFilter.Proofs.Render.Cypher
import MetadataFilter.Proofs.Render.Sql

/-!
# Names of columns and variables

The name of a column in SQL and that of a variable in Cypher stand bare where they are plain words
that are not reserved, and between quotes otherwise. Either way they are read back. Reserved words
are found by halving a table, which neither misses a word nor finds another one.

## Key results

- `Text.bareIf_ite`: a name is written in one of two ways, which differ
- `Sql.isPlainName_iff`, `Cypher.isBare_iff`: which names stand bare
- `Sql.readName_identifier`, `Cypher.readName_variableName`: names are read back
- `Text.WordTable.lists_toList`: what is found in a table
- `names_quoted_reversibly`: all of this for any name
-/

namespace MetadataFilter

open Reading Text

namespace Text

/-! ### Two ways to write a name -/

/-- Doubling makes no text shorter. -/
theorem length_le_double (delimiter : Char) (cs : List Char) :
    cs.length ≤ (double delimiter cs).length := by
  induction cs with
  | nil => exact Nat.le_refl _
  | cons c cs ih =>
    have hdouble : double delimiter (c :: cs) =
        (if c = delimiter then [c, c] else [c]) ++ double delimiter cs := by simp [double]
    rw [hdouble]
    split <;> simp <;> omega

/-- A text between delimiters is longer than the text. -/
theorem quoteDoubled_ne (delimiter : Char) (s : String) : quoteDoubled delimiter s ≠ s := by
  intro h
  have hlength := congrArg (fun t => t.toList.length) h
  have hle := length_le_double delimiter s.toList
  simp only [toList_quoteDoubled, List.length_cons, List.length_append, List.length_nil] at hlength
  omega

/-- `BareIf plain delimiter name text`: what is written for the name is the name itself if and only
if `plain` holds, and the name between delimiters otherwise. -/
structure BareIf (plain : Prop) (delimiter : Char) (name text : String) : Prop where
  bare_iff : text = name ↔ plain
  quoted : ¬ plain → text = quoteDoubled delimiter name

/-- A name is written bare under the condition that a test decides. -/
theorem bareIf_ite {isPlain : Bool} {plain : Prop} (h : isPlain = true ↔ plain) (delimiter : Char)
    (name : String) :
    BareIf plain delimiter name (if isPlain then name else quoteDoubled delimiter name) := by
  cases isPlain with
  | false =>
    have hplain : ¬ plain := fun hplain => Bool.false_ne_true (h.2 hplain)
    exact ⟨iff_of_false (quoteDoubled_ne delimiter name) hplain, fun _ => rfl⟩
  | true => exact ⟨iff_of_true rfl (h.1 rfl), fun hplain => absurd (h.1 rfl) hplain⟩

/-! ### Classes of characters -/

/-- A letter from a to z. -/
def IsLower (c : Char) : Prop := 'a' ≤ c ∧ c ≤ 'z'

/-- A letter from A to Z. -/
def IsUpper (c : Char) : Prop := 'A' ≤ c ∧ c ≤ 'Z'

/-- A digit from 0 to 9. -/
def IsDigit (c : Char) : Prop := '0' ≤ c ∧ c ≤ '9'

/-- The letters in lower case are those from a to z. -/
theorem isLower_iff {c : Char} : c.isLower = true ↔ IsLower c :=
  Bool.and_eq_true_iff.trans (and_congr decide_eq_true_iff decide_eq_true_iff)

/-- The letters in upper case are those from A to Z. -/
theorem isUpper_iff {c : Char} : c.isUpper = true ↔ IsUpper c := decide_eq_true_iff

/-- The letters are those of the two cases. -/
theorem isAlpha_iff {c : Char} : c.isAlpha = true ↔ IsUpper c ∨ IsLower c :=
  Bool.or_eq_true_iff.trans (or_congr isUpper_iff isLower_iff)

/-- The digits are those from 0 to 9. -/
theorem isDigit_iff {c : Char} : c.isDigit = true ↔ IsDigit c :=
  Bool.and_eq_true_iff.trans (and_congr decide_eq_true_iff decide_eq_true_iff)

/-- A text of a first character that `start` holds of and others that `more` holds of. -/
def IsRun (start more : Char → Prop) (s : String) : Prop :=
  ∃ c cs, s.toList = c :: cs ∧ start c ∧ ∀ d ∈ cs, more d

/-! ### Tables -/

/-- The table finds the words of a list, each at its place, and no others. -/
structure WordTable.Lists (t : WordTable) (words : List String) : Prop where
  contains_iff : ∀ word, t.contains word = true ↔ word ∈ words
  find?_iff : ∀ word i, t.find? word = some i ↔ words[i]? = some word

/-- A table lists its own words. -/
theorem WordTable.lists_toList (t : WordTable) : t.Lists t.words.toList where
  contains_iff word := by rw [t.contains_eq_mem, decide_eq_true_iff, Array.mem_toList_iff]
  find?_iff word i := by rw [t.find?_eq_some_iff, Array.getElem?_toList]

end Text

/-! ### Columns -/

namespace Sql

/-- A letter in lower case or an underscore, then letters in lower case, digits and underscores. -/
def IsLowerName : String → Prop :=
  IsRun (fun c => IsLower c ∨ c = '_') fun c => IsLower c ∨ c = '_' ∨ IsDigit c

/-- The names that stand bare in SQL are in lower case and not reserved. -/
theorem isPlainName_iff {name : String} :
    isPlainName name = true ↔ IsLowerName name ∧ name ∉ reservedWords := by
  unfold isPlainName IsLowerName IsRun
  cases name.toList with
  | nil => simp
  | cons c cs =>
    simp [isNameStart, isLower_iff, isDigit_iff, contains_reservedTable, or_assoc, and_assoc]

/-- The name that lexemes are: what stands between double quotes, or a word that is not reserved. -/
def name? : List Lexeme → Option String
  | [.name name] => some name
  | [.word w] => if w ∈ reservedWords then none else some w
  | _ => none

/-- The name that a text is. Words have been folded to lower case, and a quote that is written twice
between quotes stands for one. -/
def readName (s : String) : Option String := (scan front s.toList).bind name?

/-- A column is read back from what is written for it. -/
theorem readName_identifier (name : String) : readName (identifier name) = some name := by
  unfold readName identifier
  split
  · next hplain =>
    obtain ⟨hword, hlower, hreserved⟩ := isWord_of_isPlainName hplain
    rw [(scans_word hword).scan_eq, hlower, String.ofList_toList]
    exact if_neg hreserved
  · rw [(scans_quotedName name).scan_eq]
    rfl

end Sql

/-! ### Variables -/

namespace Cypher

/-- A letter or an underscore, then letters, digits and underscores. -/
def IsName : String → Prop :=
  IsRun (fun c => IsUpper c ∨ IsLower c ∨ c = '_') fun c =>
    IsUpper c ∨ IsLower c ∨ IsDigit c ∨ c = '_'

/-- The names that stand bare in Cypher are words that are not reserved in any case. -/
theorem isBare_iff {name : String} :
    (Token.isWord name && !reservedTable.contains (name.map Char.toUpper)) = true ↔
      IsName name ∧ name.map Char.toUpper ∉ reservedWords := by
  have hword : Token.isWord name = true ↔ IsName name := by
    unfold Token.isWord IsName IsRun
    cases name.toList with
    | nil => simp
    | cons c cs =>
      simp [Token.isWordStart, Token.isWordChar, Char.isAlphanum, isAlpha_iff, isDigit_iff,
        or_assoc]
  rw [Bool.and_eq_true, hword, contains_reservedTable, Bool.not_eq_true', decide_eq_false_iff_not]

/-- The name that lexemes are: what stands between back-ticks, or a word that is no keyword in any
case. -/
def name? : List Lexeme → Option String
  | [.name name] => some name
  | [.word w] => if keyword w ∈ reservedWords then none else some w
  | _ => none

/-- The name that a text is. A back-tick that is written twice between back-ticks stands for one. -/
def readName (s : String) : Option String := (scan front s.toList).bind name?

/-- A variable is read back from what is written for it. -/
theorem readName_variableName (name : String) : readName (variableName name) = some name := by
  unfold readName variableName
  split
  · next hbare =>
    -- a bare name would be read as a keyword if it were reserved
    obtain ⟨hword, hreserved⟩ := Bool.and_eq_true_iff.1 hbare
    rw [Bool.not_eq_true', contains_reservedTable, decide_eq_false_iff_not, ← keyword_eq_map]
      at hreserved
    rw [(scans_word hword).scan_eq]
    exact if_neg hreserved
  · rw [(scans_name name).scan_eq]
    rfl

end Cypher

/-- The names of columns and variables are read back. They stand bare exactly if they have the shape
of a name, in SQL of one in lower case, and are not reserved, in Cypher in no case; all others stand
between quotes. The table of the reserved words finds these words and no others. -/
theorem names_quoted_reversibly (name : String) :
    (Sql.readName (Sql.identifier name) = some name ∧
      BareIf (Sql.IsLowerName name ∧ name ∉ Sql.reservedWords) '\x22' name
        (Sql.identifier name)) ∧
    (Cypher.readName (Cypher.variableName name) = some name ∧
      BareIf (Cypher.IsName name ∧ name.map Char.toUpper ∉ Cypher.reservedWords) '\x60' name
        (Cypher.variableName name)) ∧
    Sql.reservedTable.Lists Sql.reservedWords ∧ Cypher.reservedTable.Lists Cypher.reservedWords :=
  ⟨⟨Sql.readName_identifier name, bareIf_ite Sql.isPlainName_iff _ name⟩,
    ⟨Cypher.readName_variableName name, bareIf_ite Cypher.isBare_iff _ name⟩,
    Sql.reservedTable.lists_toList, Cypher.reservedTable.lists_toList⟩

/-- A name with capitals is quoted in SQL and a keyword in any case is quoted in Cypher. -/
example : Sql.identifier "Order\x22s" = "\x22Order\x22\x22s\x22" ∧
    Cypher.variableName "Match" = "\x60Match\x60" ∧ Cypher.variableName "Order1" = "Order1" := by
  decide +kernel

end MetadataFilter
