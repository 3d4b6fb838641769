/-!
# Quoted text

Two ways to put a text between delimiters. With *escapes*, a backslash stands before a delimiter
or backslash of the text; reading keeps any other backslash. With *doubling*, a delimiter of the
text is written twice and nothing else is special.

Main statements:

* `unquote_quote`  reading what was written with escapes gives the text back
* `mem_double`     doubling adds no character
-/

namespace MetadataFilter.Text

/-- A backslash before every backslash and every delimiter. -/
def escape (delimiter : Char) : List Char → List Char
  | [] => []
  | c :: cs =>
    if c = '\\' ∨ c = delimiter then '\\' :: c :: escape delimiter cs
    else c :: escape delimiter cs

/-- Drops the backslash before every backslash and every delimiter; other backslashes stay. -/
def unescape (delimiter : Char) : List Char → List Char
  | '\\' :: c :: cs =>
    if c = '\\' ∨ c = delimiter then c :: unescape delimiter cs
    else '\\' :: c :: unescape delimiter cs
  | c :: cs => c :: unescape delimiter cs
  | [] => []

/-- A text between delimiters, with escapes. -/
def quote (delimiter : Char) (cs : List Char) : List Char :=
  delimiter :: escape delimiter cs ++ [delimiter]

/-- What stands between the delimiters of a text with escapes. -/
def unquote : List Char → List Char
  | [] => []
  | delimiter :: cs => unescape delimiter cs.dropLast

/-- Every delimiter written twice. -/
def double (delimiter : Char) (cs : List Char) : List Char :=
  cs.flatMap fun c => if c = delimiter then [c, c] else [c]

/-- A text between delimiters, with doubling. -/
def quoteDoubled (delimiter : Char) (s : String) : String :=
  String.ofList (delimiter :: double delimiter s.toList ++ [delimiter])

/-- Reading escapes undoes writing them. -/
theorem unescape_escape (delimiter : Char) (cs : List Char) :
    unescape delimiter (escape delimiter cs) = cs := by
  induction cs with
  | nil => rfl
  | cons c cs ih =>
    unfold escape
    split
    · next h => simp [unescape, h, ih]
    -- A plain character in front: an unescape that sees it looks for no backslash.
    · next h =>
      rw [not_or] at h
      rw [unescape, ih]
      simp [h.1]

/-- Reading what was written with escapes gives the text back. -/
theorem unquote_quote (delimiter : Char) (cs : List Char) :
    unquote (quote delimiter cs) = cs := by
  simp [unquote, quote, unescape_escape]

/-- Doubling adds no character and takes none away. -/
theorem mem_double {delimiter x : Char} {cs : List Char} : x ∈ double delimiter cs ↔ x ∈ cs := by
  unfold double
  rw [List.mem_flatMap]
  constructor
  · rintro ⟨c, hc, hx⟩
    split at hx <;> simp_all
  · intro h
    exact ⟨x, h, by split <;> simp⟩

end MetadataFilter.Text
