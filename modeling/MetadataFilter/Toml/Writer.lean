import MetadataFilter.Toml.Text

/-!
# Writing TOML strings and names

Of the ways to write a string the first that needs no escapes is taken: between quotes, between
apostrophes, between three quotes, between three apostrophes; if none will do, it is written with
escapes. Names are bare if they can be.

Main statements:

* `writeName_of_isBare`  a bare name is written as it is
-/

namespace MetadataFilter.Toml

/-- The length of the longest run of a character. -/
def longestRun (x : Char) (cs : List Char) : Nat :=
  (cs.foldl (fun (run, longest) c =>
    if c = x then (run + 1, max longest (run + 1)) else (0, longest)) (0, 0)).2

/-- A control character that can only be written as an escape. -/
def needsEscape (c : Char) : Bool := !isPrintable c && c != '\n'

/-- A digit of base sixteen in upper case. -/
def hexDigit (n : Nat) : Char := (Nat.digitChar n).toUpper

/-- The escape of a character, in the shortest form there is. -/
def escapeChar (c : Char) : List Char :=
  match c with
  | '\x08' => ['\\', 'b']
  | '\t' => ['\\', 't']
  | '\n' => ['\\', 'n']
  | '\x0c' => ['\\', 'f']
  | '\r' => ['\\', 'r']
  | '\x22' => ['\\', '\x22']
  | '\\' => ['\\', '\\']
  | c => ['\\', 'u', '0', '0', hexDigit (c.toNat / 16), hexDigit (c.toNat % 16)]

/-- A text with escapes. Up to `quotes` quotes in a row need none, nor do line breaks if the string
may stretch over lines; `run` counts the quotes so far. -/
def escape (lines : Bool) (quotes run : Nat) : List Char → List Char
  | [] => []
  | c :: cs =>
    if c = '\x22' then
      if run < quotes then c :: escape lines quotes (run + 1) cs
      else escapeChar c ++ escape lines quotes 0 cs
    else if c = '\n' ∧ lines then c :: escape lines quotes 0 cs
    else if c = '\\' ∨ c = '\t' ∨ c = '\n' ∨ needsEscape c then
      escapeChar c ++ escape lines quotes 0 cs
    else c :: escape lines quotes 0 cs

/-- A text between delimiters on one line. -/
def between (delimiter : Char) (cs : List Char) : List Char := delimiter :: cs ++ [delimiter]

/-- A text between three delimiters. A line break goes first if there are others, since the first
one does not count. -/
def betweenThree (delimiter : Char) (lines : Bool) (cs : List Char) : List Char :=
  let three := [delimiter, delimiter, delimiter]
  three ++ (if lines then ['\n'] else []) ++ cs ++ three

/-- A string. -/
def writeString (s : String) : String :=
  let cs := s.toList
  let control := cs.any needsEscape
  let lines := cs.contains '\n'
  let backslash := cs.contains '\\'
  let quotes := longestRun '\x22' cs
  let apostrophes := longestRun '\'' cs
  String.ofList <|
    if !control && !backslash && quotes == 0 && !lines then between '\x22' (escape false 0 0 cs)
    else if !control && apostrophes == 0 && !lines then between '\'' cs
    else if !control && !backslash && quotes ≤ 2 then
      betweenThree '\x22' lines (escape true 2 0 cs)
    else if !control && apostrophes ≤ 2 then betweenThree '\'' lines cs
    else if lines then betweenThree '\x22' lines (escape true 2 0 cs)
    else between '\x22' (escape false 0 0 cs)

/-- A name. -/
def writeName (s : String) : String :=
  let cs := s.toList
  let control := cs.any fun c => needsEscape c || c == '\n'
  if !cs.isEmpty && cs.all isBare then s
  else String.ofList <|
    if !control && !cs.contains '\\' && !cs.contains '\x22' then
      between '\x22' (escape false 0 0 cs)
    else if !control && !cs.contains '\'' then between '\'' cs
    else between '\x22' (escape false 0 0 cs)

/-- A name that can be bare is written as it is. -/
theorem writeName_of_isBare {s : String} (h : s.toList ≠ []) (hb : s.toList.all isBare) :
    writeName s = s := by
  simp [writeName, h, hb]

end MetadataFilter.Toml
