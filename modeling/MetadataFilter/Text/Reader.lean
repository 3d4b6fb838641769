/-!
# Reading from the front of a text

A reader takes a piece from the front of a text and gives what follows it, or fails.

Main statements:

* `expect_cons`  an expected character is taken
-/

namespace MetadataFilter.Text

/-- What is read from the front of a text, and the text after it. -/
abbrev Reader (α : Type) := StateT (List Char) Option α

namespace Reader

/-- Takes the next character if it is `c`. -/
def take? (c : Char) : Reader Bool
  | [] => some (false, [])
  | d :: cs => if c = d then some (true, cs) else some (false, d :: cs)

/-- Takes a character that has to come next. -/
def expect (c : Char) : Reader Unit
  | [] => none
  | d :: cs => if c = d then some ((), cs) else none

/-- Skips a character. -/
def skip : Reader Unit := modify (·.drop 1)

/-- Skips the characters of a class. -/
def skipWhile (p : Char → Bool) : Reader Unit := modify (·.dropWhile p)

/-- The next character, which stays where it is. -/
def peek? : Reader (Option Char) := return (← get).head?

/-- Puts a character in front of a text that has been read. -/
def push (c : Char) (r : List Char × List Char) : List Char × List Char := (c :: r.1, r.2)

/-- The value of a hexadecimal digit. -/
def hexValue? (c : Char) : Option Nat :=
  if c.isDigit then some (c.toNat - '0'.toNat)
  else if 'a' ≤ c ∧ c ≤ 'f' then some (c.toNat - 'a'.toNat + 10)
  else if 'A' ≤ c ∧ c ≤ 'F' then some (c.toNat - 'A'.toNat + 10)
  else none

/-- The value of a digit of a base up to 16. -/
def digitValue? (base : Nat) (c : Char) : Option Nat := (hexValue? c).filter (· < base)

/-- The number that digits of a base up to 16 spell. -/
def ofDigits? (base : Nat) (ds : List Char) : Option Nat :=
  ds.foldlM (fun n c => (digitValue? base c).map (base * n + ·)) 0

/-- An expected character is taken. -/
@[simp] theorem expect_cons (c : Char) (cs : List Char) : expect c (c :: cs) = some ((), cs) := by
  simp [expect]

end Reader

end MetadataFilter.Text
