import MetadataFilter.Double.Text
import MetadataFilter.Toml.Tree
import MetadataFilter.Toml.Text

/-!
# Numbers and dates of TOML

Underscores may stand between two digits of a number. Whole numbers have 64 bits; a float may not be
too large, and a date has to be in the calendar.
-/

namespace MetadataFilter.Toml

open Text.Reader

/-- Digits of a class with single underscores between them, after a first digit. -/
def moreDigits (isDigit : Char → Bool) : List Char → Option (List Char × List Char)
  | '_' :: c :: cs => if isDigit c then (moreDigits isDigit cs).map (push c) else none
  | c :: cs =>
    if isDigit c then (moreDigits isDigit cs).map (push c)
    else if c == '_' then none
    else some ([], c :: cs)
  | [] => some ([], [])

/-- One or more digits of a class with single underscores between them. -/
def digits (isDigit : Char → Bool) : Text.Reader (List Char)
  | c :: cs => if isDigit c then (moreDigits isDigit cs).map (push c) else none
  | [] => none

/-- The digits of a whole number: one zero, or digits that do not start with zero. -/
def wholeDigits : Text.Reader (List Char)
  | '0' :: cs => some (['0'], cs)
  | cs => digits Char.isDigit cs

/-- A whole number of 64 bits. -/
def inRange? (n : Int) : Option Node :=
  if Int64.minValue.toInt ≤ n ∧ n ≤ Int64.maxValue.toInt then some (.integer n) else none

/-- A whole number in a base other than ten, from behind its mark. -/
def based (base : Nat) : Text.Reader Node := do
  let ds ← digits fun c => (digitValue? base c).isSome
  match (ofDigits? base ds).bind fun n => inRange? n with
  | some node => return node
  | none => failure

/-- The digits behind a point, if there is one. -/
def fraction : Text.Reader (Option (List Char)) := do
  if ← take? '.' then return some (← digits Char.isDigit) else return none

/-- A power of ten, if there is one: its sign and digits. -/
def power : Text.Reader (Option (List Char)) := do
  match ← peek? with
  | some 'e' | some 'E' =>
    skip
    let sign ← match ← peek? with
      | some '-' => skip *> pure ['-']
      | some '+' => skip *> pure []
      | _ => pure []
    return some (sign ++ (← digits Char.isDigit))
  | _ => return none

/-- A float that is not too large; one that is too small in this sense has become infinite. -/
def float? (negative : Bool) (spelling : List Char) : Option Node :=
  match Double.readDecimal? spelling with
  | some d => if !negative && !(d.toDouble false).isFinite then none else some .float
  | none => none

/-- A number in base ten after its sign. -/
def decimal (negative : Bool) : Text.Reader Node := do
  let whole ← wholeDigits
  let fraction ← fraction
  let power ← power
  let node := match fraction, power with
    | none, none =>
      let n : Int := MetadataFilter.Text.ofDigits whole
      inRange? (if negative then -n else n)
    | _, _ =>
      let places := (fraction.map ('.' :: ·)).getD []
      let exponent := (power.map ('e' :: ·)).getD []
      float? negative (whole ++ places ++ exponent)
  match node with
  | some node => return node
  | none => failure

/-- A number after its sign, or the name of one that is none. -/
def unsigned (negative : Bool) : Text.Reader Node
  | 'i' :: 'n' :: 'f' :: cs => some (.float, cs)
  | 'n' :: 'a' :: 'n' :: cs => some (.float, cs)
  | cs => decimal negative cs

/-- A number. Only numbers without a sign may have another base. -/
def number : Text.Reader Node
  | '0' :: 'x' :: cs => based 16 cs
  | '0' :: 'o' :: cs => based 8 cs
  | '0' :: 'b' :: cs => based 2 cs
  | '-' :: cs => unsigned true cs
  | '+' :: cs => unsigned false cs
  | cs => unsigned false cs

/-! ### Dates and times -/

/-- A number of `n` digits within bounds, and its digits. -/
def field (n low high : Nat) : Text.Reader (Nat × List Char) := fun cs =>
  let ds := cs.take n
  let value := MetadataFilter.Text.ofDigits ds
  if ds.length = n ∧ ds.all Char.isDigit ∧ low ≤ value ∧ value ≤ high then
    some ((value, ds), cs.drop n)
  else none

/-- How many days a month has. -/
def daysInMonth (year month : Nat) : Nat :=
  if month = 2 then
    if year % 4 = 0 ∧ (year % 100 ≠ 0 ∨ year % 400 = 0) then 29 else 28
  else if month = 4 ∨ month = 6 ∨ month = 9 ∨ month = 11 then 30
  else 31

/-- A day of the calendar. -/
def day : Text.Reader (List Char) := do
  let (year, y) ← field 4 0 9999
  expect '-'
  let (month, m) ← field 2 1 12
  expect '-'
  let (_, d) ← field 2 1 (daysInMonth year month)
  return y ++ '-' :: m ++ '-' :: d

/-- Parts of a second, of which nine digits count and zeros at the end do not. -/
def secondParts (cs : List Char) : Option (List Char × List Char) :=
  match cs with
  | '.' :: rest =>
    if rest.head?.any Char.isDigit then
      let ds := ((rest.takeWhile Char.isDigit).take 9).reverse.dropWhile (· == '0')
      let shown := if ds.isEmpty then [] else '.' :: ds.reverse
      some (shown, rest.dropWhile Char.isDigit)
    else some ([], cs)
  | _ => some ([], cs)

/-- A time of day. -/
def time : Text.Reader (List Char) := do
  let (_, h) ← field 2 0 23
  expect ':'
  let (_, m) ← field 2 0 59
  expect ':'
  let (_, s) ← field 2 0 60
  let parts ← secondParts
  return h ++ ':' :: m ++ ':' :: s ++ parts

/-- The distance to universal time. -/
def offset : Text.Reader (List Char) := do
  match ← peek? with
  | some 'Z' | some 'z' => skip *> pure ['Z']
  | some '+' => skip *> signed '+'
  | some '-' => skip *> signed '-'
  | _ => failure
where
  /-- A distance after its sign, which counts as positive if there is none. -/
  signed (sign : Char) : Text.Reader (List Char) := do
    let (hours, h) ← field 2 0 23
    expect ':'
    let (minutes, m) ← field 2 0 59
    let sign := if hours = 0 ∧ minutes = 0 then '+' else sign
    return sign :: h ++ ':' :: m

/-- A time of day after a day, if there is one, with its distance to universal time, if given. -/
def timeAfterDay : Text.Reader (List Char) := do
  match ← peek? with
  | some 'T' | some 't' | some ' ' =>
    skip
    let t ← time
    let o ← offset <|> pure []
    return 'T' :: t ++ o
  | _ => return []

/-- A date, a time of day, or both. -/
def date : Text.Reader Node :=
  (do
    let d ← day
    let t ← timeAfterDay <|> pure []
    return .date (String.ofList (d ++ t))) <|>
  (do
    let t ← time
    return .date (String.ofList t))

end MetadataFilter.Toml
