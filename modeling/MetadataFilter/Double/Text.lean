import MetadataFilter.Double.Decimal

/-!
# Doubles as text

Two layouts of the shortest digits: `Double.text` always writes them out around the point, and
`Double.compact` goes over to a power of ten for very large and very small magnitudes.
`Double.ofText?` reads either.

Main statements:

* `rank_ofPlain_split`  digits written out around the point read back as the decimal
-/

namespace MetadataFilter

namespace Decimal

/-- The digits of a decimal before and after the point, with at least one on either side. -/
def split (d : Decimal) : List Char × List Char :=
  let ds := Text.digits d.coefficient
  if 0 ≤ d.exponent then (ds ++ List.replicate d.exponent.toNat '0', ['0'])
  else
    let places := (-d.exponent).toNat
    let padded := List.replicate (places + 1 - ds.length) '0' ++ ds
    (padded.take (padded.length - places), padded.drop (padded.length - places))

/-- A decimal written out around its point. -/
def positional (d : Decimal) : List Char :=
  d.split.1 ++ '.' :: d.split.2

/-- A decimal with one digit before the point and a power of ten, whose sign is always written. -/
def scientific (d : Decimal) : List Char :=
  let ds := Text.digits d.coefficient
  let power := d.exponent + ds.length - 1
  let mantissa := match ds with
    | first :: second :: rest => first :: '.' :: second :: rest
    | ds => ds
  let sign := if power < 0 then '-' else '+'
  mantissa ++ 'e' :: sign :: Text.digits power.natAbs

/-- A decimal as JSON documents show it: written out if its point falls within 16 digits or behind
at most four zeros, else with a power of ten. -/
def compact (d : Decimal) : List Char :=
  let point := d.exponent + (Text.digits d.coefficient).length
  if d.coefficient = 0 || (-5 < point && point ≤ 16) then d.positional else d.scientific

/-- The decimal that digits before and after a point spell. -/
def ofPlain (whole fraction : List Char) : Decimal :=
  ⟨Text.ofDigits (whole ++ fraction), -fraction.length⟩

/-- Digits written out around the point read back as the decimal. -/
theorem rank_ofPlain_split (d : Decimal) : (ofPlain d.split.1 d.split.2).rank = d.rank := by
  obtain ⟨c, e⟩ := d
  unfold split
  simp only
  split
  -- a whole number gets its zeros before the point and one behind it, which cancel out
  · next h =>
    unfold ofPlain rank
    have hz : Text.digits c ++ List.replicate e.toNat '0' ++ ['0'] =
        Text.digits c ++ List.replicate (e.toNat + 1) '0' := by
      rw [List.append_assoc, List.replicate_succ']
    simp only [hz, Text.ofDigits_append_zeros, Text.ofDigits_digits, if_pos h,
      List.length_singleton]
    rw [if_neg (by decide), show (-(-(1 : Nat) : Int)).toNat = 1 by decide, Nat.pow_eq, Nat.pow_eq,
      Nat.pow_eq, Nat.pow_succ, ← Nat.mul_assoc, show (10 : Nat) ^ 1 = 1 * 10 by decide,
      Double.nearestRank_mul_right (by decide)]
  -- otherwise the digits are cut in two and put together again
  · next h =>
    unfold ofPlain
    simp only [List.take_append_drop, Text.ofDigits_zeros_append, Text.ofDigits_digits]
    congr 2
    have : (Text.digits c).length > 0 := List.length_pos_iff.2 (Text.digits_ne_nil c)
    simp only [List.length_drop, List.length_append, List.length_replicate]
    omega

end Decimal

namespace Double

/-- The sign of a number that is written in front of it. -/
def signed (negative : Bool) (cs : List Char) : String :=
  String.ofList (if negative then '-' :: cs else cs)

/-- A number as text: the shortest digits around a point, and names for the other numbers. -/
def text : Double → String
  | .finite negative rank => signed negative (Decimal.shortest .up rank).positional
  | .infinite negative => signed negative ['i', 'n', 'f']
  | .notANumber => "NaN"

/-- A number as JSON documents show it, which have none that is not finite. -/
def compact? : Double → Option String
  | .finite negative rank => some (signed negative (Decimal.shortest .toEven rank).compact)
  | _ => none

/-- Reads a sign, which may be missing. -/
def readSign : List Char → Bool × List Char
  | '-' :: cs => (true, cs)
  | '+' :: cs => (false, cs)
  | cs => (false, cs)

/-- Reads a power of ten that takes up all of a text. Powers past `limit` in either direction are
cut down to it. -/
def readPower? (limit : Nat) (cs : List Char) : Option Int :=
  let (negative, ds) := readSign cs
  if ds.isEmpty || !ds.all Char.isDigit then none
  else
    let power := min limit (Text.ofDigits ds)
    some (if negative then -power else power)

/-- Reads digits with at most one point and a power of ten. With `n` digits no power past
`n + 400` makes a difference. -/
def readDecimal? (cs : List Char) : Option Decimal :=
  let whole := cs.takeWhile Char.isDigit
  let (fraction, rest) := match cs.dropWhile Char.isDigit with
    | '.' :: rest => (rest.takeWhile Char.isDigit, rest.dropWhile Char.isDigit)
    | rest => ([], rest)
  let plain := Decimal.ofPlain whole fraction
  if whole.isEmpty && fraction.isEmpty then none
  else match rest with
    | [] => some plain
    | 'e' :: power | 'E' :: power =>
      (readPower? (whole.length + fraction.length + 400) power).map fun p =>
        ⟨plain.coefficient, plain.exponent + p⟩
    | _ => none

/-- Reads a number: digits with an optional sign, point and power of ten, or a name. Names may be
in any case. -/
def ofText? (text : String) : Option Double :=
  let (negative, cs) := readSign text.toList
  match String.ofList (cs.map Char.toLower) with
  | "inf" | "infinity" => some (.infinite negative)
  | "nan" => some .notANumber
  | _ => (readDecimal? cs).map (Decimal.toDouble negative)

end Double

end MetadataFilter
