/-!
# Whole numbers in digits

Main statements:

* `ofDigits_digits`     the digits of a number read back as the number
* `isDigit_of_mem_digits`  they are digits
* `digits_ne_nil`       there is at least one
-/

namespace MetadataFilter.Text

/-- The decimal digits of a number, most significant first, without leading zeros. -/
def digits (n : Nat) : List Char := Nat.toDigits 10 n

/-- The number that decimal digits spell; leading zeros do not count. -/
def ofDigits (ds : List Char) : Nat := Nat.ofDigitChars 10 ds 0

/-- A whole number in digits, with a minus sign in front of a negative one. -/
def integerText (n : Int) : String :=
  if n < 0 then String.ofList ('-' :: digits n.natAbs) else String.ofList (digits n.natAbs)

/-- The digits of a number read back as the number. -/
@[simp] theorem ofDigits_digits (n : Nat) : ofDigits (digits n) = n :=
  Nat.ofDigitChars_toDigits (by decide) (by decide)

/-- Leading zeros do not count. -/
theorem ofDigits_zeros_append (n : Nat) (ds : List Char) :
    ofDigits (List.replicate n '0' ++ ds) = ofDigits ds := by
  simp [ofDigits, Nat.ofDigitChars_append, Nat.ofDigitChars_replicate_zero]

/-- Zeros behind the digits multiply by a power of ten. -/
theorem ofDigits_append_zeros (ds : List Char) (n : Nat) :
    ofDigits (ds ++ List.replicate n '0') = ofDigits ds * Nat.pow 10 n := by
  simp [ofDigits, Nat.ofDigitChars_append, Nat.ofDigitChars_replicate_zero, Nat.mul_comm]

/-- A number is written in digits alone. -/
theorem isDigit_of_mem_digits {n : Nat} {c : Char} (h : c ∈ digits n) : c.isDigit = true :=
  Nat.isDigit_of_mem_toDigits (by decide) (by decide) h

/-- Every number has at least one digit. -/
theorem digits_ne_nil (n : Nat) : digits n ≠ [] :=
  List.length_pos_iff.1 Nat.length_toDigits_pos

end MetadataFilter.Text
