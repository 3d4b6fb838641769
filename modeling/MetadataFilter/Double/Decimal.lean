import MetadataFilter.Double.Nearest
import MetadataFilter.Text.Digits

/-!
# Decimal spellings of doubles

A `Decimal` is a count of a power of ten. `Decimal.shortest` gives a magnitude as few digits as
read back as that magnitude; of two such spellings the nearer counts.

Main statements:

* `rank_shortest`  the shortest spelling reads back as the magnitude
-/

namespace MetadataFilter

/-- The number `coefficient * 10 ^ exponent`. -/
structure Decimal where
  coefficient : Nat
  exponent : Int
deriving DecidableEq

namespace Decimal

/-- The rank of the double magnitude nearest to a decimal. -/
def rank (d : Decimal) : Nat :=
  if 0 ≤ d.exponent then Double.nearestRank (d.coefficient * Nat.pow 10 d.exponent.toNat) 1
  else Double.nearestRank d.coefficient (Nat.pow 10 (-d.exponent).toNat)

/-- The double nearest to a decimal, with the given sign. -/
def toDouble (negative : Bool) (d : Decimal) : Double := .ofRank negative d.rank

/-- Which of two equally near spellings counts. -/
inductive Tie where
  | up
  | toEven
deriving DecidableEq

/-- The decimal point of a positive magnitude: how many digits stand before it, negative if zeros
follow it. The scale makes even the least magnitude a number with many digits. -/
def point (rank : Nat) : Int :=
  (Text.digits (Double.units rank * Nat.pow 10 400 / Double.unitsInOne)).length - 400

/-- The spelling with `n` digits that reads back as the magnitude of `rank`, whose decimal point
is `point`: one of the magnitude's two neighbours among the decimals of `n` digits, if any. -/
def withDigits (tie : Tie) (rank : Nat) (point : Int) (n : Nat) : Option Decimal :=
  let exponent := point - n
  let num := Double.units rank * Nat.pow 10 (-exponent).toNat
  let den := Double.unitsInOne * Nat.pow 10 exponent.toNat
  let low := num / den
  let twice := 2 * (num % den)
  let below : Decimal := ⟨low, exponent⟩
  let above : Decimal := if low + 1 = Nat.pow 10 n then ⟨1, point⟩ else ⟨low + 1, exponent⟩
  let nearest := if twice < den || (twice == den && tie == .toEven && low % 2 == 0)
    then [below, above] else [above, below]
  nearest.find? (·.rank == rank)

/-- The exact value of a magnitude. -/
def exact (rank : Nat) : Decimal :=
  ⟨Double.units rank * Nat.pow 5 Double.unitPlaces, -Double.unitPlaces⟩

/-- The spelling of a magnitude with the fewest digits that reads back as it. -/
def shortest (tie : Tie) (rank : Nat) : Decimal :=
  if rank = 0 then ⟨0, 0⟩
  else ((List.range' 1 17).findSome? (withDigits tie rank (point rank))).getD (exact rank)

/-- A spelling is only taken if it reads back as the magnitude. -/
theorem rank_withDigits {tie : Tie} {rank n : Nat} {point : Int} {d : Decimal}
    (h : withDigits tie rank point n = some d) : d.rank = rank := by
  simpa using List.find?_some h

/-- The exact value of a magnitude reads back as it; its power of ten is cancelled on both sides. -/
theorem rank_exact (rank : Nat) : (exact rank).rank = rank := by
  have hp : ∀ n : Nat, 0 < n → Decimal.rank ⟨Double.units rank * Nat.pow 5 n, -n⟩ =
      Double.nearestRank (Double.units rank * 5 ^ n) (1 <<< n * 5 ^ n) := by
    intro n hn
    unfold Decimal.rank
    rw [if_neg (by simp; omega), Nat.shiftLeft_eq, Nat.one_mul, ← Nat.mul_pow]
    simp
  unfold exact
  rw [hp _ (by decide), Double.nearestRank_mul_right (Nat.pow_pos (by decide))]
  exact Double.nearestRank_units rank

/-- The shortest spelling reads back as the magnitude, also where no spelling of up to seventeen
digits does and the exact value stands in. -/
theorem rank_shortest (tie : Tie) (rank : Nat) : (shortest tie rank).rank = rank := by
  unfold shortest
  split
  · next h => subst h; simp [Decimal.rank, Double.nearestRank_zero]
  · cases hf : (List.range' 1 17).findSome? (withDigits tie rank (point rank)) with
    | none => exact rank_exact rank
    | some d =>
      obtain ⟨n, _, hn⟩ := List.exists_of_findSome?_eq_some hf
      exact rank_withDigits hn

end Decimal

end MetadataFilter
