/-!
# Double precision numbers

The numbers of the IEEE 754 format with 64 bits. The finite magnitudes are counted upwards from
zero: the magnitude of rank `r` is `units r` times the least positive one, `1 / unitsInOne`.

Main statements:

* `units_of_small`  the ranks of the first two binades are their own count of units
* `units_of_scale`  the ranks of one binade are evenly spaced
-/

namespace MetadataFilter

/-- How many magnitudes there are from one power of two to the next: two to the power of 52. -/
def Double.binade : Nat := 0x10000000000000

/-- How many finite magnitudes there are. -/
def Double.ranks : Nat := 2047 * binade

/-- A double precision number: a finite one with its sign and the rank of its magnitude, an
infinity, or not a number. -/
inductive Double where
  | finite (negative : Bool) (rank : Fin Double.ranks)
  | infinite (negative : Bool)
  | notANumber
deriving DecidableEq

namespace Double

/-- The least positive magnitude is this power of one half. -/
def unitPlaces : Nat := 1074

/-- The number one as a multiple of the least positive magnitude. -/
def unitsInOne : Nat := 1 <<< unitPlaces

/-- The magnitude of a rank as a multiple of the least positive magnitude. -/
def units (rank : Nat) : Nat :=
  if rank < binade then rank else (binade + rank % binade) <<< (rank / binade - 1)

/-- The number of a rank, which is infinite past the last finite rank. -/
def ofRank (negative : Bool) (rank : Nat) : Double :=
  if h : rank < ranks then .finite negative ⟨rank, h⟩ else .infinite negative

/-- Whether a number is finite. -/
def isFinite : Double → Bool
  | .finite _ _ => true
  | _ => false

/-- Equality of numbers: the two zeros are equal, and what is not a number equals nothing. -/
def equals : Double → Double → Bool
  | .finite m a, .finite n b => a == b && (m == n || a.val == 0)
  | .infinite m, .infinite n => m == n
  | _, _ => false

/-- A shift to the left keeps a positive number positive. -/
theorem shiftLeft_pos {n : Nat} (h : 0 < n) (shift : Nat) : 0 < n <<< shift := by
  rw [Nat.shiftLeft_eq]; exact Nat.mul_pos h (Nat.two_pow_pos _)

theorem unitsInOne_pos : 0 < unitsInOne := shiftLeft_pos (by decide) _

/-- Below the last rank there is the finite number of that rank. -/
theorem ofRank_of_lt {negative : Bool} {rank : Nat} (h : rank < ranks) :
    ofRank negative rank = .finite negative ⟨rank, h⟩ := by
  simp [ofRank, h]

/-- In the binade after `shift` doublings the magnitudes are evenly spaced, `2 ^ shift` units
apart. -/
theorem units_of_scale {shift fraction : Nat} (h : fraction < binade) :
    units ((shift + 1) * binade + fraction) = (binade + fraction) <<< shift := by
  have hb : 0 < binade := by decide
  have hd : ((shift + 1) * binade + fraction) / binade = shift + 1 := by
    rw [Nat.add_comm, Nat.add_mul_div_right _ _ hb, Nat.div_eq_of_lt h, Nat.zero_add]
  have hm : ((shift + 1) * binade + fraction) % binade = fraction := by
    rw [Nat.mul_add_mod_self_right, Nat.mod_eq_of_lt h]
  have hge : ¬ (shift + 1) * binade + fraction < binade := by
    rw [Nat.add_one_mul]; omega
  rw [units, if_neg hge, hd, hm, Nat.add_sub_cancel]

/-- In the first two binades, the denormal one among them, a rank is its own count of units. -/
theorem units_of_small {rank : Nat} (h : rank < 2 * binade) : units rank = rank := by
  by_cases hr : rank < binade
  · rw [units, if_pos hr]
  · have : rank = (0 + 1) * binade + (rank - binade) := by omega
    rw [this, units_of_scale (by omega), Nat.shiftLeft_zero]
    omega

end Double

end MetadataFilter
