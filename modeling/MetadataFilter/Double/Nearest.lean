import MetadataFilter.Double.Basic

/-!
# The double nearest to a ratio

A ratio of whole numbers becomes the nearest double, a tie the one with the even rank; past the
greatest finite magnitude it becomes infinite.

Main statements:

* `roundHalfEven_mul`    a whole quotient stays as it is
* `nearestRank_units`    the magnitude of a rank is nearest to that rank
* `nearestRank_mul_right`  a factor of both terms does not count
-/

namespace MetadataFilter.Double

/-- The quotient rounded to the nearest whole number, a half to the even one. -/
def roundHalfEven (num den : Nat) : Nat :=
  let whole := num / den
  let twice := 2 * (num % den)
  if den < twice || (twice == den && whole % 2 == 1) then whole + 1 else whole

/-- The rank of the magnitude nearest to `num / den`. The quotient in units is cut to the 53
binary digits that a double holds before it is rounded, and counting ranks takes care of a carry. -/
def nearestRank (num den : Nat) : Nat :=
  let scaled := num * unitsInOne
  let whole := scaled / den
  let shift := if whole < 2 * binade then 0 else whole.log2 - 52
  shift * binade + roundHalfEven scaled (den <<< shift)

/-- A whole quotient stays as it is. -/
theorem roundHalfEven_mul {n den : Nat} (h : 0 < den) : roundHalfEven (n * den) den = n := by
  simp [roundHalfEven, Nat.mul_div_cancel _ h]
  omega

/-- How many binary digits the magnitudes of a binade have. -/
theorem log2_shiftLeft {shift fraction : Nat} (h : fraction < binade) :
    ((binade + fraction) <<< shift).log2 = 52 + shift := by
  unfold binade at *
  rw [Nat.log2_eq_iff (Nat.ne_of_gt (shiftLeft_pos (by omega) _)), Nat.shiftLeft_eq]
  constructor
  · rw [Nat.pow_add]; exact Nat.mul_le_mul_right _ (by omega)
  · rw [show 52 + shift + 1 = 53 + shift by omega, Nat.pow_add]
    exact Nat.mul_lt_mul_of_pos_right (by omega) (Nat.two_pow_pos _)

/-- The magnitude of a rank is nearest to that rank. -/
theorem nearestRank_units (rank : Nat) : nearestRank (units rank) unitsInOne = rank := by
  have hpos := unitsInOne_pos
  have hb : 0 < binade := by decide
  unfold nearestRank
  simp only [Nat.mul_div_cancel _ hpos]
  -- Up to the second binade no bit is cut off; above, the shift is read off the binary length, and
  -- what is cut off is zero.
  by_cases hs : rank < 2 * binade
  · rw [units_of_small hs, if_pos hs, Nat.shiftLeft_zero, roundHalfEven_mul hpos]
    omega
  · obtain ⟨shift, fraction, hf, hr⟩ : ∃ shift fraction, fraction < binade ∧
        rank = (shift + 1) * binade + fraction := by
      refine ⟨rank / binade - 1, rank % binade, Nat.mod_lt _ hb, ?_⟩
      have : 1 ≤ rank / binade := (Nat.le_div_iff_mul_le hb).2 (by omega)
      rw [Nat.sub_add_cancel this, Nat.div_add_mod']
    subst hr
    rw [units_of_scale hf]
    have h1 : 1 ≤ shift := by
      rcases shift with _ | shift
      · omega
      · omega
    have hbig : ¬ (binade + fraction) <<< shift < 2 * binade := by
      have h2 : 2 ^ 1 ≤ 2 ^ shift := Nat.pow_le_pow_right (by decide) h1
      have := Nat.mul_le_mul (Nat.le_add_right binade fraction) h2
      rw [Nat.shiftLeft_eq]
      omega
    rw [if_neg hbig, log2_shiftLeft hf, Nat.add_sub_cancel_left]
    rw [show (binade + fraction) <<< shift * unitsInOne =
        (binade + fraction) * (unitsInOne <<< shift) by
      simp only [Nat.shiftLeft_eq]; rw [Nat.mul_assoc, Nat.mul_comm unitsInOne]]
    rw [roundHalfEven_mul (shiftLeft_pos hpos _), Nat.add_one_mul]
    omega

/-- A factor of both terms changes neither the quotient nor on which side of a half it lies. -/
theorem roundHalfEven_mul_right {num den k : Nat} (hk : 0 < k) :
    roundHalfEven (num * k) (den * k) = roundHalfEven num den := by
  have hd : num * k / (den * k) = num / den := Nat.mul_div_mul_right _ _ hk
  have hm : num * k % (den * k) = num % den * k := Nat.mul_mod_mul_right _ _ _
  have ht : 2 * (num % den * k) = 2 * (num % den) * k := by rw [Nat.mul_assoc]
  unfold roundHalfEven
  simp only [hd, hm, ht, Nat.mul_lt_mul_right hk, Nat.mul_right_cancel_iff hk, beq_iff_eq,
    Bool.and_eq_true, Bool.or_eq_true, decide_eq_true_eq]

/-- A factor of both terms does not count. -/
theorem nearestRank_mul_right {num den k : Nat} (hk : 0 < k) :
    nearestRank (num * k) (den * k) = nearestRank num den := by
  unfold nearestRank
  generalize unitsInOne = one
  have hs : num * k * one = num * one * k := by
    rw [Nat.mul_assoc, Nat.mul_comm k, ← Nat.mul_assoc]
  have hd : ∀ s, (den * k) <<< s = den <<< s * k := by
    intro s; rw [Nat.shiftLeft_eq, Nat.shiftLeft_eq, Nat.mul_right_comm]
  simp only [hs, hd, Nat.mul_div_mul_right _ _ hk, roundHalfEven_mul_right hk]

theorem nearestRank_zero (den : Nat) : nearestRank 0 den = 0 := by
  unfold nearestRank
  generalize unitsInOne = one
  simp [roundHalfEven]

end MetadataFilter.Double
