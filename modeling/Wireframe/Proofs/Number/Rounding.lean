import Mathlib
import Wireframe.Number.Shortest

/-! Rounding a fraction to a number. A fraction that lies within a relative
distance of `1 / (2 * 10 ^ 16)` of a finite magnitude rounds to that magnitude,
so seventeen significant digits always name a number. -/
namespace Wireframe

/-- Rounding depends on the value of a fraction only. -/
theorem roundHalfEven_mul_mul (num den : Nat) {k : Nat} (hk : 0 < k) :
    roundHalfEven (num * k) (den * k) = roundHalfEven num den := by
  have hDiv : num * k / (den * k) = num / den := Nat.mul_div_mul_right _ _ hk
  have hMod : num * k % (den * k) = num % den * k := Nat.mul_mod_mul_right _ _ _
  have hLeft : (2 * (num % den * k) < den * k) = (2 * (num % den) < den) := by
    rw [← Nat.mul_assoc, Nat.mul_lt_mul_right hk]
  have hRight : (den * k < 2 * (num % den * k)) = (den < 2 * (num % den)) := by
    rw [← Nat.mul_assoc, Nat.mul_lt_mul_right hk]
  simp only [roundHalfEven, hDiv, hMod, hLeft, hRight]

/-- The rounded quotient is off by at most one half. -/
theorem roundHalfEven_bounds (num : Nat) {den : Nat} (hDen : 0 < den) :
    2 * (roundHalfEven num den * den) ≤ 2 * num + den ∧
      2 * num ≤ 2 * (roundHalfEven num den * den) + den := by
  have hSplit := Nat.div_add_mod num den
  have hRest := Nat.mod_lt num hDen
  have hParity : num / den % 2 = 0 ∨ num / den % 2 = 1 := by omega
  rw [Nat.mul_comm] at hSplit
  unfold roundHalfEven
  dsimp only
  split_ifs with hLow hHigh
  · omega
  · rw [Nat.add_mul]
    omega
  · rcases hParity with h | h <;> rw [h]
    · rw [Nat.add_zero]
      omega
    · rw [Nat.add_mul]
      omega

/-- Nothing else is within one half. -/
theorem roundHalfEven_eq {num den n : Nat}
    (hLow : 2 * (n * den) < 2 * num + den) (hHigh : 2 * num < 2 * (n * den) + den) :
    roundHalfEven num den = n := by
  have hDen : 0 < den := by
    rcases Nat.eq_zero_or_pos den with rfl | h
    · simp at hLow hHigh
    · exact h
  obtain ⟨hLower, hUpper⟩ := roundHalfEven_bounds num hDen
  generalize roundHalfEven num den = r at *
  rcases Nat.lt_trichotomy r n with h | h | h
  · have hStep : (r + 1) * den ≤ n * den := Nat.mul_le_mul_right den h
    rw [Nat.add_mul] at hStep
    omega
  · exact h
  · have hStep : (n + 1) * den ≤ r * den := Nat.mul_le_mul_right den h
    rw [Nat.add_mul] at hStep
    omega

namespace Binary64

theorem ranksPerStep_eq : ranksPerStep = 2 ^ 52 := rfl

/-- Rank, scale and significand give one another, so that a magnitude is known by its rank. -/
theorem scale_mul_add_significand (rank : Nat) :
    scale rank * ranksPerStep + significand rank = rank := by
  have hPos : 0 < ranksPerStep := by decide
  unfold scale significand
  split_ifs with h
  · rw [Nat.div_eq_of_lt h]
    simp
  · have hOne : 1 ≤ rank / ranksPerStep := (Nat.one_le_div_iff hPos).mpr (Nat.le_of_not_lt h)
    have hSplit := Nat.div_add_mod rank ranksPerStep
    rw [Nat.sub_mul, Nat.one_mul, Nat.mul_comm]
    have hLe : ranksPerStep ≤ ranksPerStep * (rank / ranksPerStep) :=
      Nat.le_mul_of_pos_right _ hOne
    omega

/-- A significand has 53 bits at most. -/
theorem significand_lt (rank : Nat) : significand rank < 2 ^ 53 := by
  have hMod : rank % ranksPerStep < ranksPerStep := Nat.mod_lt _ (by decide)
  have hStep := ranksPerStep_eq
  unfold significand
  split_ifs <;> omega

/-- Only the smallest step has significands below `2 ^ 52`. -/
theorem le_significand_of_scale_pos {rank : Nat} (h : 0 < scale rank) :
    2 ^ 52 ≤ significand rank := by
  have hStep := ranksPerStep_eq
  unfold significand
  split_ifs with hLow
  · simp [scale, Nat.div_eq_of_lt hLow] at h
  · omega

/-- The nearest rank depends on the value of a fraction only. -/
theorem nearestRank_mul_mul (num den : Nat) {k : Nat} (hk : 0 < k) :
    nearestRank (num * k) (den * k) = nearestRank num den := by
  have hUnits : num * k * unitsPerOne = num * unitsPerOne * k := by ring
  have hScaled (s : Nat) : den * k * Nat.pow 2 s = den * Nat.pow 2 s * k := by ring
  simp only [nearestRank, hUnits, hScaled, Nat.mul_div_mul_right _ _ hk,
    roundHalfEven_mul_mul _ _ hk]

/-- The doubling that a quotient lies in fixes its scale, which is `0` below the first one. -/
theorem log2_sub_eq {quotient s : Nat} (hTop : quotient < 2 ^ (53 + s))
    (hBottom : s = 0 ∨ 2 ^ (52 + s) ≤ quotient) : Nat.log2 quotient - 52 = s := by
  by_cases hZero : quotient = 0
  · rw [hZero] at hBottom ⊢
    have hPos : 0 < 2 ^ (52 + s) := by positivity
    rw [Nat.log2_zero]
    omega
  · have hLt := (Nat.log2_lt hZero).mpr hTop
    rcases hBottom with rfl | hBottom
    · omega
    · have hLe := (Nat.le_log2 hZero).mpr hBottom
      omega

/-- The rank of a fraction whose quotient lies in a known doubling. -/
theorem nearestRank_of_scale {num den s : Nat} (hDen : 0 < den)
    (hTop : num * unitsPerOne < 2 ^ 53 * (den * 2 ^ s))
    (hBottom : s = 0 ∨ 2 ^ 52 * (den * 2 ^ s) ≤ num * unitsPerOne) :
    nearestRank num den = s * ranksPerStep + roundHalfEven (num * unitsPerOne) (den * 2 ^ s) := by
  have hAbove : 2 ^ (53 + s) * den = 2 ^ 53 * (den * 2 ^ s) := by ring
  have hBelow : 2 ^ (52 + s) * den = 2 ^ 52 * (den * 2 ^ s) := by ring
  have hScale : Nat.log2 (num * unitsPerOne / den) - 52 = s := by
    apply log2_sub_eq
    · rwa [Nat.div_lt_iff_lt_mul hDen, hAbove]
    · rwa [Nat.le_div_iff_mul_le hDen, hBelow]
  simp only [nearestRank, Nat.pow_eq, hScale]

/-- A fraction rounds to a rank as soon as it lies within half a step of the
magnitude, measured by the smaller step where the magnitude starts a doubling. -/
theorem nearestRank_eq {rank num den : Nat}
    (hHigh : 2 * (num * unitsPerOne) <
      2 * (significand rank * (den * 2 ^ scale rank)) + den * 2 ^ scale rank)
    (hLow : 2 * (significand rank * (den * 2 ^ scale rank)) <
      2 * (num * unitsPerOne) + den * 2 ^ scale rank)
    (hBoundary : significand rank = 2 ^ 52 →
      4 * (significand rank * (den * 2 ^ scale rank)) <
        4 * (num * unitsPerOne) + den * 2 ^ scale rank) :
    nearestRank num den = rank := by
  have hRank := scale_mul_add_significand rank
  have hSig := significand_lt rank
  have hNormal : 0 < scale rank → 2 ^ 52 ≤ significand rank := le_significand_of_scale_pos
  have hDen : 0 < den := by
    rcases Nat.eq_zero_or_pos den with rfl | h
    · simp at hHigh hLow
    · exact h
  have hTop : significand rank * (den * 2 ^ scale rank) ≤ (2 ^ 53 - 1) * (den * 2 ^ scale rank) :=
    Nat.mul_le_mul_right _ (by omega)
  by_cases hDoubling : scale rank = 0 ∨ 2 ^ 52 * (den * 2 ^ scale rank) ≤ num * unitsPerOne
  · rw [nearestRank_of_scale hDen (by omega) hDoubling, roundHalfEven_eq hLow hHigh, hRank]
  · -- just below a doubling, the fraction is measured by the smaller step and rounds up to it
    obtain ⟨hPos, hBelow⟩ := not_or.mp hDoubling
    obtain ⟨t, hScale⟩ := Nat.exists_eq_succ_of_ne_zero hPos
    have hUnit : den * 2 ^ scale rank = 2 * (den * 2 ^ t) := by
      rw [hScale, Nat.pow_succ]
      ring
    rw [hUnit] at hHigh hLow hBoundary hBelow
    have hSigEq : significand rank = 2 ^ 52 := by
      by_contra hNe
      have hLe : (2 ^ 52 + 1) * (2 * (den * 2 ^ t)) ≤ significand rank * (2 * (den * 2 ^ t)) :=
        Nat.mul_le_mul_right _ (by have := hNormal (by omega); omega)
      omega
    have hNear := hBoundary hSigEq
    rw [hSigEq] at hNear
    have hRound : roundHalfEven (num * unitsPerOne) (den * 2 ^ t) = 2 ^ 53 :=
      roundHalfEven_eq (by omega) (by omega)
    have hSmaller : nearestRank num den =
        t * ranksPerStep + roundHalfEven (num * unitsPerOne) (den * 2 ^ t) :=
      nearestRank_of_scale hDen (by omega) (.inr (by omega))
    rw [hSmaller, hRound, ← hRank, hSigEq, hScale, ranksPerStep_eq]
    omega

/-- A fraction whose relative distance from a magnitude is at most
`1 / (2 * 10 ^ 16)` rounds to it. -/
theorem nearestRank_of_close {rank num den : Nat} (hPos : 0 < significand rank) (hDen : 0 < den)
    (hHigh : 2 * 10 ^ 16 * (num * unitsPerOne) ≤
      (2 * 10 ^ 16 + 1) * (significand rank * (den * 2 ^ scale rank)))
    (hLow : 2 * 10 ^ 16 * (significand rank * (den * 2 ^ scale rank)) ≤
      2 * 10 ^ 16 * (num * unitsPerOne) + significand rank * (den * 2 ^ scale rank)) :
    nearestRank num den = rank := by
  have hSig := significand_lt rank
  have hUnit : 0 < den * 2 ^ scale rank := by positivity
  have hLe : significand rank * (den * 2 ^ scale rank) ≤ (2 ^ 53 - 1) * (den * 2 ^ scale rank) :=
    Nat.mul_le_mul_right _ (by omega)
  apply nearestRank_eq
  · omega
  · omega
  · intro hSigEq
    rw [hSigEq] at hHigh hLow ⊢
    omega

end Binary64

end Wireframe
