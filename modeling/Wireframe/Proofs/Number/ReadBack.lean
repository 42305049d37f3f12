import Wireframe.Proofs.Number.Rounding

/-! The shortest decimal of a number reads back as the number. The seventeen
digit grid always has a neighbour that does, and moving zeros from the
coefficient into the exponent does not change what is read. -/
namespace Wireframe

/-- A number is below the power of ten that its digits count. -/
theorem lt_pow_length_toDigits (n : Nat) : n < 10 ^ (Nat.toDigits 10 n).length :=
  (Nat.length_toDigits_le_iff (by decide) Nat.length_toDigits_pos).mp (Nat.le_refl _)

/-- A number reaches every power of ten below its number of digits. -/
theorem pow_le_of_lt_length_toDigits {n k : Nat} (hPos : 0 < n)
    (h : k < (Nat.toDigits 10 n).length) : 10 ^ k ≤ n := by
  rcases Nat.eq_zero_or_pos k with rfl | hk
  · exact hPos
  · by_contra hLt
    have hLe := (Nat.length_toDigits_le_iff (by decide) hk).mpr (Nat.not_le.mp hLt)
    omega

/-- Ten times a number has a zero more at the end. -/
theorem toDigits_mul_ten {n : Nat} (hPos : 0 < n) :
    Nat.toDigits 10 (n * 10) = Nat.toDigits 10 n ++ ['0'] := by
  have h := Nat.toDigits_append_toDigits (b := 10) (d := 0) (by decide) hPos (by decide)
  rw [Nat.toDigits_zero, Nat.add_zero] at h
  rw [Nat.mul_comm]
  exact h.symm

/-- Powers of two are compared with powers of ten by their exponents, without evaluating either. -/
theorem two_pow_le_ten_pow {m n : Nat} (h : m ≤ 3 * n) : 2 ^ m ≤ 10 ^ n :=
  calc
    2 ^ m ≤ 2 ^ (3 * n) := Nat.pow_le_pow_right (by decide) h
    _ = 8 ^ n := by rw [Nat.pow_mul]
    _ ≤ 10 ^ n := Nat.pow_le_pow_left (by decide) n

namespace Binary64

/-- One is a power of two in units. The exponent has a name, so that it is compared with others and
the power is never evaluated. -/
theorem exists_unitsPerOne : ∃ places, places = 1074 ∧ unitsPerOne = 2 ^ places := by
  obtain ⟨places, hPlaces⟩ : ∃ places, places = 1074 := ⟨_, rfl⟩
  refine ⟨places, hPlaces, ?_⟩
  unfold unitsPerOne
  rw [← hPlaces, Nat.pow_eq]

theorem unitsPerOne_pos : 0 < unitsPerOne := by
  obtain ⟨places, -, hOne⟩ := exists_unitsPerOne
  rw [hOne]
  exact Nat.two_pow_pos places

theorem unitsPerOne_le {n : Nat} (h : 400 ≤ n) : unitsPerOne ≤ 10 ^ n := by
  obtain ⟨places, hPlaces, hOne⟩ := exists_unitsPerOne
  rw [hOne]
  exact two_pow_le_ten_pow (by omega)

/-- No finite magnitude reaches `10 ^ 399`. -/
theorem units_lt (x : Binary64) {n : Nat} (h : 399 ≤ n) : x.units < 10 ^ n * unitsPerOne := by
  obtain ⟨places, hPlaces, hOne⟩ := exists_unitsPerOne
  have hScale : 53 + scale x.rank ≤ 1024 + places := by
    have hRank := x.rank.isLt
    have hDiv : x.rank.val / ranksPerStep < 2047 := by
      rw [Nat.div_lt_iff_lt_mul (by decide)]
      exact hRank
    unfold scale
    omega
  have hLarge : 2 ^ 1024 ≤ 10 ^ n := two_pow_le_ten_pow (by omega)
  calc
    x.units = significand x.rank * 2 ^ scale x.rank := by rw [units, Nat.pow_eq]
    _ < 2 ^ 53 * 2 ^ scale x.rank :=
      Nat.mul_lt_mul_of_pos_right (significand_lt _) (Nat.two_pow_pos _)
    _ ≤ 2 ^ 1024 * unitsPerOne := by
      rw [hOne, ← Nat.pow_add, ← Nat.pow_add]
      exact Nat.pow_le_pow_right (by decide) hScale
    _ ≤ 10 ^ n * unitsPerOne := Nat.mul_le_mul_right _ hLarge

/-- Only the value of a fraction counts, not how it is written. -/
theorem ofFraction?_mul_mul (negative : Bool) (num den : Nat) {k : Nat} (hk : 0 < k) :
    ofFraction? negative (num * k) (den * k) = ofFraction? negative num den := by
  simp only [ofFraction?, nearestRank_mul_mul num den hk]

/-- A fraction gives the number whose rank is nearest to it. -/
theorem ofFraction?_eq {x : Binary64} {num den : Nat} (h : nearestRank num den = x.rank) :
    ofFraction? x.negative num den = some x := by
  simp only [ofFraction?, h, x.rank.isLt, ↓reduceDIte]

/-- A zero of the coefficient can move into the exponent. -/
theorem ofDecimal?_mul_ten (negative : Bool) (coefficient : Nat) (exponent : Int) :
    ofDecimal? negative (coefficient * 10) (exponent - 1) =
      ofDecimal? negative coefficient exponent := by
  rcases Nat.eq_zero_or_pos coefficient with rfl | hPos
  · simp [ofDecimal?]
  have hPlaces : ((Nat.toDigits 10 (coefficient * 10)).length : Int) + (exponent - 1) =
      (Nat.toDigits 10 coefficient).length + exponent := by
    rw [toDigits_mul_ten hPos, List.length_append, List.length_singleton]
    omega
  have hZero : (coefficient * 10 = 0) = (coefficient = 0) := by
    simp
  unfold ofDecimal?
  simp only [hPlaces, hZero, Nat.pow_eq]
  refine if_congr Iff.rfl rfl (if_congr Iff.rfl rfl ?_)
  rcases Int.lt_trichotomy exponent 0 with hNeg | hEq | hExp
  · rw [if_neg (by omega), if_neg (by omega),
      show (-(exponent - 1)).toNat = (-exponent).toNat + 1 by omega, Nat.pow_succ]
    exact ofFraction?_mul_mul _ _ _ (by decide)
  · subst hEq
    rw [if_neg (by decide), if_pos (by decide), ← ofFraction?_mul_mul negative _ 1 (Nat.succ_pos 9)]
    simp
  · rw [if_pos (by omega), if_pos (by omega),
      show exponent.toNat = (exponent - 1).toNat + 1 by omega, Nat.pow_succ, Nat.mul_assoc,
      Nat.mul_comm 10]

/-- The same for any number of zeros. -/
theorem ofDecimal?_mul_pow (negative : Bool) (coefficient : Nat) (exponent : Int) (zeros : Nat) :
    ofDecimal? negative (coefficient * 10 ^ zeros) (exponent - zeros) =
      ofDecimal? negative coefficient exponent := by
  induction zeros with
  | zero => simp
  | succ zeros ih =>
      rw [← ih, Nat.pow_succ, ← Nat.mul_assoc, Nat.cast_succ, ← Int.sub_sub]
      exact ofDecimal?_mul_ten _ _ _

/-- Moving zeros into the exponent changes nothing about what is read back. -/
theorem readsBack_normalizeWithin (x : Binary64) (fuel : Nat) (d : Decimal) :
    x.readsBack (d.normalizeWithin fuel) = x.readsBack d := by
  induction fuel generalizing d with
  | zero => rfl
  | succ fuel ih =>
      rw [Decimal.normalizeWithin]
      split_ifs with h
      · rw [ih]
        have hTen : d.coefficient / 10 * 10 = d.coefficient := by omega
        have hRead := ofDecimal?_mul_ten x.negative (d.coefficient / 10) (d.exponent + 1)
        rw [hTen, Int.add_sub_cancel] at hRead
        rw [readsBack, readsBack, hRead]
      · rfl

/-- The decimal power that the leading digit stands for is at most the number. -/
theorem exists_leadingPower {x : Binary64} (hPos : 0 < x.units) :
    ∃ places : Nat, x.leadingPower = places - 400 ∧ places ≤ 798 ∧
      10 ^ places * unitsPerOne ≤ x.units * 10 ^ 400 ∧
      x.units * 10 ^ 400 < 10 ^ (places + 1) * unitsPerOne := by
  -- The powers of ten stand behind names as well, so that nothing evaluates them.
  obtain ⟨shift, hShift⟩ : ∃ shift, shift = 400 := ⟨_, rfl⟩
  obtain ⟨high, hHigh⟩ : ∃ high, high = 399 := ⟨_, rfl⟩
  have hUnit := unitsPerOne_pos
  have hLt := units_lt x hHigh.ge
  have hOne := unitsPerOne_le hShift.ge
  rw [leadingPower, ← hShift]
  simp only [Nat.pow_eq]
  generalize unitsPerOne = one at *
  generalize hNum : x.units * 10 ^ shift / one = scaled
  have hScaled : 0 < scaled := by
    rw [← hNum]
    apply Nat.div_pos _ hUnit
    exact hOne.trans (Nat.le_mul_of_pos_left _ hPos)
  have hLength := Nat.length_toDigits_pos (b := 10) (n := scaled)
  refine ⟨(Nat.toDigits 10 scaled).length - 1, ?_, ?_, ?_, ?_⟩
  · omega
  · have hBound : scaled < 10 ^ (high + shift) := by
      rw [← hNum, Nat.div_lt_iff_lt_mul hUnit, Nat.pow_add, Nat.mul_right_comm]
      exact Nat.mul_lt_mul_of_pos_right hLt (Nat.pow_pos (by decide))
    have hLe := (Nat.length_toDigits_le_iff (b := 10) (by decide) (by omega)).mpr hBound
    omega
  · have hLow := pow_le_of_lt_length_toDigits hScaled
      (show (Nat.toDigits 10 scaled).length - 1 < _ by omega)
    rw [← Nat.le_div_iff_mul_le hUnit, hNum]
    exact hLow
  · rw [Nat.sub_add_cancel hLength, ← Nat.div_lt_iff_lt_mul hUnit, hNum]
    exact lt_pow_length_toDigits scaled

def fraction (coefficient : Nat) (exponent : Int) : Nat × Nat :=
  if 0 ≤ exponent then (coefficient * 10 ^ exponent.toNat, 1)
  else (coefficient, 10 ^ (-exponent).toNat)

theorem fraction_den_pos (coefficient : Nat) (exponent : Int) :
    0 < (fraction coefficient exponent).2 := by
  unfold fraction
  split_ifs
  · exact Nat.one_pos
  · exact Nat.pow_pos (by decide)

/-- Within 400 places a decimal is read as the fraction that it stands for. -/
theorem ofDecimal?_eq_of_fraction {x : Binary64} {coefficient : Nat} {exponent : Int}
    (hPos : 0 < coefficient)
    (hLow : -400 ≤ ((Nat.toDigits 10 coefficient).length : Int) + exponent)
    (hHigh : ((Nat.toDigits 10 coefficient).length : Int) + exponent ≤ 400)
    (h : nearestRank (fraction coefficient exponent).1 (fraction coefficient exponent).2 = x.rank) :
    ofDecimal? x.negative coefficient exponent = some x := by
  have hNonzero : coefficient ≠ 0 := by omega
  unfold ofDecimal?
  simp only [hNonzero, Int.not_lt.mpr hLow, Int.not_lt.mpr hHigh, decide_false, Bool.or_self,
    Bool.false_eq_true, ↓reduceIte, Nat.pow_eq]
  unfold fraction at h
  split_ifs at h ⊢ with hExp
  · exact ofFraction?_eq h
  · exact ofFraction?_eq h

/-- A decimal and a magnitude over the same grid, brought to one denominator. -/
theorem fraction_scaledBy (x : Binary64) (coefficient : Nat) (power : Int) :
    (fraction coefficient power).1 * unitsPerOne = coefficient * (x.scaledBy power).2 ∧
      x.units * (fraction coefficient power).2 = (x.scaledBy power).1 := by
  simp only [fraction, scaledBy, Nat.pow_eq]
  generalize unitsPerOne = one
  split_ifs with hExp
  · exact ⟨by ring, by ring⟩
  · exact ⟨rfl, rfl⟩

/-- Over the grid of seventeen digits a magnitude has a whole part of that
many digits. -/
theorem scaledBy_bounds {x : Binary64} (hPos : 0 < x.units) :
    0 < (x.scaledBy (x.leadingPower - 16)).2 ∧
      10 ^ 16 * (x.scaledBy (x.leadingPower - 16)).2 ≤ (x.scaledBy (x.leadingPower - 16)).1 ∧
      (x.scaledBy (x.leadingPower - 16)).1 < 10 ^ 17 * (x.scaledBy (x.leadingPower - 16)).2 := by
  obtain ⟨places, hLead, hPlaces, hLow, hHigh⟩ := exists_leadingPower hPos
  obtain ⟨shift, hShift⟩ : ∃ shift, shift = 400 := ⟨_, rfl⟩
  have hUnit := unitsPerOne_pos
  have hTen : 0 < 10 ^ shift := Nat.pow_pos (by decide)
  rw [← hShift] at hLow hHigh
  rw [hLead]
  simp only [scaledBy, Nat.pow_eq]
  generalize unitsPerOne = one at *
  -- The grid is a power of ten on one side of the fraction or on the other.
  by_cases hPower : 0 ≤ (places : Int) - 400 - 16
  · simp only [hPower, ↓reduceIte]
    obtain ⟨more, rfl⟩ : ∃ more, places = more + 416 := ⟨places - 416, by omega⟩
    rw [show (((more + 416 : Nat) : Int) - 400 - 16).toNat = more by omega]
    have hFirst : 10 ^ (more + 416) * one = 10 ^ 16 * (one * 10 ^ more) * 10 ^ shift := by
      rw [show more + 416 = 16 + more + shift by omega, Nat.pow_add, Nat.pow_add]
      ring
    have hSecond : 10 ^ (more + 416 + 1) * one = 10 ^ 17 * (one * 10 ^ more) * 10 ^ shift := by
      rw [show more + 416 + 1 = 17 + more + shift by omega, Nat.pow_add, Nat.pow_add]
      ring
    rw [hFirst] at hLow
    rw [hSecond] at hHigh
    exact ⟨by positivity, Nat.le_of_mul_le_mul_right hLow hTen, Nat.lt_of_mul_lt_mul_right hHigh⟩
  · simp only [hPower, ↓reduceIte]
    obtain ⟨less, hLess⟩ : ∃ less, places + less = 416 := ⟨416 - places, by omega⟩
    rw [show (-((places : Int) - 400 - 16)).toNat = less by omega]
    have hFirst : 10 ^ places * one * 10 ^ less = 10 ^ 16 * one * 10 ^ shift := by
      rw [Nat.mul_right_comm, ← Nat.pow_add, show places + less = 16 + shift by omega, Nat.pow_add]
      ring
    have hSecond : 10 ^ (places + 1) * one * 10 ^ less = 10 ^ 17 * one * 10 ^ shift := by
      rw [Nat.mul_right_comm, ← Nat.pow_add, show places + 1 + less = 17 + shift by omega,
        Nat.pow_add]
      ring
    have hPower10 : 0 < 10 ^ less := Nat.pow_pos (by decide)
    have hScaledLow := Nat.mul_le_mul_right (10 ^ less) hLow
    have hScaledHigh := Nat.mul_lt_mul_of_pos_right hHigh hPower10
    rw [hFirst, Nat.mul_right_comm x.units] at hScaledLow
    rw [hSecond, Nat.mul_right_comm x.units] at hScaledHigh
    exact ⟨hUnit, Nat.le_of_mul_le_mul_right hScaledLow hTen,
      Nat.lt_of_mul_lt_mul_right hScaledHigh⟩

/-- A fraction with a whole part of seventeen digits is rounded to as many. Rounding up may reach the
next power of ten, so that there are eighteen. -/
theorem length_toDigits_roundHalfEven {num den : Nat} (hDen : 0 < den) (hBottom : 10 ^ 16 * den ≤ num)
    (hTop : num < 10 ^ 17 * den) :
    0 < roundHalfEven num den ∧ 16 < (Nat.toDigits 10 (roundHalfEven num den)).length ∧
      (Nat.toDigits 10 (roundHalfEven num den)).length ≤ 18 := by
  obtain ⟨hNotMore, hNotLess⟩ := roundHalfEven_bounds num hDen
  generalize roundHalfEven num den = coefficient at *
  have hAtLeast : 10 ^ 16 ≤ coefficient := by
    by_contra hLt
    have hLe : (coefficient + 1) * den ≤ 10 ^ 16 * den := Nat.mul_le_mul_right _ (by omega)
    rw [Nat.add_mul] at hLe
    omega
  have hAtMost : coefficient < 10 ^ 18 := by
    by_contra hGe
    have hLe : 10 ^ 18 * den ≤ coefficient * den := Nat.mul_le_mul_right _ (by omega)
    omega
  refine ⟨by omega, ?_, (Nat.length_toDigits_le_iff (by decide) (by decide)).mpr hAtMost⟩
  by_contra hLe
  have hLt := (Nat.length_toDigits_le_iff (by decide) (by decide)).mp (Nat.not_lt.mp hLe)
  omega

/-- The nearest decimal of seventeen digits reads back. -/
theorem readsBack_nearest {x : Binary64} (hPos : 0 < x.units) :
    x.readsBack ⟨roundHalfEven (x.scaledBy (x.leadingPower - 16)).1
      (x.scaledBy (x.leadingPower - 16)).2, x.leadingPower - 16⟩ = true := by
  obtain ⟨hDen, hBottom, hTop⟩ := scaledBy_bounds hPos
  obtain ⟨places, hLead, hPlaces, -, -⟩ := exists_leadingPower hPos
  have hUnits : x.units = significand x.rank * 2 ^ scale x.rank := by
    simp only [units, Nat.pow_eq]
  generalize hCoefficient : roundHalfEven _ _ = coefficient
  obtain ⟨hUnit, hMagnitude⟩ := fraction_scaledBy x coefficient (x.leadingPower - 16)
  have hFractionDen := fraction_den_pos coefficient (x.leadingPower - 16)
  obtain ⟨hNotMore, hNotLess⟩ := roundHalfEven_bounds (x.scaledBy (x.leadingPower - 16)).1 hDen
  obtain ⟨hCoefficientPos, hLong, hShort⟩ := length_toDigits_roundHalfEven hDen hBottom hTop
  rw [hCoefficient] at hNotMore hNotLess hCoefficientPos hLong hShort
  generalize hNum : (x.scaledBy (x.leadingPower - 16)).1 = num at *
  generalize hGrid : (x.scaledBy (x.leadingPower - 16)).2 = den at *
  rw [hLead] at hUnit hMagnitude hFractionDen ⊢
  rw [readsBack, beq_iff_eq]
  dsimp only
  apply ofDecimal?_eq_of_fraction hCoefficientPos
  · omega
  · omega
  -- The decimal is within half a unit of its grid, which is finer than that of the number.
  · have hSig : 0 < significand x.rank := by
      rw [hUnits] at hPos
      exact Nat.pos_of_mul_pos_right hPos
    have hSame : significand x.rank *
        ((fraction coefficient (↑places - 400 - 16)).2 * 2 ^ scale x.rank) = num := by
      rw [← hMagnitude, hUnits]
      ring
    apply nearestRank_of_close hSig hFractionDen
    · rw [hUnit, hSame]
      omega
    · rw [hUnit, hSame]
      omega

/-- A grid whose nearest decimal reads back is not passed over. -/
theorem onGrid?_isSome_of_readsBack {x : Binary64} {power : Int}
    (h : x.readsBack ⟨roundHalfEven (x.scaledBy power).1 (x.scaledBy power).2, power⟩ = true) :
    (x.onGrid? power).isSome = true := by
  unfold onGrid?
  generalize x.scaledBy power = fraction at h ⊢
  obtain ⟨num, den⟩ := fraction
  dsimp only at h ⊢
  rw [if_pos h, Option.isSome_some]

/-- What is picked from a grid reads back, whichever neighbour it is. -/
theorem readsBack_of_onGrid? {x : Binary64} {power : Int} {d : Decimal}
    (h : x.onGrid? power = some d) : x.readsBack d = true := by
  unfold onGrid? at h
  generalize x.scaledBy power = fraction at h
  obtain ⟨num, den⟩ := fraction
  dsimp only at h
  split_ifs at h with hNearest hLower hUpper
  · cases h
    exact hNearest
  · cases h
    exact hLower
  · cases h
    exact hUpper

theorem eq_zero_of_units {x : Binary64} (h : x.units = 0) : x = zero x.negative := by
  have hRank := scale_mul_add_significand x.rank
  have hSig : significand x.rank = 0 := by
    simp only [units, Nat.pow_eq, Nat.mul_eq_zero] at h
    rcases h with h | h
    · exact h
    · exact absurd h (Nat.two_pow_pos _).ne'
  have hScale : scale x.rank = 0 := by
    by_contra hNe
    have hLe := le_significand_of_scale_pos (Nat.pos_of_ne_zero hNe)
    omega
  rw [hSig, hScale] at hRank
  obtain ⟨negative, rank⟩ := x
  simp only [zero, mk.injEq, true_and]
  exact Fin.ext hRank.symm

/-- Every number reads back from its shortest decimal. -/
theorem readsBack_shortest (x : Binary64) : x.readsBack x.shortest = true := by
  unfold shortest
  split_ifs with hZero
  · have hEq := eq_zero_of_units hZero
    rw [readsBack, beq_iff_eq, hEq]
    rfl
  · dsimp only
    rw [Decimal.normalize, readsBack_normalizeWithin]
    have hSome := onGrid?_isSome_of_readsBack (readsBack_nearest (Nat.pos_of_ne_zero hZero))
    cases hFound : (List.range 17).findSome? fun count : Nat => x.onGrid? (x.leadingPower - count) with
    | none =>
        rw [List.findSome?_eq_none_iff] at hFound
        have hNone := hFound 16 (by decide)
        rw [Nat.cast_ofNat] at hNone
        rw [hNone] at hSome
        cases hSome
    | some d =>
        obtain ⟨count, -, hGrid⟩ := List.exists_of_findSome?_eq_some hFound
        exact readsBack_of_onGrid? hGrid

end Binary64

end Wireframe
