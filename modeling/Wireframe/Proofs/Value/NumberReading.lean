import Wireframe.Proofs.Number.ReadBack
import Wireframe.Proofs.Text.Span
import Wireframe.Value.Decode
import Wireframe.Number.Written

/-! Written numbers read back. Whole numbers stay whole numbers and
floating-point numbers stay floating-point numbers, in every format. -/
namespace Wireframe.Value

open Text

/-- A character that a number can go on with. -/
def continuesNumber (c : Char) : Bool :=
  c.isDigit || c == '.' || c == 'e' || c == 'E'

theorem ofDigits_eq (digits : Text) : ofDigits digits = Nat.ofDigitChars 10 digits 0 := by
  unfold ofDigits Nat.ofDigitChars
  congr 1
  funext n c
  rw [Nat.mul_comm]

theorem ofDigits_toDigits (n : Nat) : ofDigits (Nat.toDigits 10 n) = n := by
  rw [ofDigits_eq, Nat.ofDigitChars_ten_toDigits]

theorem ofDigits_zeros_append (zeros : Nat) (digits : Text) :
    ofDigits (List.replicate zeros '0' ++ digits) = ofDigits digits := by
  simp [ofDigits_eq, Nat.ofDigitChars_append]

theorem ofDigits_append_zeros (digits : Text) (zeros : Nat) :
    ofDigits (digits ++ List.replicate zeros '0') = ofDigits digits * 10 ^ zeros := by
  simp [ofDigits_eq, Nat.ofDigitChars_append, Nat.mul_comm]

theorem isDigit_of_mem_replicate {zeros : Nat} {c : Char} (h : c ∈ List.replicate zeros '0') :
    c.isDigit = true := by
  rw [List.eq_of_mem_replicate h]
  decide

theorem digitChar_ne_zero {n : Nat} (hPos : 0 < n) (hLt : n < 10) : n.digitChar ≠ '0' := by
  interval_cases n <;> decide

/-- Digits of a positive number do not start with a zero. -/
theorem head_toDigits_ne_zero {n : Nat} (hPos : 0 < n) :
    ∃ c rest, Nat.toDigits 10 n = c :: rest ∧ c ≠ '0' := by
  induction n using Nat.strongRecOn with
  | ind n ih =>
      by_cases hLt : n < 10
      · exact ⟨n.digitChar, [], Nat.toDigits_of_lt_base hLt, digitChar_ne_zero hPos hLt⟩
      · obtain ⟨c, rest, hDigits, hc⟩ := ih (n / 10) (by omega) (by omega)
        rw [Nat.toDigits_of_base_le (by decide) (by omega), hDigits]
        exact ⟨c, _, rfl, hc⟩

/-- Digits that can stand before a point: a single zero, or digits that do not
start with one. -/
def IsWhole (digits : Text) : Prop :=
  digits = ['0'] ∨
    (∃ c rest, digits = c :: rest ∧ c ≠ '0') ∧ ∀ d ∈ digits, d.isDigit = true

theorem isWhole_toDigits (n : Nat) : IsWhole (Nat.toDigits 10 n) := by
  rcases Nat.eq_zero_or_pos n with rfl | hPos
  · exact .inl (Nat.toDigits_zero 10)
  · exact .inr ⟨head_toDigits_ne_zero hPos,
      fun d hd => Nat.isDigit_of_mem_toDigits (by decide) (by decide) hd⟩

theorem digitRun_append {digits rest : Text} (hDigits : ∀ c ∈ digits, c.isDigit = true)
    (hStop : StopsAt Char.isDigit rest) : digitRun (digits ++ rest) = (digits, rest) := by
  rw [digitRun, takeWhile_append_of_stopsAt hDigits hStop,
    dropWhile_append_of_stopsAt hDigits hStop]

theorem wholePart?_append {digits rest : Text} (hWhole : IsWhole digits)
    (hStop : StopsAt Char.isDigit rest) :
    wholePart? (digits ++ rest) = some (digits, rest) := by
  rcases hWhole with rfl | ⟨⟨c, more, rfl, hc⟩, hDigits⟩
  · simp [wholePart?]
  · have hRun := digitRun_append hDigits hStop
    have hFirst : c.isDigit = true := hDigits c (by simp)
    rw [List.cons_append] at hRun ⊢
    simp only [wholePart?, hc, ↓reduceIte, hFirst, hRun]

theorem fractionPart?_of_stopsAt {rest : Text} (hStop : StopsAt (· == '.') rest) :
    fractionPart? rest = some ([], rest) := by
  unfold fractionPart?
  split
  · simp at hStop
  · rfl

theorem fractionPart?_append {digits rest : Text} (hDigits : ∀ c ∈ digits, c.isDigit = true)
    (hNonempty : digits ≠ []) (hStop : StopsAt Char.isDigit rest) :
    fractionPart? ('.' :: (digits ++ rest)) = some (digits, rest) := by
  have hEmpty : digits.isEmpty = false := by simpa using hNonempty
  simp [fractionPart?, digitRun_append hDigits hStop, hEmpty]

theorem exponentPart?_of_stopsAt {rest : Text} (hStop : StopsAt (fun c => c == 'e' || c == 'E') rest) :
    exponentPart? rest = some (none, rest) := by
  cases rest with
  | nil => rfl
  | cons c rest =>
      simp only [stopsAt_cons, Bool.or_eq_false_iff, beq_eq_false_iff_ne] at hStop
      simp [exponentPart?, hStop.1, hStop.2]

/-- A written exponent, with zeros in front, reads as itself. -/
theorem exponentPart?_append (zeros : Nat) (exponent : Int) {rest : Text}
    (hStop : StopsAt Char.isDigit rest) :
    exponentPart? ('e' :: (if exponent < 0 then '-' else '+') ::
      (List.replicate zeros '0' ++ Nat.toDigits 10 exponent.natAbs ++ rest)) =
      some (some exponent, rest) := by
  have hDigits : ∀ c ∈ List.replicate zeros '0' ++ Nat.toDigits 10 exponent.natAbs,
      c.isDigit = true := by
    intro c hc
    rcases List.mem_append.mp hc with h | h
    · exact isDigit_of_mem_replicate h
    · exact Nat.isDigit_of_mem_toDigits (by decide) (by decide) h
  have hRun := digitRun_append hDigits hStop
  have hEmpty : (List.replicate zeros '0' ++ Nat.toDigits 10 exponent.natAbs).isEmpty = false := by
    simp
  have hValue : ofDigits (List.replicate zeros '0' ++ Nat.toDigits 10 exponent.natAbs) =
      exponent.natAbs := by
    rw [ofDigits_zeros_append, ofDigits_toDigits]
  by_cases hNeg : exponent < 0
  · simp only [exponentPart?, exponentSign, hNeg, ↓reduceIte, hRun, hEmpty, hValue]
    simp only [decide_true, Bool.true_or, ↓reduceIte, Bool.false_eq_true]
    rw [show (-1 : Int) * exponent.natAbs = exponent by omega]
  · simp only [exponentPart?, exponentSign, hNeg, ↓reduceIte, hRun, hEmpty, hValue]
    simp only [decide_true, Bool.true_or, ↓reduceIte, Bool.false_eq_true]
    rw [show (1 : Int) * exponent.natAbs = exponent by omega]

/-- What the three parts of a number give, unless it is a whole number. -/
theorem magnitude?_of_parts {negative : Bool} {text whole afterWhole fraction afterFraction : Text}
    {exponent : Option Int} {rest : Text}
    (hWhole : wholePart? text = some (whole, afterWhole))
    (hFraction : fractionPart? afterWhole = some (fraction, afterFraction))
    (hExponent : exponentPart? afterFraction = some (exponent, rest))
    (hReal : fraction = [] → exponent ≠ none) {x : Binary64}
    (hValue : Binary64.ofDecimal? negative (ofDigits (whole ++ fraction))
      (exponent.getD 0 - fraction.length) = some x) :
    magnitude? negative text = some (.real x, rest) := by
  simpa [magnitude?, hWhole, hFraction, hExponent, hValue] using hReal

theorem magnitude?_whole {negative : Bool} {digits rest : Text} (hWhole : IsWhole digits)
    (hStop : StopsAt continuesNumber rest) :
    magnitude? negative (digits ++ rest) =
      some (.integer (if negative then -ofDigits digits else ofDigits digits), rest) := by
  have hDigit : StopsAt Char.isDigit rest := hStop.mono fun c h => by simp [continuesNumber, h]
  have hPoint : StopsAt (· == '.') rest := hStop.mono fun c h => by simp_all [continuesNumber]
  have hExponent : StopsAt (fun c => c == 'e' || c == 'E') rest :=
    hStop.mono fun c h => by
      rcases Bool.or_eq_true _ _ ▸ h with h | h <;> simp_all [continuesNumber]
  simp [magnitude?, wholePart?_append hWhole hDigit, fractionPart?_of_stopsAt hPoint,
    exponentPart?_of_stopsAt hExponent]

theorem number?_of_stopsAt {text : Text} (hStop : StopsAt (· == '-') text) :
    number? text = magnitude? false text := by
  unfold number?
  split
  · simp at hStop
  · rfl

theorem IsWhole.stopsAt_minus {digits : Text} (h : IsWhole digits) (rest : Text) :
    StopsAt (· == '-') (digits ++ rest) := by
  rcases h with rfl | ⟨⟨c, more, rfl, -⟩, hDigits⟩
  · simp
  · have hFirst : c.isDigit = true := hDigits c (by simp)
    have hNe : c ≠ '-' := by
      rintro rfl
      exact absurd hFirst (by decide)
    simpa using hNe

/-- A written whole number reads as itself. -/
theorem number?_writeInteger (n : Int) {rest : Text} (hStop : StopsAt continuesNumber rest) :
    number? (writeInteger n ++ rest) = some (.integer n, rest) := by
  have hWhole := isWhole_toDigits n.natAbs
  unfold writeInteger
  split_ifs with hNeg
  · rw [List.cons_append, number?, magnitude?_whole hWhole hStop, ofDigits_toDigits]
    rw [if_pos rfl, show -(n.natAbs : Int) = n by omega]
  · rw [number?_of_stopsAt (hWhole.stopsAt_minus rest), magnitude?_whole hWhole hStop,
      ofDigits_toDigits]
    rw [if_neg (by decide), show (n.natAbs : Int) = n by omega]

/-- The shortest decimal of zero has no exponent. -/
theorem exponent_shortest_of_coefficient {x : Binary64} (h : x.shortest.coefficient = 0) :
    x.shortest.exponent = 0 := by
  have hRead := Binary64.readsBack_shortest x
  rw [Binary64.readsBack, beq_iff_eq, h] at hRead
  have hZero : x = Binary64.zero x.negative := by
    simpa [Binary64.ofDecimal?] using hRead.symm
  have hUnits : x.units = 0 := by
    rw [hZero]
    simp [Binary64.units, Binary64.zero, Binary64.significand, ranksPerStep]
  simp [Binary64.shortest, hUnits]

section

variable {x : Binary64} {rest : Text}

theorem isDigit_of_mem_shortest {c : Char} (h : c ∈ x.shortest.digits) : c.isDigit = true :=
  Nat.isDigit_of_mem_toDigits (by decide) (by decide) h

theorem ofDigits_shortest : ofDigits x.shortest.digits = x.shortest.coefficient :=
  ofDigits_toDigits _

theorem length_shortest_pos : 0 < x.shortest.digits.length :=
  Nat.length_toDigits_pos

theorem readsBack_shifted (zeros : Nat) :
    Binary64.ofDecimal? x.negative (x.shortest.coefficient * 10 ^ zeros)
      (x.shortest.exponent - zeros) = some x := by
  rw [Binary64.ofDecimal?_mul_pow]
  exact beq_iff_eq.mp (Binary64.readsBack_shortest x)

/-- Digits of a whole part stay such when more places or fewer are taken. -/
theorem isWhole_places {places : Nat} (hPlaces : 0 < places)
    (hZero : x.shortest.coefficient = 0 → places = 1) :
    IsWhole (x.shortest.digits.take places ++
      List.replicate (places - x.shortest.digits.length) '0') := by
  rcases Nat.eq_zero_or_pos x.shortest.coefficient with h | h
  · left
    rw [hZero h, Decimal.digits, h, Nat.toDigits_zero]
    rfl
  · right
    obtain ⟨c, more, hDigits, hc⟩ := head_toDigits_ne_zero h
    obtain ⟨fewer, rfl⟩ := Nat.exists_eq_succ_of_ne_zero hPlaces.ne'
    refine ⟨⟨c, more.take fewer ++ List.replicate (fewer.succ - x.shortest.digits.length) '0',
      ?_, hc⟩, ?_⟩
    · rw [Decimal.digits, hDigits]
      rfl
    · intro d hd
      rcases List.mem_append.mp hd with hd | hd
      · exact isDigit_of_mem_shortest (List.mem_of_mem_take hd)
      · exact isDigit_of_mem_replicate hd

theorem magnitude?_point {whole fraction : Text} (hWhole : IsWhole whole)
    (hDigits : ∀ c ∈ fraction, c.isDigit = true) (hNonempty : fraction ≠ [])
    (hStop : StopsAt continuesNumber rest)
    (hValue : Binary64.ofDecimal? x.negative (ofDigits (whole ++ fraction)) (-fraction.length) =
      some x) :
    magnitude? x.negative (whole ++ '.' :: fraction ++ rest) = some (.real x, rest) := by
  have hDigit : StopsAt Char.isDigit rest := hStop.mono fun c h => by simp [continuesNumber, h]
  have hExponent : StopsAt (fun c => c == 'e' || c == 'E') rest :=
    hStop.mono fun c h => by
      rcases Bool.or_eq_true _ _ ▸ h with h | h <;> simp_all [continuesNumber]
  rw [List.append_assoc, List.cons_append]
  exact magnitude?_of_parts (wholePart?_append hWhole (by simp))
    (fractionPart?_append hDigits hNonempty hDigit) (exponentPart?_of_stopsAt hExponent)
    (fun h => absurd h hNonempty) (by simpa using hValue)

/-- A number below one in positional form. -/
theorem magnitude?_writePositional_of_neg (hStop : StopsAt continuesNumber rest)
    (hLead : x.shortest.leadingPower < 0) :
    magnitude? x.negative (writePositional x.shortest.digits x.shortest.leadingPower ++ rest) =
      some (.real x, rest) := by
  have hLength := length_shortest_pos (x := x)
  rw [writePositional, if_pos hLead]
  have hWhole : IsWhole ['0'] := .inl rfl
  apply magnitude?_point hWhole _ _ hStop
  -- Zeros in front do not count, and those behind the point are in the exponent.
  · have hZeros : ['0'] ++ (List.replicate ((-x.shortest.leadingPower).toNat - 1) '0' ++
        x.shortest.digits) =
        List.replicate ((-x.shortest.leadingPower).toNat - 1 + 1) '0' ++ x.shortest.digits := by
      rw [List.replicate_succ]
      rfl
    have hExponent : -(((List.replicate ((-x.shortest.leadingPower).toNat - 1) '0' ++
        x.shortest.digits).length : Nat) : Int) = x.shortest.exponent - (0 : Nat) := by
      rw [List.length_append, List.length_replicate]
      unfold Decimal.leadingPower at hLead ⊢
      omega
    have hRead := readsBack_shifted (x := x) 0
    rw [hZeros, ofDigits_zeros_append, ofDigits_shortest, hExponent]
    rwa [Nat.pow_zero, Nat.mul_one] at hRead
  · intro c hc
    rcases List.mem_append.mp hc with h | h
    · exact isDigit_of_mem_replicate h
    · exact isDigit_of_mem_shortest h
  · intro h
    rw [(List.append_eq_nil_iff.mp h).2] at hLength
    cases hLength

/-- A number from one on in positional form. -/
theorem magnitude?_writePositional_of_nonneg (hStop : StopsAt continuesNumber rest)
    (hLead : 0 ≤ x.shortest.leadingPower) :
    magnitude? x.negative (writePositional x.shortest.digits x.shortest.leadingPower ++ rest) =
      some (.real x, rest) := by
  have hLength := length_shortest_pos (x := x)
  have hZero (h : x.shortest.coefficient = 0) : x.shortest.leadingPower.toNat + 1 = 1 := by
    have hExponent := exponent_shortest_of_coefficient h
    simp [Decimal.leadingPower, Decimal.digits, h, hExponent]
  have hWhole := isWhole_places (Nat.succ_pos _) hZero
  rw [writePositional, if_neg (by omega)]
  dsimp only
  by_cases hFraction : (x.shortest.digits.drop (x.shortest.leadingPower.toNat + 1)).isEmpty = true
  -- All digits stand before the point, with zeros to fill up, and one zero stands behind it.
  · have hShort : x.shortest.digits.length ≤ x.shortest.leadingPower.toNat + 1 := by
      simpa using hFraction
    rw [if_pos hFraction]
    apply magnitude?_point hWhole _ _ hStop
    · rw [List.take_of_length_le hShort, List.append_assoc, ← List.replicate_succ',
        ofDigits_append_zeros, ofDigits_shortest]
      have hExponent : -((['0'].length : Nat) : Int) = x.shortest.exponent -
          (x.shortest.leadingPower.toNat + 1 - x.shortest.digits.length + 1 : Nat) := by
        rw [List.length_singleton]
        unfold Decimal.leadingPower at hLead hShort ⊢
        omega
      rw [hExponent]
      exact readsBack_shifted _
    · simp
    · simp
  -- The point splits the digits.
  · have hLong : x.shortest.leadingPower.toNat + 1 < x.shortest.digits.length := by
      simpa using hFraction
    rw [if_neg hFraction]
    apply magnitude?_point hWhole _ _ hStop
    · rw [Nat.sub_eq_zero_of_le hLong.le, List.replicate_zero, List.append_nil,
        List.take_append_drop, ofDigits_shortest, List.length_drop]
      have hExponent : -((x.shortest.digits.length - (x.shortest.leadingPower.toNat + 1) : Nat) : Int) =
          x.shortest.exponent - (0 : Nat) := by
        unfold Decimal.leadingPower at hLead hLong ⊢
        omega
      have hRead := readsBack_shifted (x := x) 0
      rw [hExponent]
      rwa [Nat.pow_zero, Nat.mul_one] at hRead
    · intro c hc
      exact isDigit_of_mem_shortest (List.mem_of_mem_drop hc)
    · intro h
      exact hFraction (by simp [h])

/-- A number in scientific form. -/
theorem magnitude?_writeScientific (exponentDigits : Nat) (hStop : StopsAt continuesNumber rest) :
    magnitude? x.negative
      (writeScientific exponentDigits x.shortest.digits x.shortest.leadingPower ++ rest) =
      some (.real x, rest) := by
  have hDigit : StopsAt Char.isDigit rest := hStop.mono fun c h => by simp [continuesNumber, h]
  have hLength := length_shortest_pos (x := x)
  have hWhole : IsWhole (x.shortest.digits.take 1) := by
    simpa [Nat.sub_eq_zero_of_le hLength] using isWhole_places (x := x) Nat.one_pos fun _ => rfl
  have hExponent := exponentPart?_append
    (exponentDigits - (Nat.toDigits 10 x.shortest.leadingPower.natAbs).length)
    x.shortest.leadingPower hDigit
  have hValue : Binary64.ofDecimal? x.negative
      (ofDigits (x.shortest.digits.take 1 ++ x.shortest.digits.drop 1))
      (x.shortest.leadingPower - (x.shortest.digits.drop 1).length) = some x := by
    have hRead := readsBack_shifted (x := x) 0
    have hPower : x.shortest.leadingPower - ((x.shortest.digits.drop 1).length : Nat) =
        x.shortest.exponent - (0 : Nat) := by
      rw [List.length_drop]
      unfold Decimal.leadingPower
      omega
    rw [List.take_append_drop, ofDigits_shortest, hPower]
    rwa [Nat.pow_zero, Nat.mul_one] at hRead
  unfold writeScientific
  dsimp only
  by_cases hFraction : (x.shortest.digits.drop 1).isEmpty = true
  · have hNil : x.shortest.digits.drop 1 = [] := by simpa using hFraction
    rw [if_pos hFraction]
    rw [hNil] at hValue
    simp only [List.append_assoc, List.cons_append, List.nil_append] at hExponent ⊢
    exact magnitude?_of_parts (wholePart?_append hWhole (by simp))
      (fractionPart?_of_stopsAt (by simp)) hExponent (fun _ => by simp) hValue
  · have hNonempty : x.shortest.digits.drop 1 ≠ [] := by simpa using hFraction
    rw [if_neg hFraction]
    simp only [List.append_assoc, List.cons_append] at hExponent ⊢
    exact magnitude?_of_parts (wholePart?_append hWhole (by simp))
      (fractionPart?_append (fun c hc => isDigit_of_mem_shortest (List.mem_of_mem_drop hc)) hNonempty
        (by simp)) hExponent (fun _ => by simp) hValue

/-- The text of a number without its sign. -/
def realBody (format : RealFormat) (x : Binary64) : Text :=
  if format.leastPositional ≤ x.shortest.leadingPower &&
      x.shortest.leadingPower < format.leastScientific then
    writePositional x.shortest.digits x.shortest.leadingPower
  else writeScientific format.exponentDigits x.shortest.digits x.shortest.leadingPower

theorem writeReal_eq (format : RealFormat) (x : Binary64) :
    writeReal format x = if x.negative then '-' :: realBody format x else realBody format x := rfl

theorem magnitude?_realBody (format : RealFormat) (hStop : StopsAt continuesNumber rest) :
    magnitude? x.negative (realBody format x ++ rest) = some (.real x, rest) := by
  unfold realBody
  split_ifs
  · rcases Int.lt_or_le x.shortest.leadingPower 0 with hLead | hLead
    · exact magnitude?_writePositional_of_neg hStop hLead
    · exact magnitude?_writePositional_of_nonneg hStop hLead
  · exact magnitude?_writeScientific _ hStop

/-- The text of a number without its sign starts with a digit. -/
theorem head_realBody (format : RealFormat) (x : Binary64) :
    ∃ c more, realBody format x = c :: more ∧ c.isDigit = true := by
  obtain ⟨c, more, hDigits⟩ := List.exists_cons_of_length_pos (length_shortest_pos (x := x))
  have hc : c.isDigit = true := isDigit_of_mem_shortest (x := x) (by simp [hDigits])
  unfold realBody
  split_ifs
  · unfold writePositional
    split_ifs
    · exact ⟨'0', _, rfl, by decide⟩
    · exact ⟨c, _, by simp [hDigits]; rfl, hc⟩
  · exact ⟨c, _, by simp [writeScientific, hDigits]; rfl, hc⟩

/-- A written floating-point number reads as itself, in every format. -/
theorem number?_writeReal (format : RealFormat) (x : Binary64)
    (hStop : StopsAt continuesNumber rest) :
    number? (writeReal format x ++ rest) = some (.real x, rest) := by
  have hBody := magnitude?_realBody (x := x) format hStop
  rw [writeReal_eq]
  cases hSign : x.negative with
  | true =>
      rw [hSign] at hBody
      rw [if_pos rfl, List.cons_append, number?, hBody]
  | false =>
      obtain ⟨c, more, hText, hc⟩ := head_realBody format x
      have hNe : c ≠ '-' := by
        rintro rfl
        exact absurd hc (by decide)
      rw [hSign] at hBody
      rw [if_neg (by decide), number?_of_stopsAt, hBody]
      rw [hText]
      simpa using hNe

end

end Wireframe.Value
