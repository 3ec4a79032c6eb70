import Skeleton.Proofs.Double.Layout
import Skeleton.Proofs.Double.Nearest

-- The text of a double is read as that double.

namespace Skeleton.Double

section Decimals

variable {d : Double} {dec : Decimal}

theorem two_zpow_le_ten_zpow {p : Int} (hp : 0 ≤ p) : (2 : ℚ) ^ (3 * p) ≤ 10 ^ p := by
  rw [zpow_mul]
  exact zpow_le_zpow_left₀ hp (by norm_num) (by norm_num)

-- Decimals with a power of ten that is very large are above all that rounds to a finite double.
theorem overflow_le_value (hdigits : dec.digits ≠ 0) (hpoint : 400 < dec.point) :
    overflow ≤ dec.value := by
  have hone : (1 : ℚ) ≤ dec.digits := by exact_mod_cast Nat.one_le_iff_ne_zero.mpr hdigits
  calc overflow ≤ (2 * leadingBit : Nat) * 2 ^ (971 : Int) :=
        mul_le_mul_of_nonneg_right (sub_le_self _ (by norm_num)) (by positivity)
    _ = (2 : ℚ) ^ (53 : Int) * 2 ^ (971 : Int) := by norm_num
    _ = (2 : ℚ) ^ (1024 : Int) := by
        rw [← zpow_add₀ two_ne_zero]
        norm_num
    _ ≤ 2 ^ (3 * dec.point) := zpow_le_zpow_right₀ one_le_two (by omega)
    _ ≤ 10 ^ dec.point := two_zpow_le_ten_zpow (by omega)
    _ ≤ dec.digits * 10 ^ dec.point := le_mul_of_one_le_left (by positivity) hone

-- Those with a very small one are below all that rounds to a double other than zero.
theorem value_lt_of_point (hpoint : dec.point + (dec.digits.log2 / 3 : Nat) + 1 < -400) :
    dec.value < 2 ^ (-1200 : Int) := by
  have hdigits : (dec.digits : ℚ) < 10 ^ ((dec.digits.log2 / 3 : Nat) + 1 : Int) := by
    calc (dec.digits : ℚ) < 2 ^ ((dec.digits.log2 : Int) + 1) := by
          rw [← Nat.cast_succ, zpow_natCast]
          exact_mod_cast Nat.lt_log2_self
      _ ≤ 2 ^ (3 * ((dec.digits.log2 / 3 : Nat) + 1 : Int)) :=
          zpow_le_zpow_right₀ one_le_two (by omega)
      _ ≤ 10 ^ ((dec.digits.log2 / 3 : Nat) + 1 : Int) := two_zpow_le_ten_zpow (by omega)
  rw [add_assoc] at hpoint
  generalize ((dec.digits.log2 / 3 : Nat) + 1 : Int) = length at hdigits hpoint
  obtain ⟨k, hk⟩ : ∃ k, k = -(length + dec.point) := ⟨_, rfl⟩
  calc dec.value < 10 ^ length * 10 ^ dec.point := by
        rw [Decimal.value]
        gcongr
    _ = (10 ^ k)⁻¹ := by
        rw [← zpow_add₀ (by norm_num), ← zpow_neg, hk, neg_neg]
    _ ≤ (2 ^ (3 * k))⁻¹ := by
        have hpower := two_zpow_le_ten_zpow (show 0 ≤ k by omega)
        gcongr
    _ = 2 ^ (-(3 * k)) := (zpow_neg _ _).symm
    _ ≤ 2 ^ (-1200 : Int) := zpow_le_zpow_right₀ one_le_two (by omega)

theorem Rounds.least_le {x : ℚ} (h : d.Rounds x) (hzero : d.isZero = false) :
    (2 : ℚ) ^ (-1200 : Int) ≤ x := by
  have hscale : -1074 ≤ d.scale := by
    unfold scale
    split <;> omega
  have hlow : 1 ≤ d.lowQuarters :=
    le_trans (by have := significand_pos hzero; omega) d.le_lowQuarters
  have hone : (1 : ℚ) ≤ d.lowQuarters := by exact_mod_cast hlow
  calc (2 : ℚ) ^ (-1200 : Int) ≤ d.quarter := zpow_le_zpow_right₀ one_le_two (by omega)
    _ ≤ d.lowQuarters * d.quarter := le_mul_of_one_le_left d.quarter_pos.le hone
    _ ≤ x := h.lower

-- A decimal that rounds to a finite double other than zero is read as that double.
theorem ofDecimal_of_rounds (hfinite : d.isFinite = true) (hzero : d.isZero = false)
    (h : d.Rounds dec.value) : ofDecimal d.negative dec.digits dec.point = d := by
  have hdigits : dec.digits ≠ 0 := by
    intro heq
    have hpos := h.pos hzero
    simp [Decimal.value, heq] at hpos
  have hlarge : ¬ 400 < dec.point := fun hpoint =>
    absurd (h.lt_overflow hfinite) (not_lt.mpr (overflow_le_value hdigits hpoint))
  have hsmall : ¬ dec.point + (dec.digits.log2 / 3 : Nat) + 1 < -400 := fun hpoint =>
    absurd (h.least_le hzero) (not_le.mpr (value_lt_of_point hpoint))
  have hpos := Nat.pos_of_ne_zero hdigits
  rw [ofDecimal, if_neg hdigits, if_neg hlarge, if_neg hsmall]
  split
  · rename_i hpoint
    obtain ⟨k, hk⟩ := Int.eq_ofNat_of_zero_le hpoint
    refine ofQuotient_of_rounds (Nat.mul_pos hpos (Nat.pow_pos (by decide))) Nat.one_pos hfinite ?_
    rw [Decimal.value, hk, zpow_natCast] at h
    rw [hk]
    simpa using h
  · rename_i hpoint
    obtain ⟨k, hk⟩ := Int.eq_ofNat_of_zero_le (show 0 ≤ -dec.point by omega)
    refine ofQuotient_of_rounds hpos (Nat.pow_pos (by decide)) hfinite ?_
    rw [Decimal.value, show dec.point = -(k : Int) by omega, zpow_neg, zpow_natCast] at h
    rw [hk]
    simpa [div_eq_mul_inv] using h

end Decimals

section Texts

variable {d : Double} {c : Char} {cs : List Char} {negative : Bool}

theorem readUnsigned?_of_isDigit (hc : Text.isDigit c = true) : readUnsigned? negative (c :: cs) =
    (readDecimal? (c :: cs)).map fun dec => ofDecimal negative dec.digits dec.point := by
  have hwhole : ((c :: cs).takeWhile Text.isDigit).isEmpty = false := by
    rw [List.takeWhile_cons, if_pos hc]
    rfl
  have hsplit : readUnsigned? negative (c :: cs) =
      let split := splitFraction ((c :: cs).dropWhile Text.isDigit)
      (readPower? split.2).bind fun power =>
        (Text.readDigits? 10 0 ((c :: cs).takeWhile Text.isDigit ++ split.1)).bind fun digits =>
          some (ofDecimal negative digits (power - split.1.length)) := by
    simp only [readUnsigned?, hwhole, Bool.false_and, Bool.false_eq_true, if_false]
    rfl
  rw [hsplit, readDecimal?]
  obtain ⟨fraction, rest⟩ := splitFraction ((c :: cs).dropWhile Text.isDigit)
  simp only
  cases readPower? rest <;>
    cases Text.readDigits? 10 0 ((c :: cs).takeWhile Text.isDigit ++ fraction) <;> rfl

theorem readWord?_of_isDigit (hc : Text.isDigit c = true) :
    readWord? negative (c :: cs) = none := by
  have hlower : c.toLower = c := by
    obtain ⟨k, hk, rfl⟩ := Text.digit_of_isDigit hc
    interval_cases k <;> decide
  have hword (word : String) (h : word.toList.head?.all (fun d => Text.isDigit d = false) = true) :
      String.ofList ((c :: cs).map Char.toLower) ≠ word := by
    rintro rfl
    rw [String.toList_ofList, List.map_cons, hlower] at h
    simp [hc] at h
  simp only [readWord?, hword "inf" (by decide +kernel), hword "infinity" (by decide +kernel),
    hword "nan" (by decide +kernel), or_self, if_false]

theorem ofText?_of_isDigit {s : String} (hs : s.toList = (if negative then ['-'] else []) ++ c :: cs)
    (hc : Text.isDigit c = true) : ofText? s =
      (readDecimal? (c :: cs)).map fun dec => ofDecimal negative dec.digits dec.point := by
  rw [← readUnsigned?_of_isDigit hc, ← @Option.none_or _ (readUnsigned? negative (c :: cs)),
    ← @readWord?_of_isDigit c cs negative hc, ofText?, hs]
  cases negative with
  | true => rfl
  | false =>
    simp only [Bool.false_eq_true, if_false, List.nil_append]
    split
    · rename_i heq
      obtain rfl := (List.cons.inj heq).1
      exact absurd hc (by decide)
    · rename_i heq
      obtain rfl := (List.cons.inj heq).1
      exact absurd hc (by decide)
    · rfl

-- The text of a finite double is a sign, or none, and a numeral that starts with a digit.
theorem toList_write_of_isFinite (hfinite : d.isFinite = true) : ∃ c cs,
    Text.isDigit c = true ∧ magnitude Yaml.floatLayout d = c :: cs ∧
      (Yaml.floatLayout.write d).toList = (if d.negative then ['-'] else []) ++ c :: cs := by
  obtain ⟨c, cs, hmagnitude, hc⟩ : ∃ c cs, magnitude Yaml.floatLayout d = c :: cs ∧
      Text.isDigit c = true := by
    rcases magnitude_cases d with ⟨hnan, -⟩ | ⟨-, hinfinite, -⟩ | ⟨-, h⟩
    · simp_all [isNaN, isFinite]
    · simp_all [isInfinite, isFinite]
    · exact h
  have htext := toList_write Yaml.floatLayout d
  rw [isNaN_of_isFinite hfinite, Bool.not_false, Bool.true_and, hmagnitude] at htext
  exact ⟨c, cs, hc, hmagnitude, htext⟩

-- The text of a finite double is read as the double.
theorem ofText?_write (hfinite : d.isFinite = true) :
    ofText? (Yaml.floatLayout.write d) = some d := by
  obtain ⟨read, hread, hvalue⟩ := readDecimal?_magnitude Yaml.floatLayout hfinite
  obtain ⟨c, cs, hc, hmagnitude, htext⟩ := toList_write_of_isFinite hfinite
  rw [hmagnitude] at hread
  rw [ofText?_of_isDigit htext hc, hread, Option.map_some]
  cases hzero : d.isZero with
  | false =>
    rw [hzero] at hvalue
    have hrounds := rounds_shortest hfinite hzero Yaml.floatLayout.tie
    rw [ofDecimal_of_rounds hfinite hzero (hvalue ▸ hrounds)]
  | true =>
    rw [hzero, if_pos rfl, Decimal.value, mul_eq_zero] at hvalue
    have hdigits : read.digits = 0 := by
      exact_mod_cast hvalue.resolve_right (by positivity)
    simp only [isZero, Bool.and_eq_true, beq_iff_eq] at hzero
    rw [ofDecimal, if_pos hdigits, zero]
    cases d
    simp_all

end Texts

end Skeleton.Double
