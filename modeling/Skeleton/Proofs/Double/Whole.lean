import Skeleton.Proofs.Double.Reading

-- Doubles and integers: large doubles are whole numbers, and so are their texts, and small integers
-- have doubles of their own.

namespace Skeleton.Double

section Shortest

variable {d : Double} {p : Int} {tie : Tie} {dec : Decimal}

theorem point_of_onGrid? (h : onGrid? tie d p = some dec) : dec.point = p := by
  rw [onGrid?_eq] at h
  split at h
  · rw [← Option.some.inj h]
  split at h
  · rw [← Option.some.inj h]
  split at h
  · rw [← Option.some.inj h]
  · cases h

-- The whole numbers are a grid that a large double is on, so that no finer grid is needed.
theorem point_shortest (hzero : d.isZero = false) (hscale : 2 ≤ d.scale) :
    0 ≤ (d.shortest tie).point := by
  have hfine : (10 : ℚ) ^ (0 : Int) ≤ d.quarter := by
    rw [zpow_zero, quarter]
    exact one_le_zpow₀ one_le_two (by omega)
  have hwhole : (onGrid? tie d 0).isSome = true := by
    rw [onGrid?_eq, isInside_gridBelow hzero hfine]
    cases d.isInside 0 (d.gridBelow 0 + 1) <;> rfl
  have hceiling : 0 ≤ d.decimalCeiling := by
    unfold decimalCeiling
    omega
  have horder : ((List.range 24).map fun i : Nat => d.decimalCeiling - (i : Int)).Pairwise
      (· > ·) := by
    refine List.pairwise_map.mpr (List.pairwise_lt_range.imp fun h => ?_)
    omega
  rw [shortest]
  cases hfound : ((List.range 24).map fun i : Nat => d.decimalCeiling - (i : Int)).findSome?
      (onGrid? tie d) with
  | none => exact le_rfl
  | some dec =>
    obtain ⟨before, p, after, hgrids, hp, hbefore⟩ := List.findSome?_eq_some_iff.mp hfound
    rw [Option.getD_some, point_of_onGrid? hp]
    by_contra hneg
    have hmem : p ∈ (List.range 24).map fun i : Nat => d.decimalCeiling - (i : Int) := by
      simp [hgrids]
    obtain ⟨i, hi, hpi⟩ := List.mem_map.mp hmem
    have hzeroMem : (0 : Int) ∈ before ++ p :: after := by
      rw [← hgrids]
      refine List.mem_map.mpr ⟨d.decimalCeiling.toNat, ?_, by omega⟩
      rw [List.mem_range] at hi ⊢
      omega
    rw [hgrids] at horder
    have hafter := (List.pairwise_append.mp horder).2.1
    rcases List.mem_append.mp hzeroMem with h | h
    · rw [hbefore 0 h] at hwhole
      cases hwhole
    · rcases List.mem_cons.mp h with h | h
      · exact hneg h.le
      · exact hneg ((List.pairwise_cons.mp hafter).1 0 h).le

end Shortest

section Texts

theorem natDigits_mul_pow {n : Nat} (hn : 0 < n) (k : Nat) :
    Text.natDigits 10 (n * 10 ^ k) = Text.natDigits 10 n ++ List.replicate k '0' := by
  induction k with
  | zero => simp
  | succ k ih =>
    have hpos : 0 < n * 10 ^ k := Nat.mul_pos hn (Nat.pow_pos (by decide))
    have hdigit := Text.natDigits_mul_add (by decide) hpos (show 0 < 10 by decide)
    rw [Nat.add_zero, mul_assoc, ← pow_succ] at hdigit
    rw [hdigit, ih, List.append_assoc, List.replicate_succ']
    rfl

theorem placePoint_of_nonneg {digits : List Char} {point : Int} (hne : digits ≠ [])
    (hpoint : 0 ≤ point) : placePoint digits (digits.length + point) false =
      digits ++ List.replicate point.toNat '0' := by
  have hlength := List.length_pos_iff.mpr hne
  rw [placePoint, if_neg (by omega), if_pos (by omega)]
  have hcount : (digits.length + point).toNat - digits.length = point.toNat := by omega
  simp only [hcount, Bool.false_eq_true, if_false]

theorem decimal_plain {dec : Decimal} (hdigits : 0 < dec.digits) (hpoint : 0 ≤ dec.point) :
    Layout.plain.decimal dec = Text.natDigits 10 (dec.digits * 10 ^ dec.point.toNat) := by
  rw [natDigits_mul_pow hdigits, ← placePoint_of_nonneg (Text.natDigits_ne_nil _) hpoint]
  rfl

-- The text of a large double is the numeral of its shortest decimal, which is a whole number.
theorem text_of_scale {d : Double} (hfinite : d.isFinite = true) (hzero : d.isZero = false)
    (hscale : 2 ≤ d.scale) : ∃ k : Nat, (d.shortest .up).value = k ∧
      d.text = Text.decimalInt (if d.negative then -k else k) := by
  have hpoint := @point_shortest d .up hzero hscale
  have hpos := (rounds_shortest hfinite hzero .up).pos hzero
  have hdigits : 0 < (d.shortest .up).digits := by
    refine Nat.pos_of_ne_zero fun h => ?_
    rw [Decimal.value, h] at hpos
    simp at hpos
  refine ⟨(d.shortest .up).digits * 10 ^ (d.shortest .up).point.toNat, ?_, ?_⟩
  · rw [Decimal.value]
    nth_rewrite 1 [← Int.toNat_of_nonneg hpoint]
    rw [zpow_natCast]
    norm_cast
  · have hmagnitude : magnitude .plain d = _ :=
      (magnitude_of_isFinite .plain hfinite).trans (if_neg (by simp [hzero]))
    have hplain := decimal_plain hdigits hpoint
    have hk : 0 < (d.shortest .up).digits * 10 ^ (d.shortest .up).point.toNat :=
      Nat.mul_pos hdigits (Nat.pow_pos (by decide))
    generalize (d.shortest .up).digits * 10 ^ (d.shortest .up).point.toNat = k at hplain hk
    rw [text, ← String.toList_inj, toList_write, hmagnitude, isNaN_of_isFinite hfinite,
      Text.toList_decimalInt]
    show _ ++ Layout.plain.decimal (d.shortest .up) = _
    rw [hplain]
    cases d.negative with
    | false => simp
    | true => simp [hk]

end Texts

section Integers

variable {n : Int}

theorem two_pow_le_overflow : (2 : ℚ) ^ 64 ≤ overflow := by
  calc (2 : ℚ) ^ 64 = 1 * 2 ^ (64 : Int) := by rw [one_mul]; rfl
    _ ≤ ((2 * leadingBit : Nat) - 1 / 2) * 2 ^ (971 : Int) := by
        have hpower : (2 : ℚ) ^ (64 : Int) ≤ 2 ^ (971 : Int) :=
          zpow_le_zpow_right₀ one_le_two (by decide)
        refine mul_le_mul ?_ hpower (by positivity) ?_ <;> norm_num

theorem rounds_ofInt_or_infinity (hne : n ≠ 0) :
    ((ofInt n).negative = decide (n < 0) ∧ (ofInt n).isFinite = true ∧
      (ofInt n).Rounds n.natAbs) ∨ (overflow ≤ n.natAbs ∧ ofInt n = infinity (n < 0)) := by
  have hspec := @ofQuotient_spec n.natAbs 1 (n < 0) (Int.natAbs_pos.mpr hne) Nat.one_pos
  rwa [Nat.cast_one, div_one] at hspec

-- The double nearest to a large integer is an infinity or a whole number with its sign.
theorem ofInt_spec (h : (2 : ℚ) ^ 60 ≤ n.natAbs) :
    (ofInt n = infinity (n < 0) ∧ overflow ≤ n.natAbs) ∨
      ((ofInt n).isFinite = true ∧ (ofInt n).isZero = false ∧ 2 ≤ (ofInt n).scale ∧
        (ofInt n).negative = decide (n < 0)) := by
  have hne : n ≠ 0 := by
    rintro rfl
    norm_num at h
  rcases rounds_ofInt_or_infinity hne with ⟨hsign, hfinite, hrounds⟩ | ⟨hlarge, hinfinity⟩
  · have hscale : 2 ≤ (ofInt n).scale := by
      by_contra hsmall
      have hquarter : (ofInt n).quarter ≤ 1 := zpow_le_one_of_nonpos₀ one_le_two (by omega)
      have hlt : (n.natAbs : ℚ) < (4 * (2 * leadingBit) - 2 : Nat) * 1 := by
        refine lt_of_lt_of_le hrounds.lt ?_
        gcongr
      norm_num at hlt h
      linarith
    refine .inr ⟨hfinite, ?_, hscale, hsign⟩
    rw [Bool.eq_false_iff]
    intro hzero
    simp only [isZero, Bool.and_eq_true, beq_iff_eq] at hzero
    rw [scale, if_pos hzero.1] at hscale
    cases hscale
  · exact .inl ⟨hinfinity, hlarge⟩

-- Up to `2 ^ 53` a double is nearest to one whole number only.
theorem le_of_rounds {d : Double} {k l : Nat} (hk : d.Rounds k) (hl : d.Rounds l)
    (hbound : l ≤ 2 ^ 53) : l ≤ k := by
  by_contra hlt
  have hnext : (k : ℚ) + 1 ≤ l := by exact_mod_cast Nat.lt_of_not_le hlt
  have hlow : (4 * d.significand - 2 : ℚ) ≤ d.lowQuarters := by
    have hle := d.le_lowQuarters
    rw [Nat.sub_le_iff_le_add] at hle
    have hcast : (4 * d.significand : ℚ) ≤ d.lowQuarters + 2 := by exact_mod_cast hle
    linarith
  have hlower : (4 * d.significand - 2) * d.quarter ≤ k :=
    (mul_le_mul_of_nonneg_right hlow d.quarter_pos.le).trans hk.lower
  have hupper : l ≤ (4 * d.significand + 2) * d.quarter := by exact_mod_cast hl.upper
  rcases lt_trichotomy d.scale 0 with hneg | hzero | hpos
  · have hquarter : d.quarter ≤ 2 ^ (-3 : Int) := zpow_le_zpow_right₀ one_le_two (by omega)
    norm_num at hquarter
    linarith
  · have hquarter : d.quarter = 1 / 4 := by
      rw [quarter, hzero]
      norm_num
    rw [hquarter] at hlower hupper
    have habove : (d.significand : ℚ) < k + 1 := by linarith
    have hbelow : (l : ℚ) < d.significand + 1 := by linarith
    norm_cast at habove hbelow
    omega
  · have hquarter : (2 : ℚ) ^ (-1 : Int) ≤ d.quarter := zpow_le_zpow_right₀ one_le_two (by omega)
    have hexponent : 1 < d.exponent.val := by
      unfold scale at hpos
      split at hpos <;> omega
    have hle : (4 * leadingBit - 1 : Nat) * (2 : ℚ) ^ (-1 : Int) ≤ k :=
      (mul_le_mul_of_nonneg_left hquarter (by positivity)).trans (hk.le hexponent)
    have hbound : (l : ℚ) ≤ 9007199254740992 := by exact_mod_cast hbound
    norm_num at hle
    linarith

theorem isZero_ofInt_iff (n : Int) : (ofInt n).isZero = true ↔ n = 0 := by
  constructor
  · intro hzero
    by_contra hne
    rcases rounds_ofInt_or_infinity hne with ⟨-, -, hrounds⟩ | ⟨-, hinfinity⟩
    · have hfields : (ofInt n).exponent = 0 ∧ (ofInt n).fraction = 0 := by
        simpa [isZero] using hzero
      have hsignificand : (ofInt n).significand = 0 := by
        rw [significand, if_pos hfields.1, hfields.2]
        rfl
      have hquarter : (ofInt n).quarter ≤ 2 ^ (-2 : Int) :=
        zpow_le_zpow_right₀ one_le_two (by rw [scale, if_pos hfields.1]; decide)
      have hupper : (n.natAbs : ℚ) ≤ 2 * (ofInt n).quarter := by
        simpa [hsignificand] using hrounds.upper
      have hone : (1 : ℚ) ≤ n.natAbs := by exact_mod_cast Int.natAbs_pos.mpr hne
      norm_num at hquarter
      linarith
    · rw [hinfinity] at hzero
      cases hzero
  · rintro rfl
    decide

theorem rounds_ofInt (hne : n ≠ 0) (hbound : n.natAbs ≤ 2 ^ 53) :
    (ofInt n).negative = decide (n < 0) ∧ (ofInt n).Rounds n.natAbs := by
  rcases rounds_ofInt_or_infinity hne with ⟨hsign, -, hrounds⟩ | ⟨hlarge, -⟩
  · exact ⟨hsign, hrounds⟩
  · have hsmall : (n.natAbs : ℚ) ≤ 2 ^ 53 := by exact_mod_cast hbound
    have hoverflow : (2 : ℚ) ^ 64 ≤ overflow := two_pow_le_overflow
    norm_num at hlarge hsmall hoverflow
    linarith

-- So integers up to there have doubles of their own.
theorem eq_of_sameNumber_ofInt {m n : Int} (hm : m.natAbs ≤ 2 ^ 53) (hn : n.natAbs ≤ 2 ^ 53)
    (h : (ofInt m).sameNumber (ofInt n) = true) : m = n := by
  simp only [sameNumber, Bool.and_eq_true, Bool.or_eq_true, beq_iff_eq, isZero_ofInt_iff] at h
  rcases h.2 with heq | ⟨rfl, rfl⟩
  · rcases eq_or_ne m 0 with rfl | hmne
    · exact ((isZero_ofInt_iff n).mp (heq ▸ (isZero_ofInt_iff 0).mpr rfl)).symm
    · have hnne : n ≠ 0 := fun hzero =>
        hmne ((isZero_ofInt_iff m).mp (heq ▸ (isZero_ofInt_iff n).mpr hzero))
      obtain ⟨hmsign, hmrounds⟩ := rounds_ofInt hmne hm
      obtain ⟨hnsign, hnrounds⟩ := rounds_ofInt hnne hn
      rw [heq] at hmsign hmrounds
      have hsign : decide (m < 0) = decide (n < 0) := hmsign.symm.trans hnsign
      have habs : m.natAbs = n.natAbs :=
        (le_of_rounds hnrounds hmrounds hm).antisymm (le_of_rounds hmrounds hnrounds hn)
      rw [decide_eq_decide] at hsign
      omega
  · rfl

end Integers

end Skeleton.Double
