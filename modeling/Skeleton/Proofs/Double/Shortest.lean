import Mathlib
import Skeleton.Double.Shortest

-- The shortest decimal of a double rounds to that double, and to no other.

namespace Skeleton.Double

section Powers

theorem powerOfTwo_eq (e : Int) : ((powerOfTwo e).1 : ℚ) / (powerOfTwo e).2 = 2 ^ e := by
  unfold powerOfTwo
  split
  · rename_i h
    obtain ⟨n, rfl⟩ := Int.eq_ofNat_of_zero_le h
    simp [Nat.shiftLeft_eq]
  · rename_i h
    obtain ⟨n, hn⟩ := Int.eq_ofNat_of_zero_le (show 0 ≤ -e by omega)
    obtain rfl : e = -n := by omega
    simp [Nat.shiftLeft_eq]

theorem powerOfTwo_pos (e : Int) : 0 < (powerOfTwo e).1 ∧ 0 < (powerOfTwo e).2 := by
  unfold powerOfTwo
  split <;> simp [Nat.shiftLeft_eq]

theorem powerOfTen_eq (p : Int) : ((powerOfTen p).1 : ℚ) / (powerOfTen p).2 = 10 ^ p := by
  unfold powerOfTen
  split
  · rename_i h
    obtain ⟨n, rfl⟩ := Int.eq_ofNat_of_zero_le h
    simp
  · rename_i h
    obtain ⟨n, hn⟩ := Int.eq_ofNat_of_zero_le (show 0 ≤ -p by omega)
    obtain rfl : p = -n := by omega
    simp

theorem powerOfTen_pos (p : Int) : 0 < (powerOfTen p).1 ∧ 0 < (powerOfTen p).2 := by
  unfold powerOfTen
  split <;> simp [Nat.pow_eq]

-- The quotient of 93 or 94 to 28 is next to the logarithm of ten to the base two.
theorem ten_zpow_le_two_zpow {p s : Int} (hbelow : 93 * p ≤ 28 * s) (habove : 94 * p ≤ 28 * s) :
    (10 : ℚ) ^ p ≤ 2 ^ s := by
  have hpower : ((10 : ℚ) ^ 28) ^ p ≤ (2 ^ s) ^ 28 := by
    have htarget : ((2 : ℚ) ^ s) ^ 28 = 2 ^ (28 * s) := by
      rw [← zpow_natCast, ← zpow_mul, mul_comm]
      rfl
    rw [htarget]
    rcases le_or_gt 0 p with hp | hp
    · calc ((10 : ℚ) ^ 28) ^ p ≤ (2 ^ 94) ^ p := zpow_le_zpow_left₀ hp (by positivity) (by norm_num)
        _ = 2 ^ (94 * p) := by rw [zpow_mul]; norm_cast
        _ ≤ 2 ^ (28 * s) := zpow_le_zpow_right₀ one_le_two habove
    · obtain ⟨n, hn⟩ := Int.eq_ofNat_of_zero_le (show 0 ≤ -p by omega)
      obtain rfl : p = -n := by omega
      calc ((10 : ℚ) ^ 28) ^ (-(n : Int)) ≤ (2 ^ 93) ^ (-(n : Int)) := by
            rw [zpow_neg, zpow_neg, zpow_natCast, zpow_natCast]
            gcongr
            norm_num
        _ = 2 ^ (93 * -(n : Int)) := by rw [zpow_mul]; norm_cast
        _ ≤ 2 ^ (28 * s) := zpow_le_zpow_right₀ one_le_two hbelow
  have hswap : ((10 : ℚ) ^ 28) ^ p = (10 ^ p) ^ 28 := by
    rw [← zpow_natCast, ← zpow_natCast, ← zpow_mul, ← zpow_mul, mul_comm]
  rw [hswap] at hpower
  exact le_of_pow_le_pow_left₀ (by decide) (by positivity) hpower

end Powers

section Rounding

variable {a b d : Double} {x : ℚ}

def quarter (d : Double) : ℚ := 2 ^ (d.scale - 2)

-- The least number that rounds to a double, in quarters. The double below a power of two is nearer.
def lowQuarters (d : Double) : Nat :=
  if d.fraction.val = 0 ∧ 1 < d.exponent.val then 4 * d.significand - 1 else 4 * d.significand - 2

-- The numbers that a double is nearest to. Those half-way to the next are nearest to an even one.
def Rounds (d : Double) (x : ℚ) : Prop :=
  if d.significand % 2 = 0 then
    d.lowQuarters * d.quarter ≤ x ∧ x ≤ (4 * d.significand + 2 : Nat) * d.quarter
  else d.lowQuarters * d.quarter < x ∧ x < (4 * d.significand + 2 : Nat) * d.quarter

theorem quarter_pos (d : Double) : 0 < d.quarter := by
  unfold quarter
  positivity

theorem significand_lt (d : Double) : d.significand < 2 * leadingBit := by
  have hfraction := d.fraction.isLt
  unfold significand
  split <;> omega

theorem leadingBit_le_significand (h : d.exponent ≠ 0) : leadingBit ≤ d.significand := by
  rw [significand, if_neg h]
  exact Nat.le_add_right _ _

theorem significand_pos (h : d.isZero = false) : 0 < d.significand := by
  by_cases hexponent : d.exponent = 0
  · have hfraction : d.fraction ≠ 0 := by simpa [isZero, hexponent] using h
    rw [significand, if_pos hexponent]
    exact Nat.pos_of_ne_zero fun heq => hfraction (Fin.ext heq)
  · exact lt_of_lt_of_le (by decide) (leadingBit_le_significand hexponent)

theorem le_lowQuarters (d : Double) : 4 * d.significand - 2 ≤ d.lowQuarters := by
  unfold lowQuarters
  split <;> omega

theorem Rounds.lower (h : d.Rounds x) : d.lowQuarters * d.quarter ≤ x := by
  unfold Rounds at h
  split at h
  · exact h.1
  · exact h.1.le

theorem Rounds.upper (h : d.Rounds x) : x ≤ (4 * d.significand + 2 : Nat) * d.quarter := by
  unfold Rounds at h
  split at h
  · exact h.2
  · exact h.2.le

-- What rounds to a number of some scale is below the numbers of larger scales.
theorem Rounds.lt (h : d.Rounds x) : x < (4 * (2 * leadingBit) - 2 : Nat) * d.quarter := by
  have hpos := d.quarter_pos
  have hlt := d.significand_lt
  rcases Nat.lt_or_ge (d.significand + 1) (2 * leadingBit) with hsmall | hlarge
  · have hnat : 4 * d.significand + 2 < 4 * (2 * leadingBit) - 2 := by omega
    exact h.upper.trans_lt (by gcongr)
  · have hodd : d.significand % 2 ≠ 0 := by omega
    have hnat : 4 * d.significand + 2 = 4 * (2 * leadingBit) - 2 := by omega
    rw [Rounds, if_neg hodd] at h
    exact hnat ▸ h.2

theorem Rounds.le (h : d.Rounds x) (hexponent : 1 < d.exponent.val) :
    (4 * leadingBit - 1 : Nat) * d.quarter ≤ x := by
  have hpos := d.quarter_pos
  have hbit : leadingBit ≤ d.significand :=
    leadingBit_le_significand fun heq => by simp [heq] at hexponent
  have hnat : 4 * leadingBit - 1 ≤ d.lowQuarters := by
    rw [lowQuarters]
    split
    · omega
    · rename_i hfraction
      have hsignificand : d.significand = leadingBit + d.fraction.val := by
        rw [significand, if_neg fun heq => by simp [heq] at hexponent]
      omega
  exact le_trans (by gcongr) h.lower

theorem not_rounds_of_scale_lt (hscale : a.scale < b.scale) (ha : a.Rounds x) : ¬ b.Rounds x := by
  intro hb
  have hexponent : 1 < b.exponent.val := by
    unfold scale at hscale
    split at hscale <;> split at hscale <;> omega
  have hquarter : 2 * a.quarter ≤ b.quarter := by
    calc 2 * a.quarter = 2 ^ (a.scale - 2 + 1) := by
          rw [quarter, zpow_add_one₀ two_ne_zero, mul_comm]
      _ ≤ b.quarter := zpow_le_zpow_right₀ one_le_two (by omega)
  have hlt := ha.lt
  have hle := hb.le hexponent
  have hnat : ((4 * (2 * leadingBit) - 2 : Nat) : ℚ) = (4 * leadingBit - 1 : Nat) * 2 := by
    norm_num [leadingBit]
  have hchain : (4 * leadingBit - 1 : Nat) * (2 * a.quarter) ≤
      (4 * leadingBit - 1 : Nat) * b.quarter := by
    gcongr
  rw [hnat] at hlt
  linarith

theorem not_rounds_of_significand_lt (hscale : a.scale = b.scale)
    (hsignificand : a.significand < b.significand) (ha : a.Rounds x) : ¬ b.Rounds x := by
  intro hb
  have hpos := a.quarter_pos
  have hquarter : b.quarter = a.quarter := by rw [quarter, quarter, hscale]
  have hlow : 4 * a.significand + 2 ≤ b.lowQuarters :=
    le_trans (by omega) b.le_lowQuarters
  have hchain : (4 * a.significand + 2 : Nat) * a.quarter ≤ b.lowQuarters * b.quarter := by
    rw [hquarter]
    gcongr
  have hupper := ha.upper
  have hlower := hb.lower
  -- one of two neighbours is odd, and what is half-way rounds to the other
  rcases Nat.lt_or_ge (a.significand + 1) b.significand with hapart | hnext
  · have hstrict : (4 * a.significand + 2 : Nat) * a.quarter < b.lowQuarters * b.quarter := by
      have hlow : 4 * a.significand + 2 < b.lowQuarters :=
        lt_of_lt_of_le (by omega) b.le_lowQuarters
      rw [hquarter]
      gcongr
    linarith
  · rcases Nat.mod_two_eq_zero_or_one a.significand with heven | hodd
    · rw [Rounds, if_neg (by omega)] at hb
      linarith [hb.1]
    · rw [Rounds, if_neg (by omega)] at ha
      linarith [ha.2]

theorem eq_of_scale_of_significand (hscale : a.scale = b.scale)
    (hsignificand : a.significand = b.significand) :
    a.exponent = b.exponent ∧ a.fraction = b.fraction := by
  have ha := a.fraction.isLt
  have hb := b.fraction.isLt
  simp only [scale, significand, Fin.ext_iff, Fin.val_zero] at hscale hsignificand ⊢
  split at hscale <;> split at hscale <;> simp_all <;> omega

-- No number rounds to two doubles, but for their signs.
theorem eq_of_rounds (ha : a.Rounds x) (hb : b.Rounds x) :
    a.exponent = b.exponent ∧ a.fraction = b.fraction := by
  have hscale : a.scale = b.scale := by
    rcases lt_trichotomy a.scale b.scale with hlt | heq | hgt
    · exact absurd hb (not_rounds_of_scale_lt hlt ha)
    · exact heq
    · exact absurd ha (not_rounds_of_scale_lt hgt hb)
  have hsignificand : a.significand = b.significand := by
    rcases lt_trichotomy a.significand b.significand with hlt | heq | hgt
    · exact absurd hb (not_rounds_of_significand_lt hscale hlt ha)
    · exact heq
    · exact absurd ha (not_rounds_of_significand_lt hscale.symm hgt hb)
  exact eq_of_scale_of_significand hscale hsignificand

-- Numbers that round to a double other than zero are not zero.
theorem Rounds.pos (h : d.Rounds x) (hzero : d.isZero = false) : 0 < x := by
  have hpos := d.quarter_pos
  have hsignificand := significand_pos hzero
  have hlow : 0 < d.lowQuarters := lt_of_lt_of_le (by omega) d.le_lowQuarters
  exact lt_of_lt_of_le (by positivity) h.lower

end Rounding

section Grids

variable {d : Double} {p : Int} {k : Nat} {tie : Tie} {dec : Decimal}

def Decimal.value (d : Decimal) : ℚ := d.digits * 10 ^ d.point

def gridStep (d : Double) (p : Int) : Nat := (powerOfTen p).1 * (powerOfTwo (d.scale - 2)).2

def gridQuarter (d : Double) (p : Int) : Nat := (powerOfTwo (d.scale - 2)).1 * (powerOfTen p).2

def gridBelow (d : Double) (p : Int) : Nat := 4 * d.significand * d.gridQuarter p / d.gridStep p

def isInside (d : Double) (p : Int) (k : Nat) : Bool :=
  if d.significand % 2 == 0 then
    d.lowQuarters * d.gridQuarter p ≤ k * d.gridStep p &&
      k * d.gridStep p ≤ (4 * d.significand + 2) * d.gridQuarter p
  else
    d.lowQuarters * d.gridQuarter p < k * d.gridStep p &&
      k * d.gridStep p < (4 * d.significand + 2) * d.gridQuarter p

def gridNearest (tie : Tie) (d : Double) (p : Int) : Nat :=
  let below := d.gridBelow p
  let fromBelow := 4 * d.significand * d.gridQuarter p - below * d.gridStep p
  let toAbove := (below + 1) * d.gridStep p - 4 * d.significand * d.gridQuarter p
  if fromBelow < toAbove then below
  else if toAbove < fromBelow then below + 1
  else
    match tie with
    | .up => below + 1
    | .even => if below % 2 = 0 then below else below + 1

theorem onGrid?_eq (tie : Tie) (d : Double) (p : Int) : onGrid? tie d p =
    if d.isInside p (d.gridBelow p) && d.isInside p (d.gridBelow p + 1) then
      some ⟨gridNearest tie d p, p⟩
    else if d.isInside p (d.gridBelow p) then some ⟨d.gridBelow p, p⟩
    else if d.isInside p (d.gridBelow p + 1) then some ⟨d.gridBelow p + 1, p⟩
    else none := rfl

theorem gridNearest_eq (tie : Tie) (d : Double) (p : Int) :
    gridNearest tie d p = d.gridBelow p ∨ gridNearest tie d p = d.gridBelow p + 1 := by
  unfold gridNearest
  cases tie <;> grind

theorem gridStep_pos (d : Double) (p : Int) : 0 < d.gridStep p :=
  Nat.mul_pos (powerOfTen_pos p).1 (powerOfTwo_pos _).2

theorem gridQuarter_pos (d : Double) (p : Int) : 0 < d.gridQuarter p :=
  Nat.mul_pos (powerOfTwo_pos _).1 (powerOfTen_pos p).2

-- The length that steps and quarters are counted in.
theorem exists_length (d : Double) (p : Int) : ∃ length : ℚ, 0 < length ∧
    (10 : ℚ) ^ p = d.gridStep p * length ∧ d.quarter = d.gridQuarter p * length := by
  have hb : (0 : ℚ) < (powerOfTwo (d.scale - 2)).2 := by exact_mod_cast (powerOfTwo_pos _).2
  have he : (0 : ℚ) < (powerOfTen p).2 := by exact_mod_cast (powerOfTen_pos p).2
  refine ⟨((powerOfTen p).2 * (powerOfTwo (d.scale - 2)).2)⁻¹, by positivity, ?_, ?_⟩
  · rw [← powerOfTen_eq, gridStep]
    push_cast
    field_simp
  · rw [quarter, ← powerOfTwo_eq, gridQuarter]
    push_cast
    field_simp

theorem isInside_iff : d.isInside p k = true ↔ d.Rounds (k * 10 ^ p) := by
  obtain ⟨length, hlength, hstep, hquarter⟩ := exists_length d p
  have hle (m n : Nat) : (m : ℚ) * length ≤ n * length ↔ m ≤ n := by
    rw [mul_le_mul_iff_of_pos_right hlength, Nat.cast_le]
  have hlt (m n : Nat) : (m : ℚ) * length < n * length ↔ m < n := by
    rw [mul_lt_mul_iff_of_pos_right hlength, Nat.cast_lt]
  rw [isInside, Rounds, hstep, hquarter, ← mul_assoc, ← mul_assoc, ← mul_assoc]
  by_cases heven : d.significand % 2 = 0
  · rw [if_pos (by simpa using heven), if_pos heven, Bool.and_eq_true, decide_eq_true_eq,
      decide_eq_true_eq]
    norm_cast
    rw [hle, hle]
  · rw [if_neg (by simpa using heven), if_neg heven, Bool.and_eq_true, decide_eq_true_eq,
      decide_eq_true_eq]
    norm_cast
    rw [hlt, hlt]

theorem rounds_of_onGrid? (h : onGrid? tie d p = some dec) : d.Rounds dec.value := by
  rw [onGrid?_eq] at h
  split at h
  · rename_i hboth
    obtain ⟨hbelow, habove⟩ := Bool.and_eq_true_iff.mp hboth
    obtain rfl := Option.some.inj h
    rcases gridNearest_eq tie d p with heq | heq
    · exact isInside_iff.mp (heq ▸ hbelow)
    · exact isInside_iff.mp (heq ▸ habove)
  · split at h
    · rename_i hbelow
      obtain rfl := Option.some.inj h
      exact isInside_iff.mp hbelow
    · split at h
      · rename_i habove
        obtain rfl := Option.some.inj h
        exact isInside_iff.mp habove
      · cases h

-- A grid whose steps are not longer than a quarter of the last place has a point that rounds.
theorem isInside_gridBelow (hzero : d.isZero = false) (hfine : (10 : ℚ) ^ p ≤ d.quarter) :
    d.isInside p (d.gridBelow p) = true := by
  obtain ⟨length, hlength, hstep, hquarter⟩ := exists_length d p
  have hfine : d.gridStep p ≤ d.gridQuarter p := by
    rw [hstep, hquarter, mul_le_mul_iff_of_pos_right hlength] at hfine
    exact_mod_cast hfine
  have hquarter := d.gridQuarter_pos p
  have hlower : d.lowQuarters * d.gridQuarter p < d.gridBelow p * d.gridStep p := by
    have habove : 4 * d.significand * d.gridQuarter p < (d.gridBelow p + 1) * d.gridStep p := by
      rw [Nat.mul_comm (d.gridBelow p + 1)]
      exact Nat.lt_mul_div_succ _ (d.gridStep_pos p)
    have hlow : d.lowQuarters + 1 ≤ 4 * d.significand := by
      have hpos := significand_pos hzero
      unfold lowQuarters
      split <;> omega
    have hnext : (d.lowQuarters + 1) * d.gridQuarter p ≤ 4 * d.significand * d.gridQuarter p :=
      Nat.mul_le_mul_right _ hlow
    rw [Nat.add_mul, Nat.one_mul] at hnext habove
    omega
  have hupper : d.gridBelow p * d.gridStep p < (4 * d.significand + 2) * d.gridQuarter p := by
    have hbelow : d.gridBelow p * d.gridStep p ≤ 4 * d.significand * d.gridQuarter p :=
      Nat.div_mul_le_self _ _
    rw [Nat.add_mul]
    omega
  unfold isInside
  split
  · simp [hlower.le, hupper.le]
  · simp [hlower, hupper]

-- The finest grid is fine enough for any double.
theorem finest_le_quarter (hfinite : d.isFinite = true) :
    (10 : ℚ) ^ (d.decimalCeiling - 23) ≤ d.quarter := by
  have hlog : d.significand.log2 ≤ 52 := by
    have hlt : d.significand < 2 ^ 53 := d.significand_lt
    rcases Nat.eq_zero_or_pos d.significand with heq | hpos
    · simp [heq]
    · exact Nat.lt_succ_iff.mp ((Nat.log2_lt hpos.ne').mpr hlt)
  have hscale : -1074 ≤ d.scale ∧ d.scale ≤ 971 := by
    have hexponent : d.exponent.val ≠ 2047 := by
      simpa [isFinite, Fin.ext_iff] using hfinite
    have hlt := d.exponent.isLt
    unfold scale
    split <;> omega
  refine ten_zpow_le_two_zpow ?_ ?_ <;> unfold decimalCeiling <;> omega

-- The shortest decimal of a double rounds to it.
theorem rounds_shortest (hfinite : d.isFinite = true) (hzero : d.isZero = false) (tie : Tie) :
    d.Rounds (d.shortest tie).value := by
  have hfinest := isInside_gridBelow hzero (finest_le_quarter hfinite)
  have hfound : (onGrid? tie d (d.decimalCeiling - 23)).isSome = true := by
    rw [onGrid?_eq, hfinest]
    cases d.isInside (d.decimalCeiling - 23) (d.gridBelow (d.decimalCeiling - 23) + 1) <;> rfl
  have hsome : (((List.range 24).map fun i : Nat => d.decimalCeiling - (i : Int)).findSome?
      (onGrid? tie d)).isSome = true := by
    rw [List.findSome?_isSome_iff]
    exact ⟨_, List.mem_map.mpr ⟨23, by decide, rfl⟩, hfound⟩
  obtain ⟨dec, hdec⟩ := Option.isSome_iff_exists.mp hsome
  obtain ⟨p, -, hp⟩ := List.exists_of_findSome?_eq_some hdec
  rw [shortest, hdec]
  exact rounds_of_onGrid? hp

-- Doubles that are not the same number have different shortest decimals.
theorem eq_of_shortest {a b : Double} (ha : a.isFinite = true) (hb : b.isFinite = true)
    (hazero : a.isZero = false) (hbzero : b.isZero = false)
    (h : (a.shortest tie).value = (b.shortest tie).value) :
    a.exponent = b.exponent ∧ a.fraction = b.fraction :=
  eq_of_rounds (rounds_shortest ha hazero tie) (h ▸ rounds_shortest hb hbzero tie)

end Grids

end Skeleton.Double
