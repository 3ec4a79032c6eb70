import Skeleton.Proofs.Double.Shortest

-- The double of a quotient is the one that the quotient rounds to.

namespace Skeleton.Double

section Scales

variable {num den : Nat} {e : Int}

theorem powerOfTwo_le_iff (hden : 0 < den) : den * (powerOfTwo e).1 ≤ num * (powerOfTwo e).2 ↔
    (2 : ℚ) ^ e ≤ num / den := by
  have hden : (0 : ℚ) < den := by exact_mod_cast hden
  have hpower : (0 : ℚ) < (powerOfTwo e).2 := by exact_mod_cast (powerOfTwo_pos e).2
  rw [← powerOfTwo_eq, div_le_div_iff₀ hpower hden, mul_comm den]
  exact_mod_cast Iff.rfl

-- The quotient of two numbers is within a factor of two of that of their powers of two.
theorem log2_bounds (hnum : 0 < num) (hden : 0 < den) :
    (2 : ℚ) ^ ((num.log2 : Int) - den.log2 - 1) ≤ num / den ∧
      (num / den : ℚ) < 2 ^ ((num.log2 : Int) - den.log2 + 1) := by
  have hlow {n : Nat} (hn : 0 < n) : (2 : ℚ) ^ (n.log2 : Int) ≤ n := by
    rw [zpow_natCast]
    exact_mod_cast Nat.log2_self_le hn.ne'
  have hhigh (n : Nat) : (n : ℚ) < 2 ^ ((n.log2 : Int) + 1) := by
    rw [← Nat.cast_succ, zpow_natCast]
    exact_mod_cast Nat.lt_log2_self
  have hpos : (0 : ℚ) < den := by exact_mod_cast hden
  constructor
  · rw [sub_sub, zpow_sub₀ two_ne_zero]
    exact div_le_div₀ (by positivity) (hlow hnum) hpos (hhigh den).le
  · rw [sub_add_eq_add_sub, zpow_sub₀ two_ne_zero]
    exact div_lt_div₀ (hhigh num) (hlow hden) (by positivity) (by positivity)

-- At its scale a quotient has 53 bits before the point, or fewer at the smallest scale.
theorem scaleOf_spec (hnum : 0 < num) (hden : 0 < den) :
    -1074 ≤ scaleOf num den ∧ (num / den : ℚ) < 2 ^ (scaleOf num den + 53) ∧
      (-1074 < scaleOf num den → (2 : ℚ) ^ (scaleOf num den + 52) ≤ num / den) := by
  obtain ⟨hlow, hhigh⟩ := log2_bounds hnum hden
  obtain ⟨floor, hscale, hle, hlt⟩ : ∃ floor : Int, scaleOf num den = max (-1074) (floor - 52) ∧
      (2 : ℚ) ^ floor ≤ num / den ∧ (num / den : ℚ) < 2 ^ (floor + 1) := by
    simp only [scaleOf]
    split
    · rename_i h
      exact ⟨_, rfl, (powerOfTwo_le_iff hden).mp h, hhigh⟩
    · rename_i h
      refine ⟨_, rfl, hlow, ?_⟩
      rw [sub_add_cancel]
      exact not_le.mp fun hle => h ((powerOfTwo_le_iff hden).mpr hle)
  rw [hscale]
  refine ⟨le_max_left _ _, hlt.trans_le (zpow_le_zpow_right₀ one_le_two (by omega)), fun h => ?_⟩
  rwa [show max (-1074) (floor - 52) + 52 = floor by omega]

end Scales

section Rounding

variable {num den m : Nat} {negative : Bool} {e : Int} {d : Double} {x : ℚ}

theorem roundDiv_spec (hden : 0 < den) : 2 * roundDiv num den * den ≤ 2 * num + den ∧
    2 * num ≤ 2 * roundDiv num den * den + den ∧
      (roundDiv num den % 2 = 1 → 2 * roundDiv num den * den < 2 * num + den ∧
        2 * num < 2 * roundDiv num den * den + den) := by
  have hsplit := Nat.div_add_mod num den
  have hless := Nat.mod_lt num hden
  have hdown : 2 * (num / den) * den = 2 * num - 2 * (num % den) := by
    rw [mul_assoc, mul_comm _ den]
    omega
  have hup : 2 * (num / den + 1) * den = 2 * num - 2 * (num % den) + 2 * den := by
    rw [mul_add, add_mul, hdown]
  simp only [roundDiv]
  split
  · rename_i h
    simp only [Bool.or_eq_true, Bool.and_eq_true, decide_eq_true_eq, beq_iff_eq] at h
    rw [hup]
    omega
  · rename_i h
    simp only [Bool.or_eq_true, Bool.and_eq_true, decide_eq_true_eq, beq_iff_eq] at h
    rw [hdown]
    omega

-- That a multiple of a power of two is nearest to a number, an even one of two.
def IsNearest (m : Nat) (e : Int) (x : ℚ) : Prop :=
  (m - 1 / 2 : ℚ) * 2 ^ e ≤ x ∧ x ≤ (m + 1 / 2 : ℚ) * 2 ^ e ∧
    (m % 2 = 1 → (m - 1 / 2 : ℚ) * 2 ^ e < x ∧ x < (m + 1 / 2 : ℚ) * 2 ^ e)

theorem isNearest_roundDiv (hden : 0 < den) (e : Int) :
    IsNearest (roundDiv (num * (powerOfTwo e).2) (den * (powerOfTwo e).1)) e (num / den) := by
  obtain ⟨ha, hb⟩ := powerOfTwo_pos e
  have hdivisor : 0 < den * (powerOfTwo e).1 := Nat.mul_pos hden ha
  obtain ⟨hlow, hhigh, hodd⟩ := @roundDiv_spec (num * (powerOfTwo e).2) _ hdivisor
  have hquotient : (num / den : ℚ) =
      (num * (powerOfTwo e).2 : Nat) / (den * (powerOfTwo e).1 : Nat) * 2 ^ e := by
    rw [← powerOfTwo_eq]
    push_cast
    field_simp
  have hpower : (0 : ℚ) < 2 ^ e := by positivity
  rw [IsNearest, hquotient]
  generalize num * (powerOfTwo e).2 = a at *
  generalize den * (powerOfTwo e).1 = b at *
  generalize roundDiv a b = m at *
  have hb : (0 : ℚ) < b := by exact_mod_cast hdivisor
  simp only [mul_le_mul_iff_left₀ hpower, mul_lt_mul_iff_left₀ hpower, le_div_iff₀ hb,
    div_le_iff₀ hb, lt_div_iff₀ hb, div_lt_iff₀ hb]
  qify at hlow hhigh
  refine ⟨by linarith, by linarith, fun h => ?_⟩
  obtain ⟨hlow, hhigh⟩ := hodd h
  qify at hlow hhigh
  exact ⟨by linarith, by linarith⟩

-- The doubles with a smaller one in front of them that has a smaller scale.
def IsPower (d : Double) : Prop := d.fraction.val = 0 ∧ 1 < d.exponent.val

theorem IsPower.significand (h : d.IsPower) : d.significand = leadingBit := by
  rw [Double.significand, if_neg fun heq => by simp [heq, IsPower] at h, h.1, Nat.add_zero]

theorem IsPower.lt_scale (h : d.IsPower) : -1074 < d.scale := by
  have hexponent := h.2
  rw [scale, if_neg fun heq => by simp [heq, IsPower] at h]
  omega

-- A double rounds what it is nearest to.
theorem rounds_of_isNearest (hsignificand : d.significand = m) (hscale : d.scale = e) (hx : 0 ≤ x)
    (hnearest : IsNearest m e x) (hpower : d.IsPower → (m - 1 / 4 : ℚ) * 2 ^ e ≤ x) :
    d.Rounds x := by
  obtain ⟨hlow, hhigh, hodd⟩ := hnearest
  have hquarter : d.quarter = 2 ^ e / 4 := by
    rw [quarter, hscale, zpow_sub₀ two_ne_zero]
    norm_num
  have hupper : ((4 * m + 2 : Nat) : ℚ) * d.quarter = (m + 1 / 2 : ℚ) * 2 ^ e := by
    rw [hquarter]
    push_cast
    ring
  have hhalf (hm : 0 < m) : ((4 * m - 2 : Nat) : ℚ) * d.quarter = (m - 1 / 2 : ℚ) * 2 ^ e := by
    rw [hquarter, Nat.cast_sub (by omega)]
    push_cast
    ring
  have hfourth (hm : 0 < m) : ((4 * m - 1 : Nat) : ℚ) * d.quarter = (m - 1 / 4 : ℚ) * 2 ^ e := by
    rw [hquarter, Nat.cast_sub (by omega)]
    push_cast
    ring
  rw [Rounds, lowQuarters, hsignificand, hupper]
  rcases Nat.eq_zero_or_pos m with rfl | hm
  · rw [if_pos rfl]
    exact ⟨by simpa using hx, hhigh⟩
  · split
    · refine ⟨?_, hhigh⟩
      split
      · rename_i h
        exact (hfourth hm).trans_le (hpower h)
      · exact (hhalf hm).trans_le hlow
    · rename_i hm'
      obtain ⟨hlow, hhigh⟩ := hodd (by omega)
      refine ⟨?_, hhigh⟩
      split
      · rename_i h
        have heven : leadingBit % 2 = 0 := by decide
        rw [← hsignificand, IsPower.significand h] at hm'
        exact absurd heven hm'
      · exact (hhalf hm).trans_lt hlow

-- A packed number keeps its significand and its scale, unless it is too large.
theorem pack_spec (hm : m < 2 * leadingBit) (he : -1074 ≤ e) (hbit : -1074 < e → leadingBit ≤ m) :
    ((pack negative m e).negative = negative ∧ (pack negative m e).isFinite = true ∧
      (pack negative m e).significand = m ∧ (pack negative m e).scale = e) ∨
    (972 ≤ e ∧ leadingBit ≤ m ∧ pack negative m e = infinity negative) := by
  unfold pack
  split
  · rename_i hless
    refine .inl ⟨rfl, rfl, ?_, ?_⟩
    · simpa [significand] using hless
    · simp [scale]
      omega
  · rename_i hless
    split
    · rename_i hlarge
      have hexponent : (Fin.ofNat 2048 (e + 1075).toNat).val = (e + 1075).toNat :=
        Nat.mod_eq_of_lt (by omega)
      have hfraction : (Fin.ofNat leadingBit (m - leadingBit)).val = m - leadingBit :=
        Nat.mod_eq_of_lt (by omega)
      have hzero : Fin.ofNat 2048 (e + 1075).toNat ≠ 0 := by
        rw [Ne, Fin.ext_iff, hexponent, Fin.val_zero]
        omega
      refine .inl ⟨rfl, ?_, ?_, ?_⟩
      · rw [isFinite, bne_iff_ne, Ne, Fin.ext_iff, hexponent]
        show (e + 1075).toNat ≠ 2047
        omega
      · rw [significand, if_neg hzero, hfraction]
        omega
      · rw [scale, if_neg hzero, hexponent]
        omega
    · exact .inr ⟨by omega, by omega, rfl⟩

-- What is half of the last place above the largest double, or more.
def overflow : ℚ := ((2 * leadingBit : Nat) - 1 / 2) * 2 ^ (971 : Int)

theorem two_zpow_bits (e : Int) : (2 : ℚ) ^ (e + 52) = leadingBit * 2 ^ e := by
  rw [zpow_add₀ two_ne_zero]
  norm_num
  ring

theorem overflow_le (he : 972 ≤ e) : overflow ≤ leadingBit * 2 ^ e := by
  have hpower : (2 : ℚ) ^ (971 + 1 : Int) ≤ 2 ^ e := zpow_le_zpow_right₀ one_le_two he
  calc overflow ≤ (2 * leadingBit : Nat) * 2 ^ (971 : Int) :=
        mul_le_mul_of_nonneg_right (sub_le_self _ (by norm_num)) (by positivity)
    _ = leadingBit * 2 ^ (971 + 1 : Int) := by
        rw [zpow_add_one₀ two_ne_zero, Nat.cast_mul, Nat.cast_ofNat]
        ring
    _ ≤ leadingBit * 2 ^ e := by gcongr

-- A number of 53 bits is nearest to one of 53 bits, or to the least one of 54.
theorem IsNearest.le_of_lt (h : IsNearest m e x) (hx : x < 2 * leadingBit * 2 ^ e) :
    m ≤ 2 * leadingBit := by
  have hless := lt_of_mul_lt_mul_right (h.1.trans_lt hx) (by positivity)
  have hless : (m : ℚ) < (2 * leadingBit : Nat) + 1 := by
    push_cast
    linarith
  exact Nat.lt_succ_iff.mp (by exact_mod_cast hless)

theorem IsNearest.leadingBit_le (h : IsNearest m e x) (hx : leadingBit * 2 ^ e ≤ x) :
    leadingBit ≤ m := by
  have hle := le_of_mul_le_mul_right (hx.trans h.2.1) (by positivity)
  have hless : (leadingBit : ℚ) < m + 1 := hle.trans_lt (by linarith)
  exact Nat.lt_succ_iff.mp (by exact_mod_cast hless)

-- What is nearest to the least number of 54 bits is that number at the next scale.
theorem IsNearest.carry (h : IsNearest (2 * leadingBit) e x) (hx : x < 2 * leadingBit * 2 ^ e) :
    IsNearest leadingBit (e + 1) x ∧ (leadingBit - 1 / 4 : ℚ) * 2 ^ (e + 1) ≤ x := by
  have hle := h.1
  rw [Nat.cast_mul, Nat.cast_ofNat] at hle
  have hpower : (0 : ℚ) < 2 ^ e := by positivity
  rw [IsNearest, zpow_add_one₀ two_ne_zero]
  generalize (leadingBit : ℚ) = bit at *
  exact ⟨⟨by linarith, by linarith, nofun⟩, by linarith⟩

theorem ofQuotient_spec (hnum : 0 < num) (hden : 0 < den) :
    ((ofQuotient negative num den).negative = negative ∧
      (ofQuotient negative num den).isFinite = true ∧
      (ofQuotient negative num den).Rounds (num / den)) ∨
    (overflow ≤ num / den ∧ ofQuotient negative num den = infinity negative) := by
  obtain ⟨hleast, hlt, hle⟩ := scaleOf_spec hnum hden
  have hnearest := @isNearest_roundDiv num den hden (scaleOf num den)
  have hx : (0 : ℚ) ≤ num / den := by positivity
  simp only [ofQuotient, if_neg hnum.ne']
  generalize roundDiv (num * (powerOfTwo (scaleOf num den)).2)
    (den * (powerOfTwo (scaleOf num den)).1) = m at *
  generalize scaleOf num den = e at *
  generalize (num / den : ℚ) = x at *
  have hlt : x < 2 * leadingBit * 2 ^ e := by
    rwa [show e + 53 = e + 52 + 1 by ring, zpow_add_one₀ two_ne_zero, two_zpow_bits, mul_comm,
      ← mul_assoc] at hlt
  have hle (he : -1074 < e) : leadingBit * 2 ^ e ≤ x := two_zpow_bits e ▸ hle he
  rcases (hnearest.le_of_lt hlt).lt_or_eq with hless | rfl
  · rw [if_neg hless.ne]
    rcases @pack_spec m negative e hless hleast fun he => hnearest.leadingBit_le (hle he) with
      ⟨hsign, hfinite, hsignificand, hscale⟩ | ⟨he, -, hinfinity⟩
    · refine .inl ⟨hsign, hfinite, rounds_of_isNearest hsignificand hscale hx hnearest fun h => ?_⟩
      obtain rfl : m = leadingBit := hsignificand.symm.trans h.significand
      refine le_trans ?_ (hle (hscale ▸ h.lt_scale))
      exact mul_le_mul_of_nonneg_right (sub_le_self _ (by norm_num)) (by positivity)
    · exact .inr ⟨(overflow_le he).trans (hle (by omega)), hinfinity⟩
  · rw [if_pos rfl]
    obtain ⟨hcarry, hquarter⟩ := hnearest.carry hlt
    rcases @pack_spec leadingBit negative (e + 1) (by decide) (by omega) fun _ => le_rfl with
      ⟨hsign, hfinite, hsignificand, hscale⟩ | ⟨he, -, hinfinity⟩
    · exact .inl ⟨hsign, hfinite,
        rounds_of_isNearest hsignificand hscale hx hcarry fun _ => hquarter⟩
    · refine .inr ⟨le_trans ?_ hnearest.1, hinfinity⟩
      refine mul_le_mul_of_nonneg_left (zpow_le_zpow_right₀ one_le_two (by omega)) ?_
      norm_num

-- Finite doubles round no larger numbers.
theorem Rounds.lt_overflow (hfinite : d.isFinite = true) (h : d.Rounds x) : x < overflow := by
  have hscale : d.scale ≤ 971 := by
    have hexponent : d.exponent.val ≠ 2047 := by simpa [isFinite, Fin.ext_iff] using hfinite
    have hlt := d.exponent.isLt
    unfold scale
    split <;> omega
  calc x < (4 * (2 * leadingBit) - 2 : Nat) * d.quarter := h.lt
    _ = ((2 * leadingBit : Nat) - 1 / 2) * 2 ^ d.scale := by
        rw [quarter, zpow_sub₀ two_ne_zero]
        norm_num
        ring
    _ ≤ overflow := by
        refine mul_le_mul_of_nonneg_left (zpow_le_zpow_right₀ one_le_two hscale) ?_
        norm_num

-- A quotient that rounds to a finite double is read as that double.
theorem ofQuotient_of_rounds (hnum : 0 < num) (hden : 0 < den) (hfinite : d.isFinite = true)
    (h : d.Rounds (num / den)) : ofQuotient d.negative num den = d := by
  rcases @ofQuotient_spec num den d.negative hnum hden with ⟨hsign, -, hrounds⟩ | ⟨hlarge, -⟩
  · obtain ⟨hexponent, hfraction⟩ := eq_of_rounds hrounds h
    generalize ofQuotient d.negative num den = r at *
    cases r
    cases d
    simp_all
  · exact absurd (h.lt_overflow hfinite) (not_lt.mpr hlarge)

end Rounding

end Skeleton.Double
