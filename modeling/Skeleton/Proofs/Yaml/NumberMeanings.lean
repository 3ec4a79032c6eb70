import Skeleton.Proofs.Double.Reading
import Skeleton.Proofs.Yaml.NumberTexts
import Skeleton.Proofs.Yaml.Scalars

-- The texts of numbers mean these numbers.

namespace Skeleton.Yaml

section Numerals

variable {text : String} {cs rest : List Char} {c : Char} {n : Int} {d : Double}

theorem not_mem_wordHeads_of_numeral (h : c = '-' ∨ c = '.' ∨ Text.isDigit c = true) :
    c ∉ wordHeads := by
  rcases h with rfl | rfl | h
  · decide
  · decide
  · exact not_mem_wordHeads_of_isDigit h

theorem prefixed?_of_numeral {negative : Bool} (h : ∀ c ∈ cs, c ∈ numeralChars) :
    prefixed? negative cs = none := by
  unfold prefixed?
  split
  · rename_i mark rest
    have hmark : mark ∈ numeralChars := h mark (by simp)
    have hno (c : Char) (hc : c ∉ numeralChars) : mark ≠ c := fun heq => hc (heq ▸ hmark)
    simp [hno 'x' (by decide), hno 'o' (by decide), hno 'b' (by decide)]
  · rfl

theorem dropSign_subset (cs : List Char) : dropSign cs ⊆ cs := by
  unfold dropSign
  split
  · exact List.subset_cons_self _ _
  · exact List.subset_cons_self _ _
  · exact List.Subset.refl _

theorem mem_dropSign (h : c ∈ cs) (hc : c ≠ '-') (hc' : c ≠ '+') : c ∈ dropSign cs := by
  unfold dropSign
  split
  · exact (List.mem_cons.mp h).resolve_left hc
  · exact (List.mem_cons.mp h).resolve_left hc'
  · exact h

-- A numeral with a point or an exponent is no integer.
theorem integer?_of_point (hchars : ∀ c ∈ cs, c ∈ numeralChars) (h : '.' ∈ cs ∨ 'e' ∈ cs) :
    integer? cs = none ∧ hasLeadingZero cs = false := by
  have hmark : ¬ ∀ c ∈ dropSign cs, Text.isDigit c = true := by
    intro hall
    rcases h with h | h
    · exact absurd (hall _ (mem_dropSign h (by decide) (by decide))) (by decide)
    · exact absurd (hall _ (mem_dropSign h (by decide) (by decide))) (by decide)
  constructor
  · rw [Option.eq_none_iff_forall_ne_some]
    intro n hn
    have hplain : prefixed? false (dropSign cs) = none :=
      prefixed?_of_numeral fun c hc => hchars c (dropSign_subset cs hc)
    obtain ⟨-, hread, -⟩ := digits_of_integer? hn (by rw [hplain]; rfl)
    exact hmark (Text.isDigit_of_readDigits? (by decide) (Text.readNat?_eq_some_iff.mp hread).2)
  · unfold hasLeadingZero
    split
    · rename_i d rest hdrop
      rw [Bool.eq_false_iff]
      intro hall
      refine hmark (hdrop ▸ List.forall_mem_cons.mpr ⟨by decide, ?_⟩)
      exact fun c hc => List.all_eq_true.mp hall c hc
    · rfl

theorem hasLeadingZero_decimalInt (n : Int) :
    hasLeadingZero (Text.decimalInt n).toList = false := by
  have hdrop : dropSign (Text.decimalInt n).toList = Text.natDigits 10 n.natAbs := by
    rw [Text.toList_decimalInt]
    split
    · rfl
    · exact dropSign_of_isDigit fun c => Text.isDigit_of_mem_natDigits
  rw [hasLeadingZero, hdrop]
  split
  · rename_i d rest hdigits
    rcases Nat.eq_zero_or_pos n.natAbs with hzero | hpos
    · rw [hzero, Text.natDigits_of_lt (by decide)] at hdigits
      cases hdigits
    · exact absurd (congrArg List.head? hdigits) (Text.head?_natDigits hpos)
  · rfl

theorem integer?_decimalInt (n : Int) : integer? (Text.decimalInt n).toList = some n := by
  have hzero := hasLeadingZero_decimalInt n
  have hdigits : ∀ c ∈ Text.natDigits 10 n.natAbs, Text.isDigit c = true :=
    fun c => Text.isDigit_of_mem_natDigits
  rw [Text.toList_decimalInt] at hzero ⊢
  split
  · rename_i hneg
    rw [if_pos hneg] at hzero
    rw [List.singleton_append] at hzero ⊢
    rw [integer?, prefixed?_of_isDigit hdigits, hzero, Text.readNat?_natDigits]
    show some (-(n.natAbs : Int)) = some n
    congr 1
    omega
  · rename_i hneg
    rw [if_neg hneg, List.nil_append] at hzero
    rw [List.nil_append, integer?_of_isDigit hdigits, hzero, Text.readNat?_natDigits]
    simp only [Bool.false_eq_true, if_false, Option.map_some, Option.some.injEq]
    exact Int.natAbs_of_nonneg (by omega)

-- An integer of up to 128 bits is read back.
theorem meaning_decimalInt (h : fitsLong n = true) : meaning (Text.decimalInt n) = .integer n := by
  obtain ⟨c, cs, htext⟩ := List.exists_cons_of_ne_nil (Text.decimalInt_ne_empty n)
  have hc : c ∉ wordHeads := by
    refine not_mem_wordHeads_of_numeral ?_
    exact (Text.mem_decimalInt (htext ▸ List.mem_cons_self)).imp_right .inr
  rw [meaning_of_head htext hc, integer?_decimalInt, Option.filter_some, if_pos h]

-- Numerals are no words.
theorem float?_of_isDigit {negative : Bool}
    (hs : text.toList = (if negative then ['-'] else []) ++ c :: cs)
    (hc : Text.isDigit c = true) : float? text = ((Double.readDecimal? (c :: cs)).map fun dec =>
      Double.ofDecimal negative dec.digits dec.point).filter Double.isFinite := by
  have hpoint : c ≠ '.' ∧ c ≠ '+' := by
    constructor <;> (rintro rfl; exact absurd hc (by decide))
  have hplus : text.toList.head? ≠ some '+' := by
    rw [hs]
    cases negative <;> simp [hpoint.2]
  have hword (word : String) (h : word.toList.head? = some '.') : text ≠ word := by
    rintro rfl
    rw [hs] at h
    cases negative <;> simp [hpoint.1] at h
  have hminus (h : text.toList.head? = some '-') (word : String)
      (hword : word.toList.head? = some '.') : String.ofList text.toList.tail ≠ word := by
    rintro rfl
    rw [String.toList_ofList, hs] at hword
    cases negative
    · simp [hs] at h
      subst h
      exact absurd hc (by decide)
    · simp [hpoint.1] at hword
  have hinfinite : ¬ (text.toList.head? = some '-' ∧
      infinityWord (String.ofList text.toList.tail) = true) := by
    rintro ⟨hhead, hword⟩
    simp only [infinityWord, Bool.or_eq_true, beq_iff_eq] at hword
    rcases hword with (hword | hword) | hword <;>
      exact hminus hhead _ (by decide +kernel) hword
  rw [float?, if_neg hplus, if_neg fun h => hplus h.1, if_neg, if_neg hinfinite, if_neg,
    Double.ofText?_of_isDigit hs hc]
  · simp [nanWord, hword ".nan" (by decide +kernel), hword ".NaN" (by decide +kernel),
      hword ".NAN" (by decide +kernel)]
  · simp [infinityWord, hword ".inf" (by decide +kernel), hword ".Inf" (by decide +kernel),
      hword ".INF" (by decide +kernel)]

-- A float is read back, unless it is no number.
theorem meaning_write (hnan : d.isNaN = false) : meaning (floatLayout.write d) = .float d := by
  by_cases hfinite : d.isFinite = true
  · obtain ⟨c, cs, hc, -, htext⟩ := Double.toList_write_of_isFinite hfinite
    obtain ⟨c', cs', hhead, hc'⟩ := Double.head_write d
    obtain ⟨hinteger, hzero⟩ := integer?_of_point (fun c => @mem_numeralChars_of_write c d)
      (Double.point_or_exponent_mem_write d)
    have hfloat : float? (floatLayout.write d) = some d := by
      rw [float?_of_isDigit htext hc, ← Double.ofText?_of_isDigit htext hc,
        Double.ofText?_write hfinite, Option.filter_some, if_pos hfinite]
    rw [meaning_of_head hhead (not_mem_wordHeads_of_numeral hc'), hinteger, hzero, hfloat]
    rfl
  · obtain ⟨negative, rfl⟩ : ∃ negative, d = .infinity negative := by
      simp only [Double.isNaN, Double.isFinite, Bool.not_eq_true, bne_eq_false_iff_eq] at hnan hfinite
      cases d
      simp_all [Double.infinity]
    cases negative <;> decide +kernel

end Numerals

end Skeleton.Yaml
