import Skeleton.Proofs.Double.Whole
import Skeleton.Proofs.Value.Rereading

-- What becomes of the numerals of integers in documents. Those of 64 bits with a sign are kept.
-- Larger ones are refused, or they become the nearest double, whose text shows another integer
-- unless theirs is the shortest text of that double.

namespace Skeleton

namespace Yaml

variable {s : String} {v : Value}

-- A text that can stand plain is read as a plain scalar.
theorem nodeOf_of_plainAllowed (hne : s.toList ≠ []) (hallowed : plainAllowed s.toList = true) :
    ∃ m, nodeOf s = .ok (.scalar m .none .plain s) := by
  have hplace : Follow.cut.place s.toList = s.toList := by
    rw [Follow.place_of_endsWithBreak _ (endsWithBreak_of_plainAllowed hallowed), Follow.tail,
      List.append_nil]
  have hyields : Yields ⟨[], -1, []⟩ 0 true s.toList [.scalar .plain s, .streamEnd] := by
    have hplain := @yields_plain ⟨[], -1, []⟩ .cut 0 true _ [.scalar .plain s, .streamEnd] hne
      hallowed trivial (by decide)
    rw [hplace, String.ofList_toList] at hplain
    exact hplain (by simp [After, Level.ended, Level.close, Level.closeFrom, Level.add])
  have hstarts : StartsToken s.toList := by
    rw [← hplace]
    exact (starts_of_plainAllowed hne hallowed).startsToken _
  have htokens := tokensOf_of_yields (allPlain_of_plainAllowed hallowed) hstarts hyields
  rw [String.ofList_toList] at htokens
  obtain ⟨n, hnode, m, rfl⟩ := nodeOf_of_isNode NodeReader.isNode_scalar htokens
  exact ⟨m, hnode⟩

-- It is the same value as a document and as a part of one.
theorem ofText_of_plainAllowed (hne : s.toList ≠ []) (hallowed : plainAllowed s.toList = true) :
    Value.ofText s = .ok v ↔
      ∃ d, dataOfScalar none .plain s = .ok d ∧ Value.ofData d = .ok v := by
  obtain ⟨m, hnode⟩ := nodeOf_of_plainAllowed hne hallowed
  have htree : treeOf s = .ok (.scalar m none .plain s) := by
    rw [treeOf, hnode]
    show ((Node.tree _ _ _ _).run 0 >>= _) = _
    rw [Node.tree]
    rfl
  rw [Value.ofText, dataOf, htree]
  simp only [bind_eq_ok_iff, mapError_eq_ok_iff, dataOfTree_scalar, locate]

theorem exists_dataOfTree_iff {path : DocumentPath} {m : Mark} (hne : s.toList ≠ [])
    (hallowed : plainAllowed s.toList = true) :
    (∃ d, dataOfTree path false (.scalar m none .plain s) = .ok d ∧ Value.ofData d = .ok v) ↔
      Value.ofText s = .ok v := by
  rw [ofText_of_plainAllowed hne hallowed]
  simp only [dataOfTree_scalar, locate, mapError_eq_ok_iff]

variable {n : Int}

-- A numeral read as a float is the double nearest to its integer.
theorem float?_decimalInt (hn : n ≠ 0) :
    float? (Text.decimalInt n) = (some (Double.ofInt n)).filter Double.isFinite := by
  have hpos : 0 < n.natAbs := Int.natAbs_pos.mpr hn
  obtain ⟨c, cs, hdigits⟩ := List.exists_cons_of_ne_nil (Text.natDigits_ne_nil n.natAbs)
  have hdigit : ∀ c' ∈ c :: cs, Text.isDigit c' = true :=
    hdigits ▸ fun c' => Text.isDigit_of_mem_natDigits
  have hread : Double.readDecimal? (c :: cs) = some ⟨n.natAbs, 0⟩ :=
    Double.readDecimal?_integer hdigit
      (hdigits ▸ Text.readDigits?_natDigits (by decide) (by decide) n.natAbs)
  have htext : (Text.decimalInt n).toList =
      (if decide (n < 0) = true then ['-'] else []) ++ c :: cs := by
    rw [Text.toList_decimalInt, hdigits]
    simp
  have hbelow : ¬ 400 < (0 : Int) := by decide
  have hlarge : ¬ (0 : Int) + (n.natAbs.log2 / 3 : Nat) + 1 < -400 := by omega
  rw [float?_of_isDigit htext (hdigit c List.mem_cons_self), hread, Option.map_some,
    Double.ofDecimal, if_neg hpos.ne', if_neg hbelow, if_neg hlarge, if_pos le_rfl, Double.ofInt]
  simp

-- Numerals of up to 64 bits are integers, larger ones are none, and from 129 bits on they are
-- floats or texts.
theorem dataOfScalar_decimalInt (n : Int) : dataOfScalar none .plain (Text.decimalInt n) =
    if fitsLong n then
      if fitsWord n then .ok (.integer n) else mismatch (.type (.integer n) "any YAML value")
    else if (Double.ofInt n).isFinite then .ok (.float (Double.ofInt n))
    else .ok (.string (Text.decimalInt n)) := by
  by_cases hlong : fitsLong n = true
  · simp only [dataOfScalar, foundOfScalar, if_true, foundOfPlain, meaning_decimalInt hlong, bind,
      Except.bind, hlong]
  · have hn : n ≠ 0 := by
      rintro rfl
      exact hlong (by decide)
    have hmeaning : meaning (Text.decimalInt n) =
        if (Double.ofInt n).isFinite then .float (Double.ofInt n) else .text := by
      obtain ⟨c, cs, htext⟩ := List.exists_cons_of_ne_nil (Text.decimalInt_ne_empty n)
      have hc : c ∉ wordHeads := by
        refine not_mem_wordHeads_of_numeral ?_
        exact (Text.mem_decimalInt (htext ▸ List.mem_cons_self)).imp_right .inr
      rw [meaning_of_head htext hc, integer?_decimalInt, Option.filter_some, if_neg hlong,
        hasLeadingZero_decimalInt, float?_decimalInt hn, Option.filter_some]
      cases (Double.ofInt n).isFinite <;> rfl
    simp only [dataOfScalar, foundOfScalar, if_true, foundOfPlain, hmeaning, if_neg hlong]
    cases (Double.ofInt n).isFinite <;> rfl

end Yaml

namespace Value

variable {n : Int} {v : Value}

theorem ofText_decimalInt : ofText (Text.decimalInt n) = .ok v ↔
    if Yaml.fitsLong n then Yaml.fitsWord n = true ∧ ofInteger n = v
    else (if (Double.ofInt n).isFinite then float (Double.ofInt n)
      else string (Text.decimalInt n)) = v := by
  rw [Yaml.ofText_of_plainAllowed (Text.decimalInt_ne_empty n) (Yaml.plainAllowed_decimalInt n),
    Yaml.dataOfScalar_decimalInt]
  split
  · split
    · simp [ofData, *]
    · simp [Yaml.mismatch, *]
  · split <;> simp [ofData]

-- The text of a large double is that of an integer if and only if its shortest decimal is.
theorem text_ofInt_eq_iff (h : (2 : ℚ) ^ 60 ≤ n.natAbs)
    (hfinite : (Double.ofInt n).isFinite = true) :
    (Double.ofInt n).text = Text.decimalInt n ↔
      ((Double.ofInt n).shortest .up).value = n.natAbs := by
  rcases Double.ofInt_spec h with ⟨hinfinite, -⟩ | ⟨-, hzero, hscale, hsign⟩
  · rw [hinfinite] at hfinite
    cases hfinite
  · obtain ⟨k, hvalue, htext⟩ := Double.text_of_scale hfinite hzero hscale
    rw [htext, hvalue, hsign, Text.decimalInt_injective.eq_iff, Nat.cast_inj]
    by_cases hneg : n < 0
    · simp only [hneg, decide_true, if_true]
      omega
    · simp only [hneg, decide_false, Bool.false_eq_true, if_false]
      omega

theorem isFinite_ofInt (hlow : 2 ^ 60 ≤ n) (hhigh : n < 2 ^ 64) :
    (Double.ofInt n).isFinite = true := by
  have hnat : 2 ^ 60 ≤ n.natAbs ∧ n.natAbs < 2 ^ 64 := by omega
  have hcast : (2 : ℚ) ^ 60 ≤ n.natAbs ∧ (n.natAbs : ℚ) < 2 ^ 64 := by exact_mod_cast hnat
  rcases Double.ofInt_spec hcast.1 with ⟨-, hlarge⟩ | ⟨hfinite, -⟩
  · have hoverflow := Double.two_pow_le_overflow
    linarith
  · exact hfinite

theorem text?_ofInteger (n : Int) : (ofInteger n).text? =
    some (if -2 ^ 63 ≤ n ∧ n < 2 ^ 63 then Text.decimalInt n else (Double.ofInt n).text) := by
  have hlow : Int64.minValue.toInt = -2 ^ 63 := by decide +kernel
  have hhigh : Int64.maxValue.toInt = 2 ^ 63 - 1 := by decide +kernel
  have hword : Text.word? n =
      if -2 ^ 63 ≤ n ∧ n < 2 ^ 63 then some (Int64.ofInt n) else none := by
    rw [Text.word?, hlow, hhigh]
    congr 1
    exact propext (by omega)
  rw [ofInteger, hword]
  split
  · rename_i hsome
    split at hsome
    · rename_i hrange
      obtain rfl := Option.some.inj hsome
      rw [text?, Int64.toInt_ofInt_of_le hrange.1 hrange.2, if_pos hrange]
    · cases hsome
  · rename_i hnone
    split at hnone
    · cases hnone
    · rename_i hrange
      rw [text?, if_neg hrange]

-- The numeral of an integer is refused if and only if the integer has from 65 to 128 bits. The text
-- of what it becomes is the numeral again if and only if the integer has 64 bits with a sign, or no
-- double is near it, or it is the shortest decimal of the double nearest to it. It becomes the same
-- wherever it stands in a document.
theorem numeral_kept_iff (n : Int) :
    (∀ path m v,
      (∃ d, Yaml.dataOfTree path false (.scalar m none .plain (Text.decimalInt n)) = .ok d ∧
        ofData d = .ok v) ↔ ofText (Text.decimalInt n) = .ok v) ∧
    ((∃ v, ofText (Text.decimalInt n) = .ok v) ↔
      ¬ (2 ^ 64 ≤ n ∧ n < 2 ^ 128 ∨ -2 ^ 127 ≤ n ∧ n < -2 ^ 63)) ∧
    ∀ v, ofText (Text.decimalInt n) = .ok v →
      (v.text? = some (Text.decimalInt n) ↔
        (-2 ^ 63 ≤ n ∧ n < 2 ^ 63) ∨ (Double.ofInt n).isFinite = false ∨
          ((Double.ofInt n).shortest .up).value = n.natAbs) := by
  have hlarge (h : 2 ^ 63 ≤ n ∨ n < -2 ^ 127) : (2 : ℚ) ^ 60 ≤ n.natAbs := by
    have hnat : 2 ^ 60 ≤ n.natAbs := by omega
    exact_mod_cast hnat
  refine ⟨fun path m v => Yaml.exists_dataOfTree_iff (Text.decimalInt_ne_empty n)
    (Yaml.plainAllowed_decimalInt n), ?_⟩
  simp only [ofText_decimalInt, Yaml.fitsLong_iff, Yaml.fitsWord_iff]
  by_cases hlong : -2 ^ 127 ≤ n ∧ n < 2 ^ 128
  · simp only [if_pos hlong, exists_and_left, exists_eq', and_true]
    refine ⟨by omega, ?_⟩
    rintro v ⟨hword, rfl⟩
    rw [text?_ofInteger]
    split
    · rename_i hsmall
      simp only [hsmall, true_and, true_or]
    · rename_i hsmall
      have hrange : 2 ^ 63 ≤ n ∧ n < 2 ^ 64 := by omega
      have hfinite := isFinite_ofInt (le_trans (by norm_num) hrange.1) hrange.2
      rw [Option.some.injEq, text_ofInt_eq_iff (hlarge (.inl hrange.1)) hfinite, hfinite,
        or_iff_right hsmall, or_iff_right (Ne.symm Bool.false_ne_true)]
  · simp only [if_neg hlong, exists_eq', true_iff]
    refine ⟨by omega, ?_⟩
    rintro v rfl
    have hsmall : ¬ (-2 ^ 63 ≤ n ∧ n < 2 ^ 63) := by omega
    cases hfinite : (Double.ofInt n).isFinite with
    | false => simp [text?]
    | true =>
      rw [if_pos rfl, text?, Option.some.injEq, text_ofInt_eq_iff (hlarge (by omega)) hfinite,
        or_iff_right hsmall, or_iff_right (Ne.symm Bool.false_ne_true)]

-- An integer one above a power of two.
theorem integer_altered : Text.decimalInt 9223372036854775809 = "9223372036854775809" ∧
    ∃ v, ofText "9223372036854775809" = .ok v ∧ v.text? = some "9223372036854776000" := by
  have htext : Text.decimalInt 9223372036854775809 = "9223372036854775809" := by decide +kernel
  refine ⟨htext, ofInteger 9223372036854775809, ?_, by decide +kernel⟩
  rw [← htext, ofText_decimalInt, if_pos (by decide +kernel)]
  exact ⟨by decide +kernel, rfl⟩

end Value

end Skeleton
