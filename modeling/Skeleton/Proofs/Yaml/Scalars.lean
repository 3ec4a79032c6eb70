import Skeleton.Proofs.Text.Numerals
import Skeleton.Yaml.Untyped

-- What the texts of scalars mean.

namespace Skeleton.Yaml

section Integers

variable {cs : List Char}

theorem isSome_prefixed? (cs : List Char) :
    (prefixed? true cs).isSome = (prefixed? false cs).isSome := by
  have hread (base : Nat) (rest : List Char) (f g : Nat → Int) :
      ((Text.readNat? base rest).bind fun n => some (f n)).isSome =
        ((Text.readNat? base rest).bind fun n => some (g n)).isSome := by
    cases Text.readNat? base rest <;> rfl
  unfold prefixed?
  split
  · split
    · simpa using hread ..
    · split
      · simpa using hread ..
      · split
        · simpa using hread ..
        · rfl
  · rfl

-- An integer in base ten is a sign, or none, and digits without a zero in front.
theorem digits_of_integer? {n : Int} (h : integer? cs = some n)
    (hplain : (prefixed? false (dropSign cs)).isSome = false) :
    hasLeadingZero cs = false ∧ Text.readNat? 10 (dropSign cs) = some n.natAbs ∧
      (cs = dropSign cs ∨ ∃ sign, (sign = '-' ∨ sign = '+') ∧ cs = sign :: dropSign cs) := by
  have hnone (negative : Bool) : prefixed? negative (dropSign cs) = none := by
    rw [← Option.isNone_iff_eq_none, ← Option.isSome_eq_false_iff]
    cases negative with
    | false => exact hplain
    | true => rw [isSome_prefixed?, hplain]
  unfold integer? at h
  split at h
  · rename_i rest
    rw [show prefixed? true rest = none from hnone true, Option.none_or] at h
    split at h
    · cases h
    · rename_i hzero
      obtain ⟨_, hmap, rfl⟩ := Option.map_eq_some_iff.mp h
      obtain ⟨k, hk, hcast⟩ := Option.bind_eq_some_iff.mp hmap
      obtain rfl := Option.some.inj hcast
      refine ⟨by simpa using hzero, ?_, .inr ⟨'-', .inl rfl, rfl⟩⟩
      rw [Int.natAbs_neg, Int.natAbs_natCast]
      exact hk
  · rename_i rest
    rw [show prefixed? false rest = none from hnone false, Option.none_or] at h
    split at h
    · cases h
    · rename_i hzero
      obtain ⟨k, hk, rfl⟩ := Option.map_eq_some_iff.mp h
      exact ⟨by simpa using hzero, hk, .inr ⟨'+', .inr rfl, rfl⟩⟩
  · rename_i hminus hplus
    have hsign : dropSign cs = cs := by
      unfold dropSign
      split
      · exact absurd rfl (hminus _)
      · exact absurd rfl (hplus _)
      · rfl
    rw [← hsign, show prefixed? false (dropSign cs) = none from hnone false, Option.none_or] at h
    split at h
    · cases h
    · rename_i hzero
      obtain ⟨k, hk, rfl⟩ := Option.map_eq_some_iff.mp h
      rw [hsign] at hzero
      exact ⟨by simpa using hzero, hk, .inl hsign.symm⟩

-- So these are the digits that its number is written with.
theorem natDigits_of_integer? {n : Int} (h : integer? cs = some n)
    (hplain : (prefixed? false (dropSign cs)).isSome = false) :
    Text.natDigits 10 n.natAbs = dropSign cs := by
  obtain ⟨hzero, hread, -⟩ := digits_of_integer? h hplain
  obtain ⟨hne, hread⟩ := Text.readNat?_eq_some_iff.mp hread
  have hdigits := Text.isDigit_of_readDigits? (by decide) hread
  by_cases hhead : (dropSign cs).head? = some '0'
  · obtain ⟨rest, hrest⟩ := List.head?_eq_some_iff.mp hhead
    cases rest with
    | nil =>
      rw [hrest] at hread ⊢
      rw [← Option.some.inj hread]
      rfl
    | cons d rest =>
      have hall : (d :: rest).all Text.isDigit = true := by
        rw [hrest] at hdigits
        exact List.all_eq_true.mpr fun c hc => hdigits c (List.mem_cons_of_mem _ hc)
      simp [hasLeadingZero, hrest, hall] at hzero
  · exact Text.natDigits_of_readDigits? hne hdigits hhead hread

theorem dropSign_of_isDigit {cs : List Char} (h : ∀ c ∈ cs, Text.isDigit c = true) :
    dropSign cs = cs := by
  unfold dropSign
  split
  · exact absurd (h '-' List.mem_cons_self) (by decide)
  · exact absurd (h '+' List.mem_cons_self) (by decide)
  · rfl

theorem prefixed?_of_isDigit {negative : Bool} (hdigits : ∀ c ∈ cs, Text.isDigit c = true) :
    prefixed? negative cs = none := by
  unfold prefixed?
  split
  · rename_i mark rest
    have hmark : Text.isDigit mark = true := hdigits mark (by simp)
    have hno (c : Char) (hc : Text.isDigit c = false) : mark ≠ c := by
      rintro rfl
      rw [hmark] at hc
      cases hc
    simp [hno 'x' (by decide), hno 'o' (by decide), hno 'b' (by decide)]
  · rfl

theorem integer?_of_isDigit (hdigits : ∀ c ∈ cs, Text.isDigit c = true) :
    integer? cs = if hasLeadingZero cs then none else (Text.readNat? 10 cs).map Int.ofNat := by
  unfold integer?
  split
  · exact absurd (hdigits '-' List.mem_cons_self) (by decide)
  · exact absurd (hdigits '+' List.mem_cons_self) (by decide)
  · rw [prefixed?_of_isDigit hdigits]
    rfl

end Integers

section Bounds

variable {n : Int}

theorem fitsLong_iff : fitsLong n = true ↔ -2 ^ 127 ≤ n ∧ n < 2 ^ 128 := by
  have hlow : ((1 <<< 127 : Nat) : Int) = 2 ^ 127 := by decide +kernel
  have hhigh : ((1 <<< 128 : Nat) : Int) = 2 ^ 128 := by decide +kernel
  rw [fitsLong, hlow, hhigh, Bool.and_eq_true, decide_eq_true_eq, decide_eq_true_eq]

theorem fitsWord_iff : fitsWord n = true ↔ -2 ^ 63 ≤ n ∧ n < 2 ^ 64 := by
  have hlow : Int64.minValue.toInt = -2 ^ 63 := by decide +kernel
  have hhigh : ((UInt64.size : Nat) : Int) = 2 ^ 64 := by decide +kernel
  rw [fitsWord, hlow, hhigh, Bool.and_eq_true, decide_eq_true_eq, decide_eq_true_eq]

end Bounds

section Meanings

variable {tag : Option String} {style : ScalarStyle} {text : String} {n : Int} {cs : List Char}

def Found.Reads (text : String) : Found → Prop
  | .integer n => integer? text.toList = some n
  | .string s => s = text
  | _ => True

theorem integer?_of_meaning (h : meaning text = .integer n) :
    integer? text.toList = some n := by
  unfold meaning at h
  split at h
  · cases h
  · split at h
    · cases h
    · split at h
      · rename_i hinteger
        obtain rfl := Meaning.integer.inj h
        exact (Option.filter_eq_some_iff.mp hinteger).1
      · split at h <;> cases h

theorem reads_foundOfPlain (text : String) : (foundOfPlain text).Reads text := by
  unfold foundOfPlain
  split
  · trivial
  · trivial
  · rename_i hmeaning
    exact integer?_of_meaning hmeaning
  · trivial
  · rfl

theorem reads_of_foundOfScalar {found : Found}
    (h : foundOfScalar tag style text = .ok found) : found.Reads text := by
  unfold foundOfScalar at h
  split at h
  · obtain rfl := Except.ok.inj h
    split
    · exact reads_foundOfPlain text
    · rfl
  · split at h
    · split at h <;> cases h
      trivial
    split at h
    · split at h <;> cases h
      rename_i hinteger
      exact (Option.filter_eq_some_iff.mp hinteger).1
    split at h
    · split at h <;> cases h
      trivial
    split at h
    · split at h <;> cases h
      trivial
    split at h
    · obtain rfl := Except.ok.inj h
      exact reads_foundOfPlain text
    · obtain rfl := Except.ok.inj h
      rfl

def wordHeads : List Char := ['~', 'n', 'N', 't', 'T', 'f', 'F']

-- A text that starts with another character is no word.
theorem meaning_of_head {c : Char} (htext : text.toList = c :: cs) (hc : c ∉ wordHeads) :
    meaning text =
      match (integer? text.toList).filter fitsLong with
      | some n => .integer n
      | none =>
        match if hasLeadingZero text.toList then none else float? text with
        | some d => .float d
        | none => .text := by
  have hword (word : String) (h : word.toList.head?.all (· ∈ wordHeads) = true) : text ≠ word := by
    rintro rfl
    rw [htext] at h
    exact hc (by simpa using h)
  have hempty : text.isEmpty = false := by
    rw [Bool.eq_false_iff, Ne, String.isEmpty_iff]
    exact hword "" rfl
  have hnull : isNullWord text = false := by
    simp only [isNullWord, beq_eq_false_iff_ne.mpr (hword "null" (by decide +kernel)),
      beq_eq_false_iff_ne.mpr (hword "Null" (by decide +kernel)),
      beq_eq_false_iff_ne.mpr (hword "NULL" (by decide +kernel)),
      beq_eq_false_iff_ne.mpr (hword "~" (by decide +kernel)), Bool.or_self]
  have htruth : truthWord? text = none := by
    simp only [truthWord?, hword "true" (by decide +kernel), hword "True" (by decide +kernel),
      hword "TRUE" (by decide +kernel), hword "false" (by decide +kernel),
      hword "False" (by decide +kernel), hword "FALSE" (by decide +kernel), or_self, if_false]
  rw [meaning, hempty, hnull, htruth]
  rfl

theorem not_mem_wordHeads_of_isDigit {c : Char} (h : Text.isDigit c = true) : c ∉ wordHeads := by
  obtain ⟨k, hk, rfl⟩ := Text.digit_of_isDigit h
  have hall : ∀ k : Fin 10, Nat.digitChar k ∉ wordHeads := by decide
  exact hall ⟨k, hk⟩

-- A plain scalar of digits is a number, or a text where a zero is in front.
theorem foundOfPlain_of_isDigit {n : Nat} (htext : text.toList = cs)
    (hread : Text.readNat? 10 cs = some n) (hfits : fitsLong n = true) :
    foundOfPlain text = if hasLeadingZero cs then .string text else .integer n := by
  obtain ⟨hne, hdenote⟩ := Text.readNat?_eq_some_iff.mp hread
  have hdigits := Text.isDigit_of_readDigits? (by decide) hdenote
  obtain ⟨c, rest, rfl⟩ := List.exists_cons_of_ne_nil hne
  have hhead := not_mem_wordHeads_of_isDigit (hdigits c List.mem_cons_self)
  rw [foundOfPlain, meaning_of_head htext hhead, htext, integer?_of_isDigit hdigits, hread]
  by_cases hzero : hasLeadingZero (c :: rest) = true
  · simp [hzero]
  · have hkept : (some (n : Int)).filter fitsLong = some (n : Int) := by
      rw [Option.filter_some, if_pos hfits]
    simp [hzero, hkept]

end Meanings

end Skeleton.Yaml
