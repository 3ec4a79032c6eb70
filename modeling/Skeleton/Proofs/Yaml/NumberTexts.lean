import Skeleton.Proofs.Double.Layout
import Skeleton.Yaml.Writer

-- The texts of numbers, as plain scalars.

namespace Skeleton.Yaml

def numeralChars : List Char :=
  ['0', '1', '2', '3', '4', '5', '6', '7', '8', '9', '+', '-', '.', 'a', 'e', 'f', 'i', 'n']

section Plain

variable {x c : Char} {cs rest : List Char} {afterBlank : Bool}

theorem mem_numeralChars_of_isDigit (h : Text.isDigit c = true) : c ∈ numeralChars := by
  obtain ⟨k, hk, rfl⟩ := Text.digit_of_isDigit h
  interval_cases k <;> decide

-- What none of these characters is.
theorem of_mem_numeralChars (h : c ∈ numeralChars) : isPlainChar c = true ∧ isBreak c = false ∧
    c ≠ ' ' ∧ c ≠ '\t' ∧ c ≠ ':' ∧ c ≠ '#' ∧ c ≠ '?' ∧
    "#,[]\x7b\x7d&*!|>'\"%@`".toList.contains c = false := by
  simp only [numeralChars, List.mem_cons, List.not_mem_nil, or_false] at h
  rcases h with rfl | rfl | rfl | rfl | rfl | rfl | rfl | rfl | rfl | rfl | rfl | rfl | rfl | rfl |
    rfl | rfl | rfl | rfl <;> decide

theorem hasIndicatorFrom_numeral (h : ∀ c ∈ cs, c ∈ numeralChars) :
    hasIndicatorFrom false afterBlank cs = false := by
  induction cs generalizing afterBlank with
  | nil => rfl
  | cons c cs ih =>
    obtain ⟨hc, hcs⟩ := List.forall_mem_cons.mp h
    obtain ⟨-, -, -, -, hcolon, hcomment, -⟩ := of_mem_numeralChars hc
    simp [hasIndicatorFrom, isIndicator, hcolon, hcomment, ih hcs]

-- A numeral may be plain where it does not start like an indicator.
theorem plainAllowed_numeral (hchars : ∀ c ∈ x :: rest, c ∈ numeralChars)
    (hstart : x = '-' ∨ x = '.' → ∃ y ∈ rest.head?, y ≠ x) : plainAllowed (x :: rest) = true := by
  have hfacts := fun c hc => of_mem_numeralChars (hchars c hc)
  obtain ⟨hx, hrest⟩ := List.forall_mem_cons.mp hchars
  obtain ⟨-, -, -, -, hcolon, -, hquestion, hlist⟩ := of_mem_numeralChars hx
  have hprefix (y : Char) (hy : y = '-' ∨ y = '.') : [y, y, y].isPrefixOf (x :: rest) = false := by
    by_cases hxy : y = x
    · obtain ⟨z, hz, hne⟩ := hstart (hxy ▸ hy)
      cases rest with
      | nil => cases hz
      | cons z' rest =>
        obtain rfl := Option.some.inj hz
        simp [List.isPrefixOf, hxy, Ne.symm hne]
    · simp [List.isPrefixOf, hxy]
  have hfirst : isIndicator true true x rest = false := by
    have hblank : x = '-' → startsBlank rest = false := by
      intro hdash
      obtain ⟨z, hz, -⟩ := hstart (.inl hdash)
      obtain ⟨-, hbreak, hspace, htab, -⟩ := hfacts z (List.mem_cons_of_mem _
        (List.mem_of_mem_head? hz))
      simp [startsBlank, Option.mem_def.mp hz, hbreak, hspace, htab]
    rw [isIndicator, if_pos rfl, hlist]
    by_cases hdash : x = '-'
    · simp [hblank hdash]
    · simp [hdash, hcolon, hquestion]
  have hspaces : startsOrEndsWith isSpace (x :: rest) = false := by
    have hnone : ∀ c ∈ x :: rest, isSpace c = false := fun c hc => by
      simp [isSpace, (hfacts c hc).2.2.1]
    rw [startsOrEndsWith, List.getLast?_eq_some_getLast (by simp), List.head?_cons,
      Option.any_some, Option.any_some, hnone x List.mem_cons_self,
      hnone _ (List.getLast_mem _), Bool.or_self]
  have hplain : (x :: rest).all isPlainChar = true :=
    List.all_eq_true.mpr fun c hc => (hfacts c hc).1
  have hbreaks : (x :: rest).any isBreak = false :=
    List.any_eq_false.mpr fun c hc => by simp [(hfacts c hc).2.1]
  rw [plainAllowed, hplain, hbreaks, hspaces, hasIndicator, hprefix '-' (.inl rfl),
    hprefix '.' (.inr rfl), hasIndicatorFrom, hfirst, hasIndicatorFrom_numeral hrest]
  rfl

theorem plainAllowed_decimalInt (n : Int) : plainAllowed (Text.decimalInt n).toList = true := by
  obtain ⟨x, digits, hdigits⟩ := List.exists_cons_of_ne_nil (Text.natDigits_ne_nil n.natAbs)
  have hdigit : ∀ c ∈ x :: digits, Text.isDigit c = true := fun c hc =>
    Text.isDigit_of_mem_natDigits (hdigits ▸ hc)
  have hx : x ≠ '-' ∧ x ≠ '.' := by
    have := hdigit x List.mem_cons_self
    constructor <;> rintro rfl <;> exact absurd this (by decide)
  rw [Text.toList_decimalInt, hdigits]
  split
  · refine plainAllowed_numeral (fun c hc => ?_) fun _ => ⟨x, rfl, hx.1⟩
    rcases List.mem_cons.mp hc with rfl | hc
    · decide
    · exact mem_numeralChars_of_isDigit (hdigit c hc)
  · refine plainAllowed_numeral (fun c hc => mem_numeralChars_of_isDigit (hdigit c hc)) fun h => ?_
    exact absurd h (by simp [hx])

end Plain

section Floats

open Double

variable {c : Char} {digits : List Char}

theorem mem_placePoint {whole : Int} {pointZero : Bool} (h : c ∈ placePoint digits whole pointZero) :
    c ∈ digits ∨ c = '0' ∨ c = '.' := by
  unfold placePoint at h
  split at h
  · simp only [List.mem_cons, List.mem_append, List.mem_replicate] at h
    tauto
  · simp only at h
    split at h
    · split at h
      · simp only [List.mem_cons, List.mem_append, List.mem_replicate, List.not_mem_nil] at h
        tauto
      · simp only [List.mem_append, List.mem_replicate] at h
        tauto
    · rw [List.mem_append, List.mem_cons] at h
      rcases h with h | h | h
      · exact .inl (List.mem_of_mem_take h)
      · exact .inr (.inr h)
      · exact .inl (List.mem_of_mem_drop h)

theorem mem_scientific {power : Int} {exponentPlus : Bool}
    (h : c ∈ scientific digits power exponentPlus) :
    c ∈ digits ∨ c = '.' ∨ c = 'e' ∨ c = '+' ∨ c = '-' ∨ Text.isDigit c = true := by
  simp only [scientific, List.mem_append, List.mem_cons] at h
  rcases h with (h | h) | h | h | h
  · exact .inl (List.mem_of_mem_take h)
  · split at h
    · cases h
    · rcases List.mem_cons.mp h with h | h
      · exact .inr (.inl h)
      · exact .inl (List.mem_of_mem_drop h)
  · tauto
  · split at h
    · rw [List.mem_singleton] at h
      tauto
    · cases h
  · have := Text.mem_decimalInt h
    tauto

theorem mem_numeralChars_of_write (d : Double) (h : c ∈ (floatLayout.write d).toList) :
    c ∈ numeralChars := by
  have hdigits (n : Nat) : ∀ c ∈ Text.natDigits 10 n, c ∈ numeralChars := fun c hc =>
    mem_numeralChars_of_isDigit (Text.isDigit_of_mem_natDigits hc)
  rw [toList_write, List.mem_append] at h
  rcases h with h | h
  · split at h
    · rw [List.mem_singleton.mp h]
      decide
    · cases h
  · rcases magnitude_cases d with ⟨-, hwords⟩ | ⟨-, -, hwords⟩ | ⟨hfinite, -⟩
    · have hword : ∀ c ∈ ['.', 'n', 'a', 'n'], c ∈ numeralChars := by simp [numeralChars]
      exact hword c (hwords ▸ h)
    · have hword : ∀ c ∈ ['.', 'i', 'n', 'f'], c ∈ numeralChars := by simp [numeralChars]
      exact hword c (hwords ▸ h)
    · rw [magnitude_of_isFinite _ hfinite] at h
      split at h
      · have hzero : ∀ c ∈ ['0', '.', '0'], c ∈ numeralChars := by simp [numeralChars]
        exact hzero c h
      · simp only [Layout.decimal] at h
        split at h
        · rcases mem_placePoint h with h | rfl | rfl
          · exact hdigits _ c h
          · decide
          · decide
        · rcases mem_scientific h with h | rfl | rfl | rfl | rfl | h
          · exact hdigits _ c h
          · decide
          · decide
          · decide
          · decide
          · exact mem_numeralChars_of_isDigit h

theorem plainAllowed_write (d : Double) : plainAllowed (floatLayout.write d).toList = true := by
  have hchars := fun c => @mem_numeralChars_of_write c d
  obtain ⟨x, rest, hmagnitude, hx⟩ := head_magnitude d
  -- a point comes first only in the words
  have hpoint : x = '.' → ∃ y ∈ rest.head?, y ≠ '.' := by
    rintro rfl
    rcases magnitude_cases d with ⟨-, h⟩ | ⟨-, -, h⟩ | ⟨-, c, rest', h, hc⟩
    · rw [hmagnitude] at h
      obtain ⟨-, rfl⟩ := List.cons.inj h
      exact ⟨'n', rfl, by decide⟩
    · rw [hmagnitude] at h
      obtain ⟨-, rfl⟩ := List.cons.inj h
      exact ⟨'i', rfl, by decide⟩
    · rw [hmagnitude] at h
      obtain ⟨rfl, -⟩ := List.cons.inj h
      exact absurd hc (by decide)
  have hdash : x ≠ '-' := by
    rintro rfl
    rcases hx with hx | hx <;> exact absurd hx (by decide)
  rw [toList_write, hmagnitude] at hchars ⊢
  by_cases hsign : (!d.isNaN && d.negative) = true
  · rw [if_pos hsign] at hchars ⊢
    exact plainAllowed_numeral hchars fun _ => ⟨x, rfl, hdash⟩
  · rw [if_neg hsign] at hchars ⊢
    refine plainAllowed_numeral hchars fun h => ?_
    obtain rfl := h.resolve_left hdash
    exact hpoint rfl

end Floats

end Skeleton.Yaml
