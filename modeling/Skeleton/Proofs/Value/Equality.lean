import Skeleton.Proofs.Double.Whole
import Skeleton.Proofs.Except
import Skeleton.Proofs.Value.Parts

-- Equality of values as conditions have it: symmetric, reflexive on values without non-numbers, and
-- the same as being equal where there are no floats. It is transitive up to integers that have one
-- nearest double.

namespace Skeleton

namespace Double

variable {a b c : Double}

theorem sameNumber_comm (a b : Double) : a.sameNumber b = b.sameNumber a := by
  have hzeros : (a.isZero && b.isZero) = (b.isZero && a.isZero) := Bool.and_comm _ _
  have hnan : (!a.isNaN && !b.isNaN) = (!b.isNaN && !a.isNaN) := Bool.and_comm _ _
  rw [sameNumber, sameNumber, hzeros, hnan, BEq.comm]

theorem sameNumber_self (h : a.isNaN = false) : a.sameNumber a = true := by
  simp [sameNumber, h]

theorem sameNumber_trans (hab : a.sameNumber b = true) (hbc : b.sameNumber c = true) :
    a.sameNumber c = true := by
  simp only [sameNumber, Bool.and_eq_true, Bool.or_eq_true, Bool.not_eq_true', beq_iff_eq] at *
  obtain ⟨⟨ha, -⟩, hab⟩ := hab
  obtain ⟨⟨-, hc⟩, hbc⟩ := hbc
  refine ⟨⟨ha, hc⟩, ?_⟩
  rcases hab with rfl | ⟨hazero, hbzero⟩
  · exact hbc
  · rcases hbc with rfl | ⟨-, hczero⟩
    · exact .inr ⟨hazero, hbzero⟩
    · exact .inr ⟨hazero, hczero⟩

end Double

namespace Value

variable {u v w : Value} {xs ys zs : List Value} {fs gs hs : List (String × Value)}

theorem looselySameItems_iff : looselySameItems xs ys = true ↔
    List.Forall₂ (fun x y => looselySame x y = true) xs ys := by
  induction xs generalizing ys with
  | nil => cases ys <;> simp [looselySameItems]
  | cons x xs ih =>
    cases ys with
    | nil => simp [looselySameItems]
    | cons y ys => rw [looselySameItems, Bool.and_eq_true, ih, List.forall₂_cons]

theorem looselySameFields_iff : looselySameFields fs gs = true ↔
    List.Forall₂ (fun f g => f.1 = g.1 ∧ looselySame f.2 g.2 = true) fs gs := by
  induction fs generalizing gs with
  | nil => cases gs <;> simp [looselySameFields]
  | cons f fs ih =>
    cases gs with
    | nil => simp [looselySameFields]
    | cons g gs =>
      rw [looselySameFields, Bool.and_eq_true, Bool.and_eq_true, ih, List.forall₂_cons, beq_iff_eq]

-- When two values are equal, by their shapes. Their parts are compared in the same way.
inductive Equal : Value → Value → Prop
  | bool (b : Bool) : Equal (.bool b) (.bool b)
  | integer (n : Int64) : Equal (.integer n) (.integer n)
  | float {a b : Double} (h : a.sameNumber b = true) : Equal (.float a) (.float b)
  | integerFloat {n : Int64} {d : Double} (h : (Double.ofInt n.toInt).sameNumber d = true) :
      Equal (.integer n) (.float d)
  | floatInteger {n : Int64} {d : Double} (h : (Double.ofInt n.toInt).sameNumber d = true) :
      Equal (.float d) (.integer n)
  | string (s : String) : Equal (.string s) (.string s)
  | sequence {xs ys : List Value}
      (h : List.Forall₂ (fun x y => looselySame x y = true) xs ys) :
      Equal (.sequence xs) (.sequence ys)
  | mapping {fs gs : List (String × Value)}
      (h : List.Forall₂ (fun f g => f.1 = g.1 ∧ looselySame f.2 g.2 = true) fs gs) :
      Equal (.mapping fs) (.mapping gs)

theorem looselySame_iff : looselySame u v = true ↔ Equal u v := by
  constructor
  · intro h
    cases u <;> cases v <;> simp only [looselySame, same, Bool.false_eq_true, beq_iff_eq] at h
    case bool.bool =>
      subst h
      exact .bool _
    case integer.integer =>
      subst h
      exact .integer _
    case float.float => exact .float h
    case integer.float => exact .integerFloat h
    case float.integer => exact .floatInteger h
    case string.string =>
      subst h
      exact .string _
    case sequence.sequence => exact .sequence (looselySameItems_iff.mp h)
    case mapping.mapping => exact .mapping (looselySameFields_iff.mp h)
  · intro h
    cases h with
    | bool | integer | string => simp [looselySame, same]
    | float h => simpa [looselySame, same] using h
    | integerFloat h | floatInteger h => simpa [looselySame] using h
    | sequence h => rwa [looselySame, looselySameItems_iff]
    | mapping h => rwa [looselySame, looselySameFields_iff]

-- Every value without non-numbers equals itself.
theorem looselySame_self (h : v.Numeric) : v.looselySame v = true := by
  rw [looselySame_iff]
  induction v using induct with
  | bool b => exact .bool b
  | integer n => exact .integer n
  | float d => exact .float (Double.sameNumber_self (numeric_float_iff.mp h))
  | string s => exact .string s
  | sequence items ih =>
    refine .sequence (List.forall₂_same.mpr fun item hmem => looselySame_iff.mpr ?_)
    exact ih item hmem (numeric_sequence_iff.mp h item hmem)
  | mapping fields ih =>
    refine .mapping (List.forall₂_same.mpr fun field hmem => ⟨rfl, looselySame_iff.mpr ?_⟩)
    exact ih field hmem (numeric_mapping_iff.mp h field hmem)

theorem looselySame_symm (h : u.looselySame v = true) : v.looselySame u = true := by
  induction u using induct generalizing v with
  | bool b =>
    cases looselySame_iff.mp h
    exact h
  | integer n =>
    cases looselySame_iff.mp h with
    | integer => exact h
    | integerFloat h => exact looselySame_iff.mpr (.floatInteger h)
  | float d =>
    cases looselySame_iff.mp h with
    | float h => exact looselySame_iff.mpr (.float (Double.sameNumber_comm _ _ ▸ h))
    | floatInteger h => exact looselySame_iff.mpr (.integerFloat h)
  | string s =>
    cases looselySame_iff.mp h
    exact h
  | sequence items ih =>
    rw [looselySame_iff] at h ⊢
    cases h with
    | sequence h => exact .sequence (forall₂_of_mem h fun x hx y _ => ih x hx).flip
  | mapping fields ih =>
    rw [looselySame_iff] at h ⊢
    cases h with
    | mapping h => exact .mapping (forall₂_of_mem h fun f hf g _ hfg => ⟨hfg.1.symm, ih f hf hfg.2⟩).flip

-- Two values that have different integers with one nearest double at the same place.
inductive Confused : Value → Value → Prop
  | integers {m n : Int64} (hne : m ≠ n)
      (h : (Double.ofInt m.toInt).sameNumber (Double.ofInt n.toInt) = true) :
      Confused (.integer m) (.integer n)
  | items {xs ys : List Value} {x y : Value} (hmem : (x, y) ∈ xs.zip ys) (h : Confused x y) :
      Confused (.sequence xs) (.sequence ys)
  | fields {fs gs : List (String × Value)} {f g : String × Value} (hmem : (f, g) ∈ fs.zip gs)
      (h : Confused f.2 g.2) : Confused (.mapping fs) (.mapping gs)

theorem confused_integer_iff {m n : Int64}
    (h : (Double.ofInt m.toInt).sameNumber (Double.ofInt n.toInt) = true) :
    Confused (.integer m) (.integer n) ↔ m ≠ n := by
  constructor
  · rintro ⟨hne, -⟩
    exact hne
  · exact fun hne => .integers hne h

theorem confused_sequence_iff : Confused (.sequence xs) (.sequence ys) ↔
    ∃ p ∈ xs.zip ys, Confused p.1 p.2 := by
  constructor
  · rintro (_ | ⟨hmem, h⟩)
    exact ⟨_, hmem, h⟩
  · rintro ⟨_, hmem, h⟩
    exact .items hmem h

theorem confused_mapping_iff : Confused (.mapping fs) (.mapping gs) ↔
    ∃ p ∈ fs.zip gs, Confused p.1.2 p.2.2 := by
  constructor
  · rintro (_ | _ | ⟨hmem, h⟩)
    exact ⟨_, hmem, h⟩
  · rintro ⟨_, hmem, h⟩
    exact .fields hmem h

-- A relation that is transitive item by item, but for some pairs, is so for lists.
theorem forall₂_trans_iff {α : Type} {R D : α → α → Prop} {as bs cs : List α}
    (hab : List.Forall₂ R as bs) (hbc : List.Forall₂ R bs cs)
    (h : ∀ a ∈ as, ∀ b c, R a b → R b c → (R a c ↔ ¬ D a c)) :
    List.Forall₂ R as cs ↔ ¬ ∃ p ∈ as.zip cs, D p.1 p.2 := by
  induction hab generalizing cs with
  | nil =>
    cases hbc
    simp
  | cons hab _ ih =>
    cases hbc with
    | cons hbc htail =>
      have hitems := ih htail fun a hmem => h a (List.mem_cons_of_mem _ hmem)
      rw [List.forall₂_cons, h _ List.mem_cons_self _ _ hab hbc, hitems]
      simp

-- Two values that both equal a third are equal unless they differ by such integers only.
theorem looselySame_trans_iff (huv : u.looselySame v = true) (hvw : v.looselySame w = true) :
    u.looselySame w = true ↔ ¬ Confused u w := by
  induction u using induct generalizing v w with
  | bool b =>
    cases looselySame_iff.mp huv
    cases looselySame_iff.mp hvw
    exact iff_of_true huv nofun
  | string s =>
    cases looselySame_iff.mp huv
    cases looselySame_iff.mp hvw
    exact iff_of_true huv nofun
  | integer n =>
    cases looselySame_iff.mp huv with
    | integer =>
      cases looselySame_iff.mp hvw with
      | integer =>
        refine iff_of_true huv fun h => ?_
        cases h with
        | integers hne => exact hne rfl
      | integerFloat => exact iff_of_true hvw nofun
    | integerFloat hnd =>
      cases looselySame_iff.mp hvw with
      | float hde =>
        have hne := Double.sameNumber_trans hnd hde
        exact iff_of_true (looselySame_iff.mpr (.integerFloat hne)) nofun
      | floatInteger hmd =>
        rw [Double.sameNumber_comm] at hmd
        rw [confused_integer_iff (Double.sameNumber_trans hnd hmd), not_not]
        simp [looselySame, same]
  | float d =>
    cases looselySame_iff.mp huv with
    | float hde =>
      cases looselySame_iff.mp hvw with
      | float hef =>
        exact iff_of_true (looselySame_iff.mpr (.float (Double.sameNumber_trans hde hef))) nofun
      | floatInteger hne =>
        rw [Double.sameNumber_comm] at hde
        have hnd := Double.sameNumber_trans hne hde
        exact iff_of_true (looselySame_iff.mpr (.floatInteger hnd)) nofun
    | floatInteger hnd =>
      cases looselySame_iff.mp hvw with
      | integer => exact iff_of_true huv nofun
      | integerFloat hne =>
        rw [Double.sameNumber_comm] at hnd
        exact iff_of_true (looselySame_iff.mpr (.float (Double.sameNumber_trans hnd hne))) nofun
  | sequence items ih =>
    cases looselySame_iff.mp huv with
    | sequence hxy =>
      cases looselySame_iff.mp hvw with
      | sequence hyz =>
        rw [looselySame, looselySameItems_iff, confused_sequence_iff]
        exact forall₂_trans_iff hxy hyz fun x hmem y z => ih x hmem
  | mapping fields ih =>
    cases looselySame_iff.mp huv with
    | mapping hfg =>
      cases looselySame_iff.mp hvw with
      | mapping hgh =>
        rw [looselySame, looselySameFields_iff, confused_mapping_iff]
        refine @forall₂_trans_iff _ _ (fun f h => Confused f.2 h.2) _ _ _ hfg hgh ?_
        intro f hmem g h hfg hgh
        rw [← ih f hmem hfg.2 hgh.2, hfg.1, hgh.1, and_iff_right rfl]

-- All integers have doubles of their own.
def Exact (v : Value) : Prop := ∀ n, v.Contains (.integer n) → n.toInt.natAbs ≤ 2 ^ 53

theorem not_confused_of_exact (hu : u.Exact) (hv : v.Exact) : ¬ Confused u v := by
  intro h
  induction h with
  | integers hne h =>
    exact hne (Int64.toInt_inj.mp
      (Double.eq_of_sameNumber_ofInt (hu _ (.self _)) (hv _ (.self _)) h))
  | items hmem _ ih =>
    obtain ⟨hx, hy⟩ := List.of_mem_zip hmem
    exact ih (fun n hpart => hu n (.item hx hpart)) (fun n hpart => hv n (.item hy hpart))
  | fields hmem _ ih =>
    obtain ⟨hf, hg⟩ := List.of_mem_zip hmem
    exact ih (fun n hpart => hu n (.field hf hpart)) (fun n hpart => hv n (.field hg hpart))

def Floatless (v : Value) : Prop := ∀ d, ¬ v.Contains (.float d)

theorem looselySame_iff_eq (hu : u.Floatless) (hv : v.Floatless) :
    u.looselySame v = true ↔ u = v := by
  constructor
  · intro h
    induction u using induct generalizing v with
    | bool | string =>
      cases looselySame_iff.mp h
      rfl
    | integer n =>
      cases looselySame_iff.mp h with
      | integer => rfl
      | integerFloat => exact absurd (.self _) (hv _)
    | float d => exact absurd (.self _) (hu d)
    | sequence items ih =>
      cases looselySame_iff.mp h with
      | sequence hitems =>
        refine congrArg sequence (List.forall₂_eq_eq_eq ▸ forall₂_of_mem hitems ?_)
        intro x hx y hy hxy
        exact ih x hx (fun d hpart => hu d (.item hx hpart)) (fun d hpart => hv d (.item hy hpart))
          hxy
    | mapping fields ih =>
      cases looselySame_iff.mp h with
      | mapping hfields =>
        refine congrArg mapping (List.forall₂_eq_eq_eq ▸ forall₂_of_mem hfields ?_)
        intro f hf g hg hfg
        refine Prod.ext hfg.1 (ih f hf ?_ ?_ hfg.2)
        · exact fun d hpart => hu d (.field hf hpart)
        · exact fun d hpart => hv d (.field hg hpart)
  · rintro rfl
    exact looselySame_self fun d hpart => absurd hpart (hu d)

-- The laws of equality. It is no equivalence as there are different integers that one float equals,
-- but none of them has less than 54 bits.
theorem looselySame_laws (hu : u.Numeric) (v w : Value) :
    u.looselySame u = true ∧ u.looselySame v = v.looselySame u ∧
    (u.looselySame v = true → v.looselySame w = true →
      (u.looselySame w = true ↔ ¬ Confused u w)) ∧
    (u.Exact → w.Exact → ¬ Confused u w) ∧
    (u.Floatless → v.Floatless → (u.looselySame v = true ↔ u = v)) := by
  have hsymm : u.looselySame v = v.looselySame u :=
    Bool.eq_iff_iff.mpr ⟨looselySame_symm, looselySame_symm⟩
  exact ⟨looselySame_self hu, hsymm, looselySame_trans_iff, not_confused_of_exact,
    looselySame_iff_eq⟩

theorem looselySame_laws_pair :
    let u := sequence [integer 1, float (Double.ofInt 2)]
    let v := sequence [float (Double.ofInt 1), float (Double.ofInt 2)]
    let w := sequence [integer 1, integer 2]
    u.Numeric ∧ u.looselySame v = true ∧ v.looselySame w = true ∧
      (u.looselySame w = true ↔ ¬ Confused u w) := by
  have hnumeric : (sequence [integer 1, float (Double.ofInt 2)]).Numeric := by
    rw [numeric_sequence_iff, List.forall_mem_cons, List.forall_mem_singleton]
    exact ⟨nofun, numeric_float_iff.mpr (by decide +kernel)⟩
  have huv : (sequence [integer 1, float (Double.ofInt 2)]).looselySame
      (sequence [float (Double.ofInt 1), float (Double.ofInt 2)]) = true := by decide +kernel
  have hvw : (sequence [float (Double.ofInt 1), float (Double.ofInt 2)]).looselySame
      (sequence [integer 1, integer 2]) = true := by decide +kernel
  exact ⟨hnumeric, huv, hvw, (looselySame_laws hnumeric _ _).2.2.1 huv hvw⟩

-- The least two of them.
theorem looselySame_not_transitive : (float (Double.ofInt 9007199254740992)).Numeric ∧
    (integer 9007199254740993).looselySame (float (Double.ofInt 9007199254740992)) = true ∧
    (float (Double.ofInt 9007199254740992)).looselySame (integer 9007199254740992) = true ∧
    (integer 9007199254740993).looselySame (integer 9007199254740992) = false := by
  refine ⟨numeric_float_iff.mpr ?_, ?_, ?_, ?_⟩ <;> decide +kernel

end Value

end Skeleton
