import Skeleton.Condition.Check
import Skeleton.Proofs.Except

-- Conditions that pass the check pass it together. What one of them asks about with `defined` need
-- not be declared for the other one either, and that takes no kind away that was inferred.

namespace Skeleton.Condition

section Infer

variable {schema : Schema} {guarded more : List String} {path : VarPath} {kind : Option Kind}

theorem kindOfPath_mono (hsub : guarded ⊆ more) (h : kindOfPath schema guarded path = .ok kind) :
    kindOfPath schema more path = .ok kind := by
  unfold kindOfPath at h ⊢
  cases hkind : schema.kindOf? path.root with
  | some k => simpa only [hkind] using h
  | none =>
    simp only [hkind] at h ⊢
    split at h
    · rename_i hguarded
      rwa [if_pos (hsub hguarded)]
    · cases h

-- By induction on the expression. Only its variables look at what is guarded, and one that had a
-- kind, or was accepted without one, stays as it is.
theorem Expr.infer_mono (hsub : guarded ⊆ more) (e : Expr)
    (h : e.infer schema guarded = .ok kind) : e.infer schema more = .ok kind := by
  induction e generalizing kind with
  | literal v => exact h
  | var path => exact kindOfPath_mono hsub h
  | defined path => exact h
  | not e ih =>
    simp only [Expr.infer, bind_eq_ok_iff] at h ⊢
    obtain ⟨inner, hinner, hrest⟩ := h
    exact ⟨inner, ih hinner, hrest⟩
  | and l r ihl ihr | or l r ihl ihr =>
    simp only [Expr.infer, bind_eq_ok_iff] at h ⊢
    obtain ⟨left, hleft, ⟨⟩, hboolLeft, right, hright, hrest⟩ := h
    exact ⟨left, ihl hleft, (), hboolLeft, right, ihr hright, hrest⟩
  | eq l r ihl ihr | ne l r ihl ihr | isIn l r ihl ihr =>
    simp only [Expr.infer, bind_eq_ok_iff] at h ⊢
    obtain ⟨left, hleft, right, hright, hrest⟩ := h
    exact ⟨left, ihl hleft, right, ihr hright, hrest⟩

end Infer

section And

variable {schema : Schema} {guarded : List String} {a b c : Condition} {kind : Option Kind}
  {connective : Connective}

-- The check asks the same of a condition as a connective asks of its operands.
theorem check_eq_ok_iff (connective : Connective) : c.check schema = .ok () ↔
    ∃ kind, c.expr.infer schema c.expr.guarded = .ok kind ∧
      requireBool connective kind = .ok () := by
  rw [check, bind_eq_ok_iff]
  refine exists_congr fun kind => and_congr_right fun _ => ?_
  rcases kind with _ | (_ | _ | _ | _ | _ | _) <;> simp [requireBool]

theorem check_and (ha : a.check schema = .ok ()) (hb : b.check schema = .ok ()) :
    (a.and b).check schema = .ok () := by
  obtain ⟨left, hleft, hboolLeft⟩ := (check_eq_ok_iff .and).mp ha
  obtain ⟨right, hright, hboolRight⟩ := (check_eq_ok_iff .and).mp hb
  have hl : a.expr.infer schema (a.and b).expr.guarded = .ok left :=
    a.expr.infer_mono (List.subset_append_left _ _) hleft
  have hr : b.expr.infer schema (a.and b).expr.guarded = .ok right :=
    b.expr.infer_mono (List.subset_append_right _ _) hright
  refine (check_eq_ok_iff .and).mpr ⟨some .bool, ?_, rfl⟩
  simp only [Condition.and, Expr.infer, bind_eq_ok_iff] at hl hr ⊢
  exact ⟨left, hl, (), hboolLeft, right, hr, (), hboolRight, trivial⟩

end And

end Skeleton.Condition
