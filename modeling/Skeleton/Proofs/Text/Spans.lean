import Mathlib

-- The characters that stand in front of the first one of another sort.

namespace Skeleton

variable {p : Char → Bool} {cs rest : List Char}

theorem takeWhile_append_of_head? (h : ∀ d ∈ rest.head?, p d = false) :
    (cs ++ rest).takeWhile p = cs.takeWhile p := by
  induction cs with
  | nil =>
    cases rest with
    | nil => rfl
    | cons d rest => simp [h d rfl]
  | cons c cs ih => simp only [List.cons_append, List.takeWhile_cons, ih]

theorem dropWhile_append_of_head? (h : ∀ d ∈ rest.head?, p d = false) :
    (cs ++ rest).dropWhile p = cs.dropWhile p ++ rest := by
  induction cs with
  | nil =>
    cases rest with
    | nil => rfl
    | cons d rest => simp [h d rfl]
  | cons c cs ih =>
    simp only [List.cons_append, List.dropWhile_cons, ih]
    split <;> rfl

theorem takeWhile_append_of_all (hall : ∀ c ∈ cs, p c = true) (h : ∀ d ∈ rest.head?, p d = false) :
    (cs ++ rest).takeWhile p = cs := by
  rw [takeWhile_append_of_head? h, List.takeWhile_eq_self_iff]
  exact hall

theorem dropWhile_append_of_all (hall : ∀ c ∈ cs, p c = true) (h : ∀ d ∈ rest.head?, p d = false) :
    (cs ++ rest).dropWhile p = rest := by
  rw [dropWhile_append_of_head? h, List.dropWhile_eq_nil_iff.mpr hall, List.nil_append]

end Skeleton
