-- Cutting a text at occurrences of a character.

namespace Skeleton.Text

-- The parts between the separators: one more than there are separators, so that the empty text
-- has one empty part.
def splitAtEvery (separator : Char) : List Char → List (List Char)
  | [] => [[]]
  | c :: rest =>
    if c = separator then [] :: splitAtEvery separator rest
    else
      match splitAtEvery separator rest with
      | [] => [[c]]
      | part :: parts => (c :: part) :: parts

theorem splitAtEvery_ne_nil (separator : Char) (cs : List Char) :
    splitAtEvery separator cs ≠ [] := by
  cases cs with
  | nil => simp [splitAtEvery]
  | cons c rest =>
    rw [splitAtEvery]
    split
    · simp
    · split <;> simp

theorem splitAtEvery_of_not_mem {separator : Char} {cs : List Char} (h : separator ∉ cs) :
    splitAtEvery separator cs = [cs] := by
  induction cs with
  | nil => rfl
  | cons c rest ih =>
    rw [List.mem_cons, not_or] at h
    obtain ⟨hc, hrest⟩ := h
    rw [splitAtEvery, if_neg (Ne.symm hc), ih hrest]

theorem splitAtEvery_append {separator : Char} {part : List Char} (h : separator ∉ part)
    (rest : List Char) :
    splitAtEvery separator (part ++ separator :: rest) = part :: splitAtEvery separator rest := by
  induction part with
  | nil => simp [splitAtEvery]
  | cons c part ih =>
    rw [List.mem_cons, not_or] at h
    obtain ⟨hc, hpart⟩ := h
    rw [List.cons_append, splitAtEvery, if_neg (Ne.symm hc), ih hpart]

def splitOnce (separator : Char) : List Char → Option (List Char × List Char)
  | [] => none
  | c :: rest =>
    if c = separator then some ([], rest)
    else (splitOnce separator rest).map fun (before, after) => (c :: before, after)

theorem not_mem_of_mem_splitAtEvery {separator : Char} {cs part : List Char}
    (h : part ∈ splitAtEvery separator cs) : separator ∉ part := by
  induction cs generalizing part with
  | nil =>
    simp only [splitAtEvery, List.mem_singleton] at h
    simp [h]
  | cons c rest ih =>
    rw [splitAtEvery] at h
    split at h
    · rcases List.mem_cons.mp h with rfl | h
      · simp
      · exact ih h
    · rename_i hc
      split at h
      · simp only [List.mem_singleton] at h
        simp [h, Ne.symm hc]
      · rename_i first parts hparts
        rcases List.mem_cons.mp h with rfl | h
        · have hfirst : separator ∉ first := ih (by simp [hparts])
          simp [hfirst, Ne.symm hc]
        · exact ih (by simp [hparts, h])

theorem subset_of_mem_splitAtEvery {separator : Char} {cs part : List Char}
    (h : part ∈ splitAtEvery separator cs) : part ⊆ cs := by
  induction cs generalizing part with
  | nil =>
    simp only [splitAtEvery, List.mem_singleton] at h
    simp [h]
  | cons c rest ih =>
    rw [splitAtEvery] at h
    split at h
    · rcases List.mem_cons.mp h with rfl | h
      · exact List.nil_subset _
      · exact List.subset_cons_of_subset c (ih h)
    · split at h
      · simp only [List.mem_singleton] at h
        simp [h]
      · rename_i first parts hparts
        rcases List.mem_cons.mp h with rfl | h
        · exact List.cons_subset_cons c (ih (by simp [hparts]))
        · exact List.subset_cons_of_subset c (ih (by simp [hparts, h]))

end Skeleton.Text
