-- Blank characters (the Unicode property White_Space), and cutting them off the ends of a text.

namespace Skeleton.Text

-- The characters with the property White_Space: the ASCII controls from tab to carriage return,
-- the space, and the wider spaces and separators of Unicode.
def isBlank (c : Char) : Bool :=
  let n := c.toNat
  (0x09 ≤ n && n ≤ 0x0D) || n == 0x20 || n == 0x85 || n == 0xA0 || n == 0x1680
    || (0x2000 ≤ n && n ≤ 0x200A) || n == 0x2028 || n == 0x2029 || n == 0x202F
    || n == 0x205F || n == 0x3000

def dropEndWhile {α : Type} (p : α → Bool) : List α → List α
  | [] => []
  | x :: rest =>
    match dropEndWhile p rest with
    | [] => if p x then [] else [x]
    | kept => x :: kept

def trimBlanks (cs : List Char) : List Char :=
  dropEndWhile isBlank (cs.dropWhile isBlank)

def trim (s : String) : String :=
  String.ofList (trimBlanks s.toList)

def isAllBlank (s : String) : Bool :=
  s.toList.all isBlank

theorem dropEndWhile_eq_nil_iff {α : Type} {p : α → Bool} {xs : List α} :
    dropEndWhile p xs = [] ↔ ∀ x ∈ xs, p x = true := by
  induction xs with
  | nil => simp [dropEndWhile]
  | cons x rest ih =>
    rw [dropEndWhile]
    split
    · rename_i h
      rw [ih] at h
      by_cases hx : p x = true <;> simp_all
    · rename_i h
      constructor
      · intro e
        cases e
      · intro hall
        exact absurd (ih.mpr fun y hy => hall y (List.mem_cons_of_mem _ hy)) (by simpa using h)

theorem dropEndWhile_concat {α : Type} {p : α → Bool} {x : α} (xs : List α) (h : p x = false) :
    dropEndWhile p (xs ++ [x]) = xs ++ [x] := by
  induction xs with
  | nil => simp [dropEndWhile, h]
  | cons y rest ih =>
    rw [List.cons_append, dropEndWhile, ih]
    split
    · rename_i hnil
      simp at hnil
    · rfl

theorem dropEndWhile_cons_of_neg {α : Type} {p : α → Bool} {x : α} (rest : List α)
    (h : p x = false) : dropEndWhile p (x :: rest) = x :: dropEndWhile p rest := by
  rw [dropEndWhile]
  split
  · rename_i hnil
    simp [h, hnil]
  · rfl

theorem dropEndWhile_append {α : Type} {p : α → Bool} {tail : List α} (h : ∀ x ∈ tail, p x = true)
    (xs : List α) : dropEndWhile p (xs ++ tail) = dropEndWhile p xs := by
  induction xs with
  | nil => exact dropEndWhile_eq_nil_iff.mpr h
  | cons x xs ih => simp only [List.cons_append, dropEndWhile, ih]

theorem exists_dropEndWhile_append {α : Type} (p : α → Bool) (xs : List α) :
    ∃ tail, (∀ x ∈ tail, p x = true) ∧ xs = dropEndWhile p xs ++ tail := by
  induction xs with
  | nil => exact ⟨[], by simp, rfl⟩
  | cons x rest ih =>
    obtain ⟨tail, htail, hrest⟩ := ih
    rw [dropEndWhile]
    split
    · rename_i hnil
      rw [hnil, List.nil_append] at hrest
      by_cases hx : p x = true
      · exact ⟨x :: tail, by simpa [hx] using htail, by simp [hx, hrest]⟩
      · exact ⟨tail, htail, by simp [hx, hrest]⟩
    · exact ⟨tail, htail, by rw [List.cons_append, ← hrest]⟩

theorem of_getLast?_dropEndWhile {α : Type} {p : α → Bool} {x : α} {xs : List α}
    (h : (dropEndWhile p xs).getLast? = some x) : p x = false := by
  induction xs with
  | nil => simp [dropEndWhile] at h
  | cons y rest ih =>
    rw [dropEndWhile] at h
    split at h
    · split at h
      · simp at h
      · rename_i hy
        obtain rfl : y = x := by simpa using h
        simpa using hy
    · rename_i hkept
      rw [List.getLast?_cons_of_ne_nil (by simpa using hkept)] at h
      exact ih h

theorem dropEndWhile_of_getLast? {α : Type} {p : α → Bool} {xs : List α}
    (h : ∀ x ∈ xs.getLast?, p x = false) : dropEndWhile p xs = xs := by
  obtain rfl | ⟨rest, x, rfl⟩ := List.eq_nil_or_concat xs
  · rfl
  · rw [List.concat_eq_append]
    exact dropEndWhile_concat rest (h x (by simp))

theorem dropEndWhile_of_forall {α : Type} {p : α → Bool} {xs : List α}
    (h : ∀ x ∈ xs, p x = false) : dropEndWhile p xs = xs :=
  dropEndWhile_of_getLast? fun x hx => h x (List.mem_of_getLast? hx)

-- A word is what is left of it between blanks.
theorem trimBlanks_append {front word back : List Char} (hfront : ∀ c ∈ front, isBlank c = true)
    (hword : ∀ c ∈ word, isBlank c = false) (hback : ∀ c ∈ back, isBlank c = true) :
    trimBlanks (front ++ word ++ back) = word := by
  unfold trimBlanks
  rw [List.append_assoc, List.dropWhile_append_of_pos hfront]
  cases word with
  | nil =>
    have hnil : (back ++ []).dropWhile isBlank = [] := List.dropWhile_append_of_pos hback
    rw [List.append_nil] at hnil
    rw [List.nil_append, hnil, dropEndWhile]
  | cons c rest =>
    have hc : isBlank c = false := hword c List.mem_cons_self
    rw [List.cons_append, List.dropWhile_cons_of_neg (by simp [hc]), ← List.cons_append,
      dropEndWhile_append hback, dropEndWhile_of_forall hword]

theorem exists_trimBlanks_append (cs : List Char) :
    ∃ front back, (∀ c ∈ front, isBlank c = true) ∧ (∀ c ∈ back, isBlank c = true) ∧
      cs = front ++ trimBlanks cs ++ back := by
  obtain ⟨back, hback, hkept⟩ := exists_dropEndWhile_append isBlank (cs.dropWhile isBlank)
  refine ⟨cs.takeWhile isBlank, back, List.all_eq_true.mp List.all_takeWhile, hback, ?_⟩
  rw [List.append_assoc, trimBlanks, ← hkept, List.takeWhile_append_dropWhile]

theorem trimBlanks_of_ends {cs : List Char} (hhead : ∀ c ∈ cs.head?, isBlank c = false)
    (hlast : ∀ c ∈ cs.getLast?, isBlank c = false) : trimBlanks cs = cs := by
  have hfront : cs.dropWhile isBlank = cs := by
    cases cs with
    | nil => rfl
    | cons c rest => exact List.dropWhile_cons_of_neg (by simp [hhead c rfl])
  rw [trimBlanks, hfront, dropEndWhile_of_getLast? hlast]

theorem trimBlanks_trimBlanks (cs : List Char) : trimBlanks (trimBlanks cs) = trimBlanks cs := by
  refine trimBlanks_of_ends (fun c hc => ?_) fun c hc => of_getLast?_dropEndWhile hc
  have hfront := List.head?_dropWhile_not isBlank cs
  unfold trimBlanks at hc
  cases hdrop : cs.dropWhile isBlank with
  | nil =>
    rw [hdrop] at hc
    cases hc
  | cons d rest =>
    have hd : isBlank d = false := by simpa [hdrop] using hfront
    rw [hdrop, dropEndWhile_cons_of_neg rest hd] at hc
    obtain rfl := Option.some.inj hc
    exact hd

theorem trim_trim (s : String) : trim (trim s) = trim s := by
  simp [trim, trimBlanks_trimBlanks]

end Skeleton.Text
