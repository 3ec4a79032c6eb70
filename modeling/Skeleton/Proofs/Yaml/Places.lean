import Mathlib
import Skeleton.Text.Blank
import Skeleton.Yaml.Lexer

-- What stands behind a text that was written, and where a reader of the text gets to.

namespace Skeleton.Yaml

-- Texts at whose start the next token is: neither a blank nor a break nor a comment.
def StartsToken (cs : List Char) : Prop :=
  ∀ x ∈ cs.head?, x ≠ ' ' ∧ x ≠ '\t' ∧ x ≠ '#' ∧ isBreak x = false

structure Cursor.Ahead (c d : Cursor) : Prop where
  line : d.line = c.line
  column : c.column < d.column
  index : d.index + d.rest.length = c.index + c.rest.length

theorem Cursor.ahead_skip {c : Cursor} {n : Nat} (hn : 0 < n) (h : n ≤ c.rest.length) :
    c.Ahead (c.skip n) where
  line := rfl
  column := Nat.lt_add_of_pos_right hn
  index := by simp [skip]; omega

theorem Cursor.Ahead.trans {c d e : Cursor} (h : c.Ahead d) (h' : d.Ahead e) : c.Ahead e where
  line := h'.line.trans h.line
  column := h.column.trans h'.column
  index := h'.index.trans h.index

-- What follows a text: the colon of a key, a line from some column on, or nothing, where the
-- breaks at the end are cut off.
inductive Follow where
  | colon (rest : List Char)
  | line (column : Nat) (rest : List Char)
  | cut

namespace Follow

def place (w : List Char) : Follow → List Char
  | colon rest => w ++ ':' :: rest
  | line column rest => onNewLine column w ++ rest
  | cut => Text.dropEndWhile (· == '\n') w

def tail : Follow → List Char
  | colon rest => ':' :: rest
  | line column rest => '\n' :: (spaces column ++ rest)
  | cut => []

theorem head?_tail (p : Follow) : p.tail.head? ≠ some '\'' := by
  cases p <;> simp [tail]

-- Lines do not go deeper than the collection that the text is in, and an empty one is the last.
def Fits (parent : Int) : Follow → Prop
  | colon rest => startsBlank rest = true
  | line column rest => StartsToken rest ∧ ((column : Int) ≤ parent ∨ rest = [] ∧ column = 0)
  | cut => True

theorem Fits.mono {p : Follow} {parent inner : Int} (h : p.Fits parent) (hle : parent ≤ inner) :
    p.Fits inner := by
  cases p with
  | line column rest => exact ⟨h.1, h.2.imp_left hle.trans'⟩
  | _ => exact h

-- That a reader has gone from one place to another, up to what follows. `keyAllowed` tells whether
-- a key can start where it is.
def Reached (c d : Cursor) (keyAllowed : Bool) : Follow → Prop
  | colon rest => d.rest = ':' :: rest ∧ c.Ahead d
  | line column rest => ∃ e, Lexer.skipToToken false keyAllowed d = (true, e) ∧ e.rest = rest ∧
      e.column = column ∧ c.line < e.line
  | cut => ∃ b e, Lexer.skipToToken false keyAllowed d = (b, e) ∧ e.rest = []

theorem ne_newline_of_isBreak {x : Char} (hx : isBreak x = false) : (x == '\n') = false :=
  beq_false_of_ne fun h => by simp [h, isBreak] at hx

theorem place_of_endsWithBreak {w : List Char} (p : Follow) (h : endsWithBreak w = false) :
    p.place w = w ++ p.tail := by
  cases p with
  | colon rest => rfl
  | line column rest => simp [place, onNewLine, h, tail]
  | cut =>
    rw [place, tail, List.append_nil, Text.dropEndWhile_of_getLast?]
    intro x hx
    rw [endsWithBreak, Option.mem_def.mp hx] at h
    exact ne_newline_of_isBreak h

-- What comes before a text with something other than breaks stays in front of it.
theorem place_append {x : Char} {w : List Char} (p : Follow) (front : List Char)
    (hx : isBreak x = false) : p.place (front ++ x :: w) = front ++ p.place (x :: w) := by
  cases p with
  | colon rest => exact List.append_assoc _ _ _
  | line column rest =>
    have hlast : endsWithBreak (front ++ x :: w) = endsWithBreak (x :: w) := by
      rw [endsWithBreak, endsWithBreak, List.getLast?_append,
        List.getLast?_eq_some_getLast (by simp)]
      rfl
    rw [place, place, onNewLine, onNewLine, hlast]
    split <;> simp
  | cut =>
    have hkept : Text.dropEndWhile (· == '\n') (x :: w) ≠ [] := by
      rw [@Text.dropEndWhile_cons_of_neg _ (· == '\n') x w (ne_newline_of_isBreak hx)]
      simp
    rw [place, place]
    induction front with
    | nil => rfl
    | cons y front ih =>
      rw [List.cons_append, Text.dropEndWhile, ih]
      split
      · rename_i hnil
        exact absurd (List.append_eq_nil_iff.mp hnil).2 hkept
      · rfl

theorem place_cons {x : Char} {w : List Char} (p : Follow) (hx : isBreak x = false) :
    p.place (x :: w) = x :: p.place w := by
  cases p with
  | colon rest => rfl
  | line column rest =>
    have hlast : endsWithBreak (x :: w) = endsWithBreak w := by
      cases w with
      | nil => exact hx
      | cons y w =>
        rw [endsWithBreak, endsWithBreak, List.getLast?_cons_of_ne_nil (by simp)]
    rw [place, place, onNewLine, onNewLine, hlast]
    split <;> simp
  | cut => exact Text.dropEndWhile_cons_of_neg w (ne_newline_of_isBreak hx)

end Follow

section Skipping

open Lexer (skipToToken)

variable {c : Cursor} {inFlow keyAllowed : Bool} {rest : List Char}

theorem length_skipToToken_le (inFlow keyAllowed : Bool) (c : Cursor) :
    (skipToToken inFlow keyAllowed c).2.rest.length ≤ c.rest.length := by
  fun_induction skipToToken inFlow keyAllowed c with
  | case1 => exact le_rfl
  | case2 => rename_i ih; exact ih.trans (Cursor.length_skip_le _ _)
  | case3 => exact Cursor.length_skip_le _ _
  | case4 =>
    rename_i ih
    exact ih.trans ((Cursor.length_skipBreak_le _).trans (Cursor.length_skip_le _ _))
  | case5 => rename_i ih; exact ih.trans (Cursor.length_skipBreak_le _)
  | case6 => exact le_rfl

theorem skipToToken_of_startsToken (h : StartsToken c.rest) :
    skipToToken inFlow keyAllowed c = (keyAllowed, c) := by
  unfold skipToToken
  split
  · rfl
  · rename_i x rest hrest
    obtain ⟨hspace, htab, hcomment, hbreak⟩ := h x (by simp [hrest])
    simp [hspace, htab, hcomment, hbreak]

theorem skipToToken_space (h : c.rest = ' ' :: rest) :
    skipToToken inFlow keyAllowed c = skipToToken inFlow keyAllowed (c.skip 1) := by
  rw [skipToToken]
  split
  · rename_i hnil
    rw [hnil] at h
    cases h
  · rename_i x rest' hrest
    rw [hrest] at h
    obtain ⟨rfl, -⟩ := List.cons.inj h
    simp

theorem skip_skip (c : Cursor) (m n : Nat) : (c.skip m).skip n = c.skip (m + n) := by
  simp [Cursor.skip, Nat.add_assoc]

theorem skipToToken_spaces (k : Nat) (h : c.rest = spaces k ++ rest) :
    skipToToken inFlow keyAllowed c = skipToToken inFlow keyAllowed (c.skip k) := by
  induction k generalizing c with
  | zero => simp [Cursor.skip]
  | succ k ih =>
    have hcons : c.rest = ' ' :: (spaces k ++ rest) := by simpa [spaces, List.replicate_succ] using h
    rw [skipToToken_space hcons, ih (by simp [Cursor.skip, hcons]), skip_skip, Nat.add_comm 1 k]

theorem skipToToken_newline (h : c.rest = '\n' :: rest) : skipToToken false keyAllowed c =
    skipToToken false true ⟨rest, c.index + 1, c.line + 1, 0⟩ := by
  have hbreak : c.skipBreak = ⟨rest, c.index + 1, c.line + 1, 0⟩ := by
    simp [Cursor.skipBreak, h, isBreak]
  rw [skipToToken]
  split
  · rename_i hnil
    rw [hnil] at h
    cases h
  · rename_i x rest' hrest
    rw [hrest] at h
    obtain ⟨rfl, -⟩ := List.cons.inj h
    simp [isBreak, hbreak]

-- The next line that holds something.
theorem skipToToken_line {m : Nat} (h : c.rest = '\n' :: (spaces m ++ rest))
    (hrest : StartsToken rest) :
    skipToToken false keyAllowed c = (true, ⟨rest, c.index + 1 + m, c.line + 1, m⟩) := by
  have hskip : (⟨spaces m ++ rest, c.index + 1, c.line + 1, 0⟩ : Cursor).skip m =
      ⟨rest, c.index + 1 + m, c.line + 1, m⟩ := by
    simp [Cursor.skip, spaces]
  rw [skipToToken_newline h, skipToToken_spaces m rfl, hskip, skipToToken_of_startsToken hrest]

end Skipping

namespace Follow

variable {p : Follow} {parent : Int} {c d : Cursor} {keyAllowed : Bool}

-- A reader that stops right behind the text has reached what follows.
theorem reached_of_tail (h : p.Fits parent) (hrest : d.rest = p.tail) (hline : c.line ≤ d.line)
    (hahead : ∀ rest, p = .colon rest → c.Ahead d) : p.Reached c d keyAllowed := by
  cases p with
  | colon rest => exact ⟨hrest, hahead rest rfl⟩
  | line column rest =>
    exact ⟨_, skipToToken_line hrest h.1, rfl, rfl, Nat.lt_succ_of_le hline⟩
  | cut =>
    have hnil : d.rest = [] := hrest
    exact ⟨_, _, skipToToken_of_startsToken (by simp [StartsToken, hnil]), hnil⟩

end Follow

end Skeleton.Yaml
