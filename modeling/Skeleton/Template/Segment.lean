import Skeleton.Template.Filter
import Skeleton.VarPath

-- Templates as segments: plain text, and placeholders between double braces.

namespace Skeleton.Template

inductive Fault where
  | unterminated
  | emptyPlaceholder
  | invalidReference (text : String)
  | emptyFilter
  | unknownFilter (name : String)
  | unbound (path : VarPath)
  | notScalar (path : VarPath) (kind : Kind)

-- A fault, and the number of characters before the braces that open its placeholder.
structure Error where
  offset : Nat
  fault : Fault

def Error.message (e : Error) : String :=
  let place := " at offset " ++ Text.decimal e.offset
  match e.fault with
  | .unterminated => "unterminated placeholder" ++ place
  | .emptyPlaceholder => "empty placeholder" ++ place
  | .invalidReference text => "invalid variable reference `" ++ text ++ "`" ++ place
  | .emptyFilter => "empty filter name" ++ place
  | .unknownFilter name => "unknown filter `" ++ name ++ "`" ++ place
  | .unbound path => "unbound variable `" ++ path.text ++ "`" ++ place
  | .notScalar path kind =>
    "`" ++ path.text ++ "` is a " ++ kind.name ++ " and cannot be rendered as text" ++ place
      ++ " (use `yaml` or `json`)"

-- A variable, and the filters that its value goes through from left to right. The offset counts
-- the characters before the opening braces.
structure Placeholder where
  offset : Nat
  path : VarPath
  filters : List Filter

inductive Segment where
  | text (cs : List Char)
  | placeholder (p : Placeholder)

def readFilters : List String → Except Fault (List Filter)
  | [] => .ok []
  | name :: rest =>
    if name.isEmpty then .error .emptyFilter
    else
      match Filter.ofName? name with
      | none => .error (.unknownFilter name)
      | some f => (readFilters rest).map (f :: ·)

def readPlaceholder (offset : Nat) (inside : List Char) : Except Fault Placeholder :=
  let parts := (Text.splitAtEvery '|' inside).map fun part =>
    String.ofList (Text.trimBlanks part)
  match parts with
  | [] => .error .emptyPlaceholder
  | reference :: names =>
    if reference.isEmpty then .error .emptyPlaceholder
    else
      match VarPath.ofText? reference with
      | none => .error (.invalidReference reference)
      | some path => (readFilters names).map fun filters => ⟨offset, path, filters⟩

-- The characters before the first pair of a character, and those after the pair.
def cutAtPair (c : Char) : List Char → Option (List Char × List Char)
  | [] => none
  | [_] => none
  | x :: y :: rest =>
    if x = c ∧ y = c then some ([], rest)
    else (cutAtPair c (y :: rest)).map fun (before, after) => (x :: before, after)

theorem length_of_cutAtPair {c : Char} {cs before after : List Char}
    (h : cutAtPair c cs = some (before, after)) :
    before.length + after.length + 2 = cs.length := by
  fun_induction cutAtPair c cs generalizing before after with
  | case1 => simp at h
  | case2 => simp at h
  | case3 x y rest hpair =>
    simp only [Option.some.injEq, Prod.mk.injEq] at h
    simp [← h.1, ← h.2]
  | case4 x y rest hpair ih =>
    simp only [Option.map_eq_some_iff, Prod.mk.injEq, Prod.exists] at h
    obtain ⟨b, a, hcut, rfl, rfl⟩ := h
    have := ih hcut
    simp only [List.length_cons] at this ⊢
    omega

def segmentsFrom (offset : Nat) (cs : List Char) : Except Error (List Segment) :=
  match _hopen : cutAtPair '\x7b' cs with
  | none => .ok (if cs.isEmpty then [] else [.text cs])
  | some (before, rest) =>
    let start := offset + before.length
    match _hclose : cutAtPair '\x7d' rest with
    | none => .error ⟨start, .unterminated⟩
    | some (inside, rest) =>
      match readPlaceholder start inside with
      | .error fault => .error ⟨start, fault⟩
      | .ok p =>
        match segmentsFrom (start + inside.length + 4) rest with
        | .error e => .error e
        | .ok segments =>
          .ok ((if before.isEmpty then [] else [.text before]) ++ .placeholder p :: segments)
termination_by cs.length
decreasing_by
  have h₁ := length_of_cutAtPair _hopen
  have h₂ := length_of_cutAtPair _hclose
  omega

def segments (template : String) : Except Error (List Segment) := segmentsFrom 0 template.toList

def placeholders (template : String) : Except Error (List VarPath) :=
  (segments template).map fun parts => parts.filterMap fun
    | .text _ => none
    | .placeholder p => some p.path

end Skeleton.Template
