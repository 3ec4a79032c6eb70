import Skeleton.Context
import Skeleton.Template.Segment

-- The text of a template in a context.

namespace Skeleton.Template

def scalarText (path : VarPath) (v : Value) : Except Fault String :=
  match v.text? with
  | some s => .ok s
  | none => .error (.notScalar path v.kind)

-- One filter on a value. Serializers take the value, the others its text.
def applyFilter (path : VarPath) (f : Filter) (v : Value) : Except Fault String :=
  match f.serialize? v with
  | some s => .ok s
  | none => (scalarText path v).map f.applyText

def applyFilters (path : VarPath) : List Filter → Value → Except Fault String
  | [], v => scalarText path v
  | f :: rest, v => do
    let s ← applyFilter path f v
    applyFilters path rest (.string s)

def renderPlaceholder (context : Context) (p : Placeholder) : Except Error String :=
  match context.resolvePath? p.path with
  | none => .error ⟨p.offset, .unbound p.path⟩
  | some v =>
    match applyFilters p.path p.filters v with
    | .ok s => .ok s
    | .error fault => .error ⟨p.offset, fault⟩

def renderSegments (context : Context) : List Segment → Except Error String
  | [] => .ok ""
  | .text cs :: rest => do
    let s ← renderSegments context rest
    .ok (String.ofList cs ++ s)
  | .placeholder p :: rest => do
    let s ← renderPlaceholder context p
    let t ← renderSegments context rest
    .ok (s ++ t)

-- The template with every placeholder replaced. What is put in is not looked at again.
def render (context : Context) (template : String) : Except Error String := do
  renderSegments context (← segments template)

end Skeleton.Template
