import Mathlib
import Skeleton.Value.Basic

-- The parts of values, at any depth, and what is said of all of them.

namespace Skeleton.Value

-- Induction over a value and all that it holds.
@[elab_as_elim]
theorem induct {motive : Value → Prop} (bool : ∀ b, motive (.bool b))
    (integer : ∀ n, motive (.integer n)) (float : ∀ d, motive (.float d))
    (string : ∀ s, motive (.string s))
    (sequence : ∀ items, (∀ item ∈ items, motive item) → motive (.sequence items))
    (mapping : ∀ fields, (∀ field ∈ fields, motive field.2) → motive (.mapping fields)) :
    ∀ v, motive v
  | .bool b => bool b
  | .integer n => integer n
  | .float d => float d
  | .string s => string s
  | .sequence items => sequence items fun item _ =>
    induct bool integer float string sequence mapping item
  | .mapping fields => mapping fields fun field _ =>
    induct bool integer float string sequence mapping field.2
termination_by v => sizeOf v
decreasing_by
  · rename_i hmem
    have hless := List.sizeOf_lt_of_mem hmem
    simp only [Value.sequence.sizeOf_spec]
    omega
  · rename_i hmem
    have hless := List.sizeOf_lt_of_mem hmem
    have hpart : sizeOf field = 1 + sizeOf field.1 + sizeOf field.2 := by
      cases field
      rfl
    simp only [Value.mapping.sizeOf_spec]
    omega

inductive Contains : Value → Value → Prop
  | self (v : Value) : Contains v v
  | item {items : List Value} {item part : Value} (hmem : item ∈ items) (h : Contains item part) :
      Contains (.sequence items) part
  | field {fields : List (String × Value)} {name : String} {item part : Value}
      (hmem : (name, item) ∈ fields) (h : Contains item part) : Contains (.mapping fields) part

def Numeric (v : Value) : Prop := ∀ d, v.Contains (.float d) → d.isNaN = false

def Ordered (v : Value) : Prop := ∀ fields, v.Contains (.mapping fields) → SortedEntries fields

mutual

def depth : Value → Nat
  | .sequence items => depthOfItems items + 1
  | .mapping fields => depthOfFields fields + 1
  | _ => 0

def depthOfItems : List Value → Nat
  | [] => 0
  | item :: rest => max item.depth (depthOfItems rest)

def depthOfFields : List (String × Value) → Nat
  | [] => 0
  | (_, item) :: rest => max item.depth (depthOfFields rest)

end

variable {items : List Value} {fields : List (String × Value)} {d : Double} {n : Nat}

theorem depthOfItems_le_iff : depthOfItems items ≤ n ↔ ∀ item ∈ items, item.depth ≤ n := by
  induction items with
  | nil => simp [depthOfItems]
  | cons item rest ih => rw [depthOfItems, max_le_iff, ih, List.forall_mem_cons]

theorem depthOfFields_le_iff : depthOfFields fields ≤ n ↔ ∀ field ∈ fields, field.2.depth ≤ n := by
  induction fields with
  | nil => simp [depthOfFields]
  | cons field rest ih => rw [depthOfFields, max_le_iff, ih, List.forall_mem_cons]

theorem numeric_string (s : String) : (string s).Numeric := by
  intro d hpart
  cases hpart

theorem ordered_string (s : String) : (string s).Ordered := by
  intro fields hpart
  cases hpart

theorem ordered_float (d : Double) : (float d).Ordered := by
  intro fields hpart
  cases hpart

theorem numeric_float_iff : (float d).Numeric ↔ d.isNaN = false := by
  refine ⟨fun h => h d (.self _), fun h e hpart => ?_⟩
  cases hpart
  exact h

theorem numeric_sequence_iff : (sequence items).Numeric ↔ ∀ item ∈ items, item.Numeric := by
  constructor
  · exact fun h item hmem d hpart => h d (.item hmem hpart)
  · intro h d hpart
    cases hpart with
    | item hmem hpart => exact h _ hmem d hpart

theorem numeric_mapping_iff : (mapping fields).Numeric ↔ ∀ field ∈ fields, field.2.Numeric := by
  constructor
  · exact fun h field hmem d hpart => h d (.field hmem hpart)
  · intro h d hpart
    cases hpart with
    | field hmem hpart => exact h _ hmem d hpart

theorem ordered_sequence_iff : (sequence items).Ordered ↔ ∀ item ∈ items, item.Ordered := by
  constructor
  · exact fun h item hmem fields hpart => h fields (.item hmem hpart)
  · intro h fields hpart
    cases hpart with
    | item hmem hpart => exact h _ hmem fields hpart

theorem ordered_mapping_iff : (mapping fields).Ordered ↔
    SortedEntries fields ∧ ∀ field ∈ fields, field.2.Ordered := by
  constructor
  · exact fun h => ⟨h fields (.self _), fun field hmem inner hpart => h inner (.field hmem hpart)⟩
  · rintro ⟨hsorted, h⟩ inner hpart
    cases hpart with
    | self => exact hsorted
    | field hmem hpart => exact h _ hmem inner hpart

end Skeleton.Value
