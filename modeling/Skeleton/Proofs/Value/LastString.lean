import Skeleton.Proofs.Value.Parts

-- The last part of a value, where it is a string, and values with another string there.

namespace Skeleton.Value

mutual

-- The value with another string in place of its last part, if that is a string.
def mapLast (f : String → String) : Value → Value
  | .string s => .string (f s)
  | .sequence items => .sequence (mapLastItem f items)
  | .mapping fields => .mapping (mapLastField f fields)
  | v => v

def mapLastItem (f : String → String) : List Value → List Value
  | [] => []
  | [item] => [mapLast f item]
  | item :: rest => item :: mapLastItem f rest

def mapLastField (f : String → String) : List (String × Value) → List (String × Value)
  | [] => []
  | [(name, item)] => [(name, mapLast f item)]
  | field :: rest => field :: mapLastField f rest

end

mutual

def lastString? : Value → Option String
  | .string s => some s
  | .sequence items => lastStringOfItems? items
  | .mapping fields => lastStringOfFields? fields
  | _ => none

def lastStringOfItems? : List Value → Option String
  | [] => none
  | [item] => item.lastString?
  | _ :: rest => lastStringOfItems? rest

def lastStringOfFields? : List (String × Value) → Option String
  | [] => none
  | [(_, item)] => item.lastString?
  | _ :: rest => lastStringOfFields? rest

end

variable {f : String → String} {items : List Value} {fields : List (String × Value)}

theorem mapLastItem_eq_self_iff (h : ∀ item ∈ items, item.mapLast f = item ↔
    ∀ s, item.lastString? = some s → f s = s) :
    mapLastItem f items = items ↔ ∀ s, lastStringOfItems? items = some s → f s = s := by
  induction items with
  | nil => simp [mapLastItem, lastStringOfItems?]
  | cons item rest ih =>
    obtain ⟨hitem, hrest⟩ := List.forall_mem_cons.mp h
    cases rest with
    | nil => rw [mapLastItem, lastStringOfItems?, List.singleton_inj, hitem]
    | cons item' rest =>
      rw [mapLastItem, lastStringOfItems?, List.cons_inj_right, ih hrest]
      · exact nofun
      · exact nofun

theorem mapLastField_eq_self_iff (h : ∀ field ∈ fields, field.2.mapLast f = field.2 ↔
    ∀ s, field.2.lastString? = some s → f s = s) :
    mapLastField f fields = fields ↔ ∀ s, lastStringOfFields? fields = some s → f s = s := by
  induction fields with
  | nil => simp [mapLastField, lastStringOfFields?]
  | cons field rest ih =>
    obtain ⟨hfield, hrest⟩ := List.forall_mem_cons.mp h
    cases rest with
    | nil => rw [mapLastField, lastStringOfFields?, List.singleton_inj, ← hfield, Prod.ext_iff,
        and_iff_right rfl]
    | cons field' rest =>
      rw [mapLastField, lastStringOfFields?, List.cons_inj_right, ih hrest]
      · exact nofun
      · exact nofun

-- A value stays the same if and only if its last string does.
theorem mapLast_eq_self_iff (v : Value) :
    v.mapLast f = v ↔ ∀ s, v.lastString? = some s → f s = s := by
  induction v using induct with
  | bool | integer | float => simp [mapLast, lastString?]
  | string s => simp [mapLast, lastString?]
  | sequence items ih =>
    rw [mapLast, lastString?, Value.sequence.injEq]
    exact mapLastItem_eq_self_iff ih
  | mapping fields ih =>
    rw [mapLast, lastString?, Value.mapping.injEq]
    exact mapLastField_eq_self_iff ih

theorem mapLast_id (v : Value) : v.mapLast id = v := (mapLast_eq_self_iff v).mpr fun _ _ => rfl

theorem keys_mapLastField : (mapLastField f fields).map Prod.fst = fields.map Prod.fst := by
  induction fields with
  | nil => rfl
  | cons field rest ih =>
    cases rest with
    | nil => rw [mapLastField, List.map_singleton, List.map_singleton]
    | cons field' rest =>
      rw [mapLastField, List.map_cons, ih]
      · rfl
      · exact nofun

theorem sorted_mapLastField (h : SortedEntries fields) : SortedEntries (mapLastField f fields) := by
  have hkeys : (fields.map Prod.fst).Pairwise fun k l => compare k l = .lt :=
    List.pairwise_map.mpr h
  rw [← @keys_mapLastField f] at hkeys
  exact List.pairwise_map.mp hkeys

end Skeleton.Value
