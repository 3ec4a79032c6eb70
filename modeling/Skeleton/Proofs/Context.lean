import Skeleton.Context
import Skeleton.Proofs.Dictionary

-- What a name shows after a layer is pushed: its binding there, if it has one, or what it showed
-- before.

namespace Skeleton

-- Where something is repeated, there is a first that stands before already.
theorem exists_first_repeat {α : Type} {xs : List α} (h : ¬ xs.Nodup) :
    ∃ before x after, xs = before ++ x :: after ∧ before.Nodup ∧ x ∈ before := by
  induction xs using List.reverseRecOn with
  | nil => exact absurd List.nodup_nil h
  | append_singleton xs x ih =>
    by_cases hxs : xs.Nodup
    · rw [← List.concat_eq_append, List.nodup_concat] at h
      exact ⟨xs, x, [], rfl, hxs, not_not.mp fun hnew => h ⟨hnew, hxs⟩⟩
    · obtain ⟨before, y, after, rfl, hbefore, hy⟩ := ih hxs
      exact ⟨before, y, after ++ [x], by simp, hbefore, hy⟩

namespace Context

variable {c c' : Context} {label : String} {pairs : List (String × Value)}

theorem get?_of_addBindings {bindings result : Dictionary String Value}
    (h : addBindings bindings pairs = .ok result) (name : String) :
    result.get? name = (bindings.get? name).or (lookupEntry name pairs) := by
  induction pairs generalizing bindings with
  | nil =>
    obtain rfl := Except.ok.inj h
    simp [lookupEntry]
  | cons pair rest ih =>
    obtain ⟨other, v⟩ := pair
    rw [addBindings] at h
    split at h
    · cases h
    · rename_i hfree
      have hnone : bindings.get? other = none := by
        simpa [Dictionary.contains] using hfree
      rw [ih h, Dictionary.get?_insert]
      by_cases hname : other = name
      · subst hname
        simp [hnone, lookupEntry]
      · simp [hname, lookupEntry]

theorem contains_of_addBindings {bindings result : Dictionary String Value}
    (h : addBindings bindings pairs = .ok result) {name : String} :
    result.contains name = true ↔ bindings.contains name = true ∨ name ∈ pairs.map Prod.fst := by
  rw [Dictionary.contains, get?_of_addBindings h, Option.isSome_or, Bool.or_eq_true,
    lookupEntry_isSome_iff, Dictionary.contains]

theorem addBindings_append {bindings result : Dictionary String Value}
    (h : addBindings bindings pairs = .ok result) (others : List (String × Value)) :
    addBindings bindings (pairs ++ others) = addBindings result others := by
  induction pairs generalizing bindings with
  | nil =>
    obtain rfl := Except.ok.inj h
    rfl
  | cons pair rest ih =>
    rw [addBindings] at h
    split at h
    · cases h
    · rename_i hfree
      rw [List.cons_append, addBindings, if_neg hfree, ih h]

theorem exists_addBindings (h : (pairs.map Prod.fst).Nodup) :
    ∃ result, addBindings .empty pairs = .ok result := by
  induction pairs using List.reverseRecOn with
  | nil => exact ⟨.empty, rfl⟩
  | append_singleton pairs pair ih =>
    rw [List.map_append, List.map_singleton, ← List.concat_eq_append, List.nodup_concat] at h
    obtain ⟨result, hresult⟩ := ih h.2
    have hfree : ¬ result.contains pair.1 = true := by
      rw [contains_of_addBindings hresult]
      simpa [Dictionary.contains] using h.1
    exact ⟨_, by rw [addBindings_append hresult, addBindings, if_neg hfree, addBindings]⟩

theorem push_eq_ok (h : c.push label pairs = .ok c') :
    ∃ bindings : Dictionary String Value, c' = ⟨⟨label, bindings⟩ :: c.layers⟩ ∧
      ∀ name, bindings.get? name = lookupEntry name pairs := by
  unfold push at h
  split at h
  · rename_i bindings hadd
    obtain rfl := Except.ok.inj h
    refine ⟨bindings, rfl, fun name => ?_⟩
    rw [get?_of_addBindings hadd, Dictionary.get?_empty, Option.none_or]
  · cases h

theorem exists_push (h : (pairs.map Prod.fst).Nodup) (c : Context) (label : String) :
    ∃ c', c.push label pairs = .ok c' := by
  obtain ⟨result, hresult⟩ := exists_addBindings h
  exact ⟨⟨⟨label, result⟩ :: c.layers⟩, by rw [push, hresult]⟩

-- The name that is reported is the first that stands before already.
theorem push_eq_error_iff {e : DuplicateBinding} : c.push label pairs = .error e ↔
    ∃ before name after, pairs.map Prod.fst = before ++ name :: after ∧ before.Nodup ∧
      name ∈ before ∧ e = ⟨name, label⟩ := by
  have hrepeated {before after : List String} {name : String}
      (hnames : pairs.map Prod.fst = before ++ name :: after) (hbefore : before.Nodup)
      (hname : name ∈ before) : c.push label pairs = .error ⟨name, label⟩ := by
    obtain ⟨first, second, rfl, rfl, hsecond⟩ := List.map_eq_append_iff.mp hnames
    obtain ⟨⟨_, v⟩, rest, rfl, rfl, -⟩ := List.map_eq_cons_iff.mp hsecond
    obtain ⟨result, hresult⟩ := exists_addBindings hbefore
    have hcontains := (contains_of_addBindings hresult).mpr (.inr hname)
    rw [push, addBindings_append hresult, addBindings, if_pos hcontains]
  constructor
  · intro h
    have hnodup : ¬ (pairs.map Prod.fst).Nodup := by
      intro hnodup
      obtain ⟨c', hc'⟩ := exists_push hnodup c label
      cases hc'.symm.trans h
    obtain ⟨before, name, after, hnames, hbefore, hname⟩ := exists_first_repeat hnodup
    obtain rfl := Except.error.inj ((hrepeated hnames hbefore hname).symm.trans h)
    exact ⟨before, name, after, hnames, hbefore, hname, rfl⟩
  · rintro ⟨before, name, after, hnames, hbefore, hname, rfl⟩
    exact hrepeated hnames hbefore hname

theorem resolve?_push (h : c.push label pairs = .ok c') (name : String) :
    c'.resolve? name = (lookupEntry name pairs).or (c.resolve? name) := by
  obtain ⟨bindings, rfl, hget⟩ := push_eq_ok h
  simp only [resolve?, List.findSome?_cons, hget]
  cases lookupEntry name pairs <;> rfl

theorem layerOf?_push (h : c.push label pairs = .ok c') (name : String) :
    c'.layerOf? name = if (lookupEntry name pairs).isSome then some label else c.layerOf? name := by
  obtain ⟨bindings, rfl, hget⟩ := push_eq_ok h
  simp only [layerOf?, List.find?_cons, Dictionary.contains, hget]
  cases lookupEntry name pairs <;> rfl

end Context

end Skeleton
