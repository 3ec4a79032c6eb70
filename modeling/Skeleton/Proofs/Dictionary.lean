import Mathlib
import Skeleton.Dictionary

-- Dictionaries of lists of pairs: what they give a key, and how many keys they have.

namespace Skeleton

universe u v w

section Entries

variable {κ : Type u} {α : Type v} [DecidableEq κ] {key : κ} {a : α} {pairs others : List (κ × α)}

theorem lookupEntry_eq_none_iff : lookupEntry key pairs = none ↔ key ∉ pairs.map Prod.fst := by
  induction pairs with
  | nil => simp [lookupEntry]
  | cons pair rest ih =>
    obtain ⟨k, a⟩ := pair
    by_cases h : k = key
    · simp [lookupEntry, h]
    · simp [lookupEntry, h, ih, Ne.symm h]

theorem lookupEntry_isSome_iff :
    (lookupEntry key pairs).isSome = true ↔ key ∈ pairs.map Prod.fst := by
  rw [← not_iff_not, Bool.not_eq_true, Option.isSome_eq_false_iff, Option.isNone_iff_eq_none,
    lookupEntry_eq_none_iff]

-- A key that stands once is given what stands with it.
theorem lookupEntry_eq_some_iff (h : (pairs.map Prod.fst).Nodup) :
    lookupEntry key pairs = some a ↔ (key, a) ∈ pairs := by
  refine ⟨mem_of_lookupEntry, fun hmem => ?_⟩
  induction pairs with
  | nil => cases hmem
  | cons pair rest ih =>
    obtain ⟨k, b⟩ := pair
    obtain ⟨hnew, hrest⟩ := List.nodup_cons.mp h
    rcases List.mem_cons.mp hmem with heq | hmem
    · obtain ⟨rfl, rfl⟩ := Prod.mk.inj heq
      simp [lookupEntry]
    · have hne : k ≠ key := fun heq => hnew (List.mem_map.mpr ⟨_, hmem, heq.symm⟩)
      rw [lookupEntry, if_neg hne, ih hrest hmem]

omit [DecidableEq κ] in
theorem sortedEntries_iff [Ord κ] :
    SortedEntries pairs ↔ (pairs.map Prod.fst).Pairwise fun k l => compare k l = .lt := by
  rw [SortedEntries, List.pairwise_map]

theorem lookupEntry_map {β : Type w} (f : α → β) (pairs : List (κ × α)) (key : κ) :
    lookupEntry key (pairs.map fun (k, a) => (k, f a)) = (lookupEntry key pairs).map f := by
  induction pairs with
  | nil => rfl
  | cons pair rest ih =>
    obtain ⟨k, a⟩ := pair
    by_cases h : k = key <;> simp [lookupEntry, h, ih]

end Entries

namespace Dictionary

variable {κ : Type u} {α : Type v} [Ord κ] [Std.LawfulEqOrd κ]

theorem nodup_keys (d : Dictionary κ α) : d.keys.Nodup := by
  refine List.pairwise_map.mpr (d.sorted.imp fun {x y} hlt heq => ?_)
  rw [heq] at hlt
  simp at hlt

variable [DecidableEq κ]

theorem contains_iff {d : Dictionary κ α} {key : κ} : d.contains key = true ↔ key ∈ d.keys :=
  ⟨mem_keys_of_get?, get?_isSome_of_mem_keys⟩

variable [Std.TransOrd κ]

theorem size_insert (d : Dictionary κ α) (key : κ) (a : α) :
    (d.insert key a).size = if d.contains key then d.size else d.size + 1 := by
  have hsize (d : Dictionary κ α) : d.size = d.keys.toFinset.card := by
    rw [List.toFinset_card_of_nodup d.nodup_keys, keys, List.length_map, size]
  have hkeys : (d.insert key a).keys.toFinset = Insert.insert key d.keys.toFinset := by
    ext k
    simp only [List.mem_toFinset, Finset.mem_insert, ← contains_iff, contains, get?_insert]
    rcases eq_or_ne key k with rfl | h
    · simp
    · simp [h, h.symm]
  rw [hsize, hkeys, hsize d, Finset.card_insert_eq_ite]
  simp only [List.mem_toFinset, contains_iff]

variable {pairs : List (κ × α)} {key : κ} {a : α}

omit [DecidableEq κ] in
theorem ofList_append_singleton (pairs : List (κ × α)) (key : κ) (a : α) :
    ofList (pairs ++ [(key, a)]) = (ofList pairs).insert key a := by
  simp [ofList]

-- The last pair with a key counts.
theorem get?_ofList (pairs : List (κ × α)) (key : κ) :
    (ofList pairs).get? key = lookupEntry key pairs.reverse := by
  induction pairs using List.reverseRecOn with
  | nil => rfl
  | append_singleton pairs pair ih =>
    obtain ⟨k, a⟩ := pair
    rw [ofList_append_singleton, get?_insert, ih, List.reverse_concat, lookupEntry]

theorem get?_ofList_of_nodup (h : (pairs.map Prod.fst).Nodup) (key : κ) :
    (ofList pairs).get? key = lookupEntry key pairs := by
  have hreverse : (pairs.reverse.map Prod.fst).Nodup := by
    rw [List.map_reverse]
    exact List.nodup_reverse.mpr h
  ext a
  rw [get?_ofList, lookupEntry_eq_some_iff hreverse, lookupEntry_eq_some_iff h, List.mem_reverse]

theorem mem_of_get?_ofList (h : (ofList pairs).get? key = some a) : (key, a) ∈ pairs := by
  rw [get?_ofList] at h
  exact List.mem_reverse.mp (mem_of_lookupEntry h)

-- The pairs of a dictionary are its entries.
theorem ofList_entries (d : Dictionary κ α) : ofList d.entries = d :=
  ext_get? fun key => get?_ofList_of_nodup d.nodup_keys key

theorem entries_ofList (h : SortedEntries pairs) : (ofList pairs).entries = pairs :=
  congrArg entries (ofList_entries ⟨pairs, h⟩)

theorem contains_ofList : (ofList pairs).contains key = true ↔ key ∈ pairs.map Prod.fst := by
  rw [contains, get?_ofList, lookupEntry_isSome_iff, List.map_reverse, List.mem_reverse]

theorem size_ofList_le (pairs : List (κ × α)) : (ofList pairs).size ≤ pairs.length := by
  induction pairs using List.reverseRecOn with
  | nil => exact le_rfl
  | append_singleton pairs pair ih =>
    rw [ofList_append_singleton, size_insert, List.length_append, List.length_singleton]
    split <;> omega

-- No pair is lost if and only if no key is repeated.
theorem size_ofList_eq_iff :
    (ofList pairs).size = pairs.length ↔ (pairs.map Prod.fst).Nodup := by
  induction pairs using List.reverseRecOn with
  | nil => simp [ofList, size, empty]
  | append_singleton pairs pair ih =>
    have hle := size_ofList_le pairs
    have hnodup : ((pairs ++ [pair]).map Prod.fst).Nodup ↔
        pair.1 ∉ pairs.map Prod.fst ∧ (pairs.map Prod.fst).Nodup := by
      rw [List.map_append, List.map_singleton, ← List.concat_eq_append, List.nodup_concat]
    rw [ofList_append_singleton, size_insert, List.length_append, List.length_singleton, hnodup,
      ← ih, ← contains_ofList]
    split <;> simp_all
    omega

end Dictionary

end Skeleton
