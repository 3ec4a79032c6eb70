-- Dictionaries whose entries are kept in the order of their keys, each key once.
-- Two dictionaries with the same look-ups are equal, so `=` compares contents.

namespace Skeleton

universe u v

-- The value that a list of entries gives a key: that of the first entry with the key.
def lookupEntry {κ : Type u} {α : Type v} [DecidableEq κ] (key : κ) : List (κ × α) → Option α
  | [] => none
  | (k, a) :: rest => if k = key then some a else lookupEntry key rest

-- Puts an entry at its place in an ordered list, over an entry with the same key.
def insertEntry {κ : Type u} {α : Type v} [Ord κ] (key : κ) (value : α) :
    List (κ × α) → List (κ × α)
  | [] => [(key, value)]
  | (k, a) :: rest =>
    match compare key k with
    | .lt => (key, value) :: (k, a) :: rest
    | .eq => (key, value) :: rest
    | .gt => (k, a) :: insertEntry key value rest

def eraseEntry {κ : Type u} {α : Type v} [DecidableEq κ] (key : κ) : List (κ × α) → List (κ × α)
  | [] => []
  | (k, a) :: rest => if k = key then eraseEntry key rest else (k, a) :: eraseEntry key rest

def SortedEntries {κ : Type u} {α : Type v} [Ord κ] (entries : List (κ × α)) : Prop :=
  entries.Pairwise fun x y => compare x.1 y.1 = .lt

section Lemmas

variable {κ : Type u} {α : Type v} [Ord κ]

theorem mem_insertEntry {key : κ} {value : α} {entries : List (κ × α)} {x : κ × α}
    (h : x ∈ insertEntry key value entries) : x = (key, value) ∨ x ∈ entries := by
  induction entries with
  | nil => simpa [insertEntry] using h
  | cons entry rest ih =>
    obtain ⟨k, a⟩ := entry
    rw [insertEntry] at h
    split at h
    · simpa using h
    · simp only [List.mem_cons] at h ⊢
      exact h.imp_right .inr
    · simp only [List.mem_cons] at h ⊢
      rcases h with h | h
      · exact .inr (.inl h)
      · exact (ih h).imp_right .inr

theorem sortedEntries_insertEntry [Std.TransOrd κ] [Std.LawfulEqOrd κ] {key : κ} {value : α}
    {entries : List (κ × α)} (h : SortedEntries entries) :
    SortedEntries (insertEntry key value entries) := by
  induction entries with
  | nil => simp [insertEntry, SortedEntries]
  | cons entry rest ih =>
    obtain ⟨k, a⟩ := entry
    obtain ⟨hk, hrest⟩ := List.pairwise_cons.mp h
    rw [insertEntry]
    split
    · rename_i hlt
      refine List.pairwise_cons.mpr ⟨?_, h⟩
      intro y hy
      rcases List.mem_cons.mp hy with rfl | hy
      · exact hlt
      · exact Std.TransCmp.lt_trans hlt (hk y hy)
    · rename_i heq
      obtain rfl := Std.LawfulEqOrd.eq_of_compare heq
      exact List.pairwise_cons.mpr ⟨hk, hrest⟩
    · rename_i hgt
      refine List.pairwise_cons.mpr ⟨?_, ih hrest⟩
      intro y hy
      rcases mem_insertEntry hy with rfl | hy
      · exact Std.OrientedCmp.lt_of_gt hgt
      · exact hk y hy

omit [Ord κ] in
theorem mem_eraseEntry [DecidableEq κ] {key : κ} {entries : List (κ × α)} {x : κ × α}
    (h : x ∈ eraseEntry key entries) : x ∈ entries := by
  induction entries with
  | nil => simp [eraseEntry] at h
  | cons entry rest ih =>
    obtain ⟨k, a⟩ := entry
    rw [eraseEntry] at h
    split at h
    · exact List.mem_cons_of_mem _ (ih h)
    · simp only [List.mem_cons] at h ⊢
      exact h.imp_right ih

theorem sortedEntries_eraseEntry [DecidableEq κ] {key : κ} {entries : List (κ × α)}
    (h : SortedEntries entries) : SortedEntries (eraseEntry key entries) := by
  induction entries with
  | nil => simp [eraseEntry, SortedEntries]
  | cons entry rest ih =>
    obtain ⟨k, a⟩ := entry
    obtain ⟨hk, hrest⟩ := List.pairwise_cons.mp h
    rw [eraseEntry]
    split
    · exact ih hrest
    · exact List.pairwise_cons.mpr ⟨fun y hy => hk y (mem_eraseEntry hy), ih hrest⟩

theorem lookupEntry_insertEntry [DecidableEq κ] [Std.LawfulEqOrd κ] (key k : κ) (value : α)
    (entries : List (κ × α)) :
    lookupEntry k (insertEntry key value entries) =
      if key = k then some value else lookupEntry k entries := by
  induction entries with
  | nil => simp [insertEntry, lookupEntry]
  | cons entry rest ih =>
    obtain ⟨l, a⟩ := entry
    rw [insertEntry]
    split
    · simp [lookupEntry]
    · rename_i heq
      obtain rfl := Std.LawfulEqOrd.eq_of_compare heq
      by_cases hk : key = k <;> simp [lookupEntry, hk]
    · rename_i hgt
      have hne : key ≠ l := by
        rintro rfl
        simp at hgt
      by_cases hl : l = k
      · simp [lookupEntry, hl, show key ≠ k from hl ▸ hne]
      · simp [lookupEntry, hl, ih]

omit [Ord κ] in
theorem lookupEntry_eraseEntry [DecidableEq κ] (key k : κ) (entries : List (κ × α)) :
    lookupEntry k (eraseEntry key entries) = if key = k then none else lookupEntry k entries := by
  induction entries with
  | nil => simp [eraseEntry, lookupEntry]
  | cons entry rest ih =>
    obtain ⟨l, a⟩ := entry
    rw [eraseEntry]
    by_cases hl : l = key
    · by_cases hk : key = k <;> simp_all [lookupEntry]
    · rw [if_neg hl]
      by_cases hk : l = k
      · simp [hk, lookupEntry, show key ≠ k from fun h => hl (hk.trans h.symm)]
      · simp [hk, lookupEntry, ih]

omit [Ord κ] in
theorem mem_of_lookupEntry [DecidableEq κ] {key : κ} {entries : List (κ × α)} {a : α}
    (h : lookupEntry key entries = some a) : (key, a) ∈ entries := by
  induction entries with
  | nil => simp [lookupEntry] at h
  | cons entry rest ih =>
    obtain ⟨k, b⟩ := entry
    by_cases hk : k = key
    · simp only [lookupEntry, if_pos hk, Option.some.injEq] at h
      simp [hk, h]
    · simp only [lookupEntry, if_neg hk] at h
      exact List.mem_cons_of_mem _ (ih h)

-- Keys stand once, so every entry is found.
theorem lookupEntry_of_mem [DecidableEq κ] [Std.LawfulEqOrd κ] {key : κ} {a : α}
    {entries : List (κ × α)} (h : SortedEntries entries) (hmem : (key, a) ∈ entries) :
    lookupEntry key entries = some a := by
  induction entries with
  | nil => simp at hmem
  | cons entry rest ih =>
    obtain ⟨k, b⟩ := entry
    obtain ⟨hk, hrest⟩ := List.pairwise_cons.mp h
    rcases List.mem_cons.mp hmem with heq | hmem
    · obtain ⟨rfl, rfl⟩ := Prod.mk.inj heq
      simp [lookupEntry]
    · have hne : k ≠ key := by
        rintro rfl
        simpa using hk _ hmem
      rw [lookupEntry, if_neg hne, ih hrest hmem]

-- The first entry has the least key.
theorem lt_of_lookupEntry_cons [DecidableEq κ] {key k : κ} {a b : α} {rest : List (κ × α)}
    (h : SortedEntries ((k, a) :: rest)) (hlookup : lookupEntry key ((k, a) :: rest) = some b)
    (hne : key ≠ k) : compare k key = .lt := by
  rcases List.mem_cons.mp (mem_of_lookupEntry hlookup) with heq | hmem
  · exact absurd (Prod.mk.inj heq).1 hne
  · exact (List.pairwise_cons.mp h).1 _ hmem

theorem eq_of_lookupEntry [DecidableEq κ] [Std.TransOrd κ] [Std.LawfulEqOrd κ]
    {first second : List (κ × α)} (hfirst : SortedEntries first) (hsecond : SortedEntries second)
    (h : ∀ key, lookupEntry key first = lookupEntry key second) : first = second := by
  induction first generalizing second with
  | nil =>
    cases second with
    | nil => rfl
    | cons entry rest => simpa [lookupEntry] using h entry.1
  | cons entry rest ih =>
    obtain ⟨k, a⟩ := entry
    cases second with
    | nil => simpa [lookupEntry] using h k
    | cons other others =>
      obtain ⟨l, b⟩ := other
      have hk : lookupEntry k ((l, b) :: others) = some a := by rw [← h]; simp [lookupEntry]
      have hl : lookupEntry l ((k, a) :: rest) = some b := by rw [h]; simp [lookupEntry]
      -- were the first keys different, each would be less than the other
      have hkl : k = l := by
        refine Decidable.byContradiction fun hne => ?_
        have hlt := lt_of_lookupEntry_cons hsecond hk hne
        have hgt := lt_of_lookupEntry_cons hfirst hl (Ne.symm hne)
        rw [Std.OrientedCmp.gt_of_lt hlt] at hgt
        cases hgt
      subst hkl
      obtain rfl : b = a := by simpa [lookupEntry] using hk
      congr 1
      refine ih (List.pairwise_cons.mp hfirst).2 (List.pairwise_cons.mp hsecond).2 fun key => ?_
      have hkey := h key
      by_cases hne : k = key
      · subst hne
        have absent : ∀ tail : List (κ × α), SortedEntries ((k, b) :: tail) →
            lookupEntry k tail = none := by
          intro tail htail
          cases hc : lookupEntry k tail with
          | none => rfl
          | some c => simpa using (List.pairwise_cons.mp htail).1 _ (mem_of_lookupEntry hc)
        rw [absent rest hfirst, absent others hsecond]
      · simpa only [lookupEntry, if_neg hne] using hkey

end Lemmas

structure Dictionary (κ : Type u) (α : Type v) [Ord κ] where
  entries : List (κ × α)
  sorted : SortedEntries entries

namespace Dictionary

variable {κ : Type u} {α : Type v} [Ord κ]

instance [DecidableEq κ] [DecidableEq α] : DecidableEq (Dictionary κ α) := fun d e =>
  if h : d.entries = e.entries then
    isTrue (by cases d; cases e; simp_all)
  else
    isFalse (fun e => h (e ▸ rfl))

def empty : Dictionary κ α := ⟨[], List.Pairwise.nil⟩

instance : Inhabited (Dictionary κ α) := ⟨empty⟩

def keys (d : Dictionary κ α) : List κ := d.entries.map Prod.fst

def size (d : Dictionary κ α) : Nat := d.entries.length

section Keyed

variable [DecidableEq κ]

def get? (d : Dictionary κ α) (key : κ) : Option α := lookupEntry key d.entries

def contains (d : Dictionary κ α) (key : κ) : Bool := (d.get? key).isSome

def erase (d : Dictionary κ α) (key : κ) : Dictionary κ α :=
  ⟨eraseEntry key d.entries, sortedEntries_eraseEntry d.sorted⟩

theorem mem_keys_of_get? {d : Dictionary κ α} {k : κ} (h : (d.get? k).isSome = true) :
    k ∈ d.keys := by
  obtain ⟨a, ha⟩ := Option.isSome_iff_exists.mp h
  exact List.mem_map_of_mem (mem_of_lookupEntry ha)

theorem get?_isSome_of_mem_keys [Std.LawfulEqOrd κ] {d : Dictionary κ α} {k : κ}
    (h : k ∈ d.keys) : (d.get? k).isSome = true := by
  obtain ⟨⟨l, a⟩, hmem, rfl⟩ := List.mem_map.mp h
  exact Option.isSome_iff_exists.mpr ⟨a, lookupEntry_of_mem d.sorted hmem⟩

theorem get?_erase (d : Dictionary κ α) (key k : κ) :
    (d.erase key).get? k = if key = k then none else d.get? k :=
  lookupEntry_eraseEntry key k d.entries

end Keyed

section Lawful

variable [Std.TransOrd κ] [Std.LawfulEqOrd κ]

def insert (d : Dictionary κ α) (key : κ) (value : α) : Dictionary κ α :=
  ⟨insertEntry key value d.entries, sortedEntries_insertEntry d.sorted⟩

theorem ext_get? [DecidableEq κ] {d e : Dictionary κ α} (h : ∀ key, d.get? key = e.get? key) :
    d = e := by
  obtain ⟨entries, sorted⟩ := d
  obtain ⟨others, ordered⟩ := e
  obtain rfl := eq_of_lookupEntry sorted ordered h
  rfl

-- The dictionary of a list of pairs; of two pairs with one key the later counts.
def ofList (pairs : List (κ × α)) : Dictionary κ α :=
  pairs.foldl (fun d (k, a) => d.insert k a) empty

theorem get?_insert [DecidableEq κ] (d : Dictionary κ α) (key k : κ) (value : α) :
    (d.insert key value).get? k = if key = k then some value else d.get? k :=
  lookupEntry_insertEntry key k value d.entries

end Lawful

@[simp]
theorem get?_empty [DecidableEq κ] (k : κ) : (empty : Dictionary κ α).get? k = none := rfl

end Dictionary

end Skeleton
