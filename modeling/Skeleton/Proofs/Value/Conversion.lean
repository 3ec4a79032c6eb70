import Skeleton.Proofs.Dictionary
import Skeleton.Proofs.Double.Layout
import Skeleton.Proofs.Yaml.Keys
import Skeleton.Value.Yaml

-- Values out of documents. A mapping keeps all its entries if and only if no text among its keys is
-- also the text of another key, such as `1` and `"1"`. Of two such entries the later one stays.

namespace Skeleton.Value

open Yaml (Data)

section Conversion

variable {item : Data} {items : List Data} {entries : List (Data × Data)} {v : Value}
  {vs : List Value} {fields : List (String × Value)}

def Becomes (entry : Data × Data) (field : String × Value) : Prop :=
  fieldName? entry.1 = some field.1 ∧ ofData entry.2 = .ok field.2

theorem itemsOfData_eq_ok_iff : itemsOfData items = .ok vs ↔
    List.Forall₂ (fun item v => ofData item = .ok v) items vs := by
  induction items generalizing vs with
  | nil => simp [itemsOfData, eq_comm]
  | cons item items ih =>
    simp only [itemsOfData, bind_eq_ok_iff, ih, List.forall₂_cons_left_iff]
    constructor
    · rintro ⟨v, hv, vs, hvs, h⟩
      obtain rfl := Except.ok.inj h
      exact ⟨v, vs, hv, hvs, rfl⟩
    · rintro ⟨v, vs, hv, hvs, rfl⟩
      exact ⟨v, hv, vs, hvs, rfl⟩

-- Fields are bound one after the other, over those that are there.
theorem fieldsOfData_eq_ok_iff {d : Dictionary String Value} :
    fieldsOfData d.entries entries = .ok fields ↔ ∃ pairs, List.Forall₂ Becomes entries pairs ∧
      fields = (pairs.foldl (fun d (name, v) => d.insert name v) d).entries := by
  induction entries generalizing d with
  | nil => simp [fieldsOfData, eq_comm]
  | cons entry rest ih =>
    obtain ⟨key, item⟩ := entry
    simp only [List.forall₂_cons_left_iff]
    constructor
    · intro h
      rw [fieldsOfData] at h
      split at h
      · cases h
      · rename_i name hname
        obtain ⟨v, hv, h⟩ := bind_eq_ok_iff.mp h
        obtain ⟨pairs, hpairs, rfl⟩ := (ih (d := d.insert name v)).mp h
        exact ⟨(name, v) :: pairs, ⟨(name, v), pairs, ⟨hname, hv⟩, hpairs, rfl⟩, rfl⟩
    · rintro ⟨-, ⟨⟨name, v⟩, pairs, ⟨hname, hv⟩, hpairs, rfl⟩, rfl⟩
      simp only at hname hv
      rw [fieldsOfData, hname, hv]
      exact (ih (d := d.insert name v)).mpr ⟨pairs, hpairs, rfl⟩

-- A mapping becomes the dictionary of what its entries become.
theorem ofData_mapping_eq_ok_iff : ofData (.mapping entries) = .ok v ↔
    ∃ pairs, List.Forall₂ Becomes entries pairs ∧
      v = .mapping (Dictionary.ofList pairs).entries := by
  rw [ofData, map_eq_ok_iff]
  constructor
  · rintro ⟨fields, hfields, rfl⟩
    obtain ⟨pairs, hpairs, rfl⟩ := (fieldsOfData_eq_ok_iff (d := .empty)).mp hfields
    exact ⟨pairs, hpairs, rfl⟩
  · rintro ⟨pairs, hpairs, rfl⟩
    exact ⟨_, (fieldsOfData_eq_ok_iff (d := .empty)).mpr ⟨pairs, hpairs, rfl⟩, rfl⟩

theorem ofData_sequence_eq_ok_iff : ofData (.sequence items) = .ok v ↔
    ∃ vs, List.Forall₂ (fun item v => ofData item = .ok v) items vs ∧ .sequence vs = v := by
  simp only [ofData, map_eq_ok_iff, itemsOfData_eq_ok_iff]

-- Only mappings become mappings.
theorem sorted_of_ofData {d : Data} (h : ofData d = .ok (.mapping fields)) :
    SortedEntries fields := by
  cases d with
  | mapping entries =>
    obtain ⟨pairs, -, hfields⟩ := ofData_mapping_eq_ok_iff.mp h
    obtain rfl := Value.mapping.inj hfields
    exact (Dictionary.ofList pairs).sorted
  | integer n =>
    have hword : ofInteger n = .mapping fields := Except.ok.inj h
    unfold ofInteger at hword
    split at hword <;> cases hword
  | sequence items =>
    obtain ⟨vs, -, hvs⟩ := ofData_sequence_eq_ok_iff.mp h
    cases hvs
  | _ => cases h

-- The first of the entries with a name gives the first field with it.
theorem lookupEntry_of_forall₂ {front rest : List (Data × Data)} {pairs : List (String × Value)}
    {key : Data} {name : String}
    (h : List.Forall₂ Becomes (front ++ (key, item) :: rest) pairs)
    (hname : fieldName? key = some name)
    (hfirst : ∀ entry ∈ front, fieldName? entry.1 ≠ some name) :
    ∃ v, ofData item = .ok v ∧ lookupEntry name pairs = some v := by
  induction front generalizing pairs with
  | nil =>
    cases h with
    | @cons _ pair _ _ hpair _ =>
      obtain ⟨other, v⟩ := pair
      obtain rfl : name = other := Option.some.inj (hname.symm.trans hpair.1)
      exact ⟨v, hpair.2, by simp [lookupEntry]⟩
  | cons entry front ih =>
    obtain ⟨hentry, hfirst⟩ := List.forall_mem_cons.mp hfirst
    cases h with
    | @cons _ pair _ _ hpair h =>
      obtain ⟨other, w⟩ := pair
      have hne : other ≠ name := fun heq => hentry (heq ▸ hpair.1)
      rw [lookupEntry, if_neg hne]
      exact ih h hfirst

-- Of the entries with one name the last one stays.
theorem last_entry_stays {before after : List (Data × Data)} {key : Data} {name : String}
    (h : ofData (.mapping (before ++ (key, item) :: after)) = .ok (.mapping fields))
    (hname : fieldName? key = some name) (hlast : ∀ entry ∈ after, fieldName? entry.1 ≠ some name) :
    ∃ v, ofData item = .ok v ∧ lookupEntry name fields = some v := by
  obtain ⟨pairs, hpairs, hfields⟩ := ofData_mapping_eq_ok_iff.mp h
  obtain rfl := Value.mapping.inj hfields
  have hreverse := List.rel_reverse hpairs
  rw [List.reverse_append, List.reverse_cons, List.append_assoc, List.singleton_append] at hreverse
  obtain ⟨v, hv, hlookup⟩ := lookupEntry_of_forall₂ hreverse hname
    fun entry hentry => hlast entry (List.mem_reverse.mp hentry)
  exact ⟨v, hv, (Dictionary.get?_ofList pairs name).trans hlookup⟩

end Conversion

section Keys

variable {key other : Data} {name : String} {entries : List (Data × Data)}

-- A text that is a key, and another key with this text.
def Clashes (entries : List (Data × Data)) : Prop :=
  ∃ s x key y, (.string s, x) ∈ entries ∧ (key, y) ∈ entries ∧ key ≠ .string s ∧
    fieldName? key = some s

theorem boolText_injective :
    Function.Injective fun b : Bool => if b then "true" else "false" := by
  decide

theorem boolText_ne_write (b : Bool) (d : Double) :
    (if b then "true" else "false") ≠ Yaml.floatLayout.write d := by
  intro h
  obtain ⟨c, rest, hcons, hc⟩ := Double.head_write d
  rw [← h] at hcons
  cases b <;>
  · obtain rfl := (List.cons.inj hcons).1
    revert hc
    decide

theorem boolText_ne_decimalInt (b : Bool) (n : Int) :
    (if b then "true" else "false") ≠ Text.decimalInt n := by
  intro h
  have hmem {c : Char} (hc : c ∈ (if b then "true" else "false").toList) :=
    Text.mem_decimalInt (h ▸ hc)
  cases b with
  | true => exact absurd (hmem (c := 't') (by decide)) (by decide)
  | false => exact absurd (hmem (c := 'f') (by decide)) (by decide)

theorem decimalInt_ne_write (n : Int) (d : Double) :
    Text.decimalInt n ≠ Yaml.floatLayout.write d := by
  intro h
  have hmem {c : Char} (hc : c ∈ (Yaml.floatLayout.write d).toList) :=
    Text.mem_decimalInt (h ▸ hc)
  rcases Double.point_or_exponent_mem_write d with hc | hc
  · exact absurd (hmem hc) (by decide)
  · exact absurd (hmem hc) (by decide)

-- Of keys that are no texts, only those that are the same have one name.
theorem same_of_fieldName? (hkey : fieldName? key = some name)
    (hother : fieldName? other = some name) (hstring : key ≠ .string name)
    (hstring' : other ≠ .string name) : key.same other = true := by
  have hsame := hkey.trans hother.symm
  cases key <;> cases other <;> simp only [fieldName?, reduceCtorEq, Option.some.injEq] at *
  case bool.bool a b => simpa [Data.same] using boolText_injective hsame
  case bool.integer a n => exact absurd hsame (boolText_ne_decimalInt a n)
  case bool.float a d => exact absurd hsame (boolText_ne_write a d)
  case integer.bool n a => exact absurd hsame.symm (boolText_ne_decimalInt a n)
  case integer.integer m n => simpa [Data.same] using Text.decimalInt_injective hsame
  case integer.float n d => exact absurd hsame (decimalInt_ne_write n d)
  case float.bool d a => exact absurd hsame.symm (boolText_ne_write a d)
  case float.integer d n => exact absurd hsame.symm (decimalInt_ne_write n d)
  case float.float a b =>
    rw [Data.same]
    exact Double.sameFloat_of_write hsame
  all_goals simp_all

-- With keys that differ from each other, two have one name only if one of them is its text.
theorem nodup_names_iff (hkeys : entries.Pairwise fun x y => y.1.same x.1 = false)
    (hnames : ∀ entry ∈ entries, ∃ name, fieldName? entry.1 = some name) :
    (entries.map fun entry => fieldName? entry.1).Nodup ↔ ¬ Clashes entries := by
  constructor
  · rintro hnodup ⟨s, x, key, y, hs, hkey, hne, hname⟩
    have heq := List.inj_on_of_nodup_map hnodup hkey hs hname
    exact hne (Prod.mk.inj heq).1
  · intro hclash
    refine List.pairwise_map.mpr (hkeys.imp_of_mem fun {x y} hx hy hdiffer heq => ?_)
    obtain ⟨name, hname⟩ := hnames x hx
    have hname' := heq.symm.trans hname
    by_cases hstring : x.1 = .string name
    · by_cases hstring' : y.1 = .string name
      · simp [hstring, hstring', Data.same] at hdiffer
      · exact hclash ⟨name, x.2, y.1, y.2, hstring ▸ hx, hy, hstring', hname'⟩
    · by_cases hstring' : y.1 = .string name
      · exact hclash ⟨name, y.2, x.1, x.2, hstring' ▸ hy, hx, hstring, hname⟩
      · rw [same_of_fieldName? hname' hname hstring' hstring] at hdiffer
        cases hdiffer

end Keys

section Keeping

mutual

-- A value with everything that a document says: of a mapping every entry, under its name.
inductive Keeps : Data → Value → Prop
  | bool (b : Bool) : Keeps (.bool b) (.bool b)
  | integer (n : Int) : Keeps (.integer n) (ofInteger n)
  | float (d : Double) : Keeps (.float d) (.float d)
  | string (s : String) : Keeps (.string s) (.string s)
  | sequence {items : List Data} {vs : List Value} (h : KeepsItems items vs) :
      Keeps (.sequence items) (.sequence vs)
  | mapping {entries : List (Data × Data)} {fields : List (String × Value)}
      (hsize : fields.length = entries.length) (h : KeepsEntries entries fields) :
      Keeps (.mapping entries) (.mapping fields)

inductive KeepsItems : List Data → List Value → Prop
  | nil : KeepsItems [] []
  | cons {item : Data} {items : List Data} {v : Value} {vs : List Value} (hitem : Keeps item v)
      (h : KeepsItems items vs) : KeepsItems (item :: items) (v :: vs)

inductive KeepsEntries : List (Data × Data) → List (String × Value) → Prop
  | nil {fields : List (String × Value)} : KeepsEntries [] fields
  | cons {key item : Data} {entries : List (Data × Data)} {name : String} {v : Value}
      {fields : List (String × Value)} (hname : fieldName? key = some name)
      (hlookup : lookupEntry name fields = some v) (hitem : Keeps item v)
      (h : KeepsEntries entries fields) : KeepsEntries ((key, item) :: entries) fields

end

variable {d part : Data} {v : Value} {items : List Data} {vs : List Value}
  {entries : List (Data × Data)} {fields pairs : List (String × Value)}

theorem keepsItems_iff : KeepsItems items vs ↔ List.Forall₂ Keeps items vs := by
  constructor
  · intro h
    induction items generalizing vs with
    | nil =>
      cases h
      exact .nil
    | cons item items ih =>
      cases h with
      | cons hitem h => exact .cons hitem (ih h)
  · intro h
    induction h with
    | nil => exact .nil
    | cons hitem _ ih => exact .cons hitem ih

theorem keepsEntries_iff : KeepsEntries entries fields ↔ ∀ entry ∈ entries, ∃ name v,
    fieldName? entry.1 = some name ∧ lookupEntry name fields = some v ∧ Keeps entry.2 v := by
  induction entries with
  | nil => exact ⟨fun _ => List.forall_mem_nil _, fun _ => .nil⟩
  | cons entry entries ih =>
    rw [List.forall_mem_cons, ← ih]
    constructor
    · intro h
      cases h with
      | cons hname hlookup hitem h => exact ⟨⟨_, _, hname, hlookup, hitem⟩, h⟩
    · rintro ⟨⟨name, v, hname, hlookup, hitem⟩, h⟩
      exact .cons hname hlookup hitem h

-- No entry is lost if and only if the names differ.
theorem length_eq_iff (h : List.Forall₂ Becomes entries pairs) :
    (Dictionary.ofList pairs).entries.length = entries.length ↔
      (entries.map fun entry => fieldName? entry.1).Nodup := by
  have hnames : entries.map (fun entry => fieldName? entry.1) = (pairs.map Prod.fst).map some := by
    induction h with
    | nil => rfl
    | cons hpair _ ih => simp only [List.map_cons, hpair.1, ih]
  rw [h.length_eq, hnames, List.nodup_map_iff (Option.some_injective _),
    ← Dictionary.size_ofList_eq_iff, Dictionary.size]

theorem lookupEntry_of_becomes (h : List.Forall₂ Becomes entries pairs)
    (hnodup : (entries.map fun entry => fieldName? entry.1).Nodup) :
    ∀ entry ∈ entries, ∃ name v, fieldName? entry.1 = some name ∧
      lookupEntry name (Dictionary.ofList pairs).entries = some v ∧ ofData entry.2 = .ok v := by
  intro entry hentry
  obtain ⟨⟨name, v⟩, hpair, hname, hv⟩ := exists_of_forall₂ h entry hentry
  have hnames : (pairs.map Prod.fst).Nodup := by
    rw [← Dictionary.size_ofList_eq_iff, Dictionary.size, ← h.length_eq]
    exact (length_eq_iff h).mpr hnodup
  refine ⟨name, v, hname, ?_, hv⟩
  exact (Dictionary.get?_ofList_of_nodup hnames name).trans
    ((lookupEntry_eq_some_iff hnames).mpr hpair)

-- Where everything is kept, what a part becomes keeps everything.
theorem exists_of_contains (hpart : d.Contains part) (h : ofData d = .ok v) (hkeeps : Keeps d v) :
    ∃ w, ofData part = .ok w ∧ Keeps part w := by
  induction hpart generalizing v with
  | self d => exact ⟨v, h, hkeeps⟩
  | item hmem _ ih =>
    obtain ⟨vs, hvs, rfl⟩ := ofData_sequence_eq_ok_iff.mp h
    cases hkeeps with
    | sequence hitems =>
      have hboth := List.Forall₂.mp (fun _ _ => And.intro) hvs (keepsItems_iff.mp hitems)
      obtain ⟨w, -, hw, hkeeps⟩ := exists_of_forall₂ hboth _ hmem
      exact ih hw hkeeps
  | value hmem _ ih =>
    obtain ⟨pairs, hpairs, rfl⟩ := ofData_mapping_eq_ok_iff.mp h
    cases hkeeps with
    | mapping hsize hentries =>
      have hnodup := (length_eq_iff hpairs).mp hsize
      obtain ⟨name, w, hname, hlookup, hkeeps⟩ := keepsEntries_iff.mp hentries _ hmem
      obtain ⟨other, w', hother, hlookup', hw⟩ := lookupEntry_of_becomes hpairs hnodup _ hmem
      obtain rfl := Option.some.inj (hname.symm.trans hother)
      obtain rfl := Option.some.inj (hlookup.symm.trans hlookup')
      exact ih hw hkeeps

theorem exists_name (h : List.Forall₂ Becomes entries pairs) :
    ∀ entry ∈ entries, ∃ name, fieldName? entry.1 = some name := by
  intro entry hentry
  obtain ⟨pair, -, hname, -⟩ := exists_of_forall₂ h entry hentry
  exact ⟨pair.1, hname⟩

mutual

theorem keeps_of_not_clashes {v : Value} : ∀ d : Data, d.Distinct →
    (∀ entries, d.Contains (.mapping entries) → ¬ Clashes entries) → ofData d = .ok v → Keeps d v
  | .null, _, _, h => by cases h
  | .bool b, _, _, h => by
    obtain rfl := Except.ok.inj h
    exact .bool b
  | .integer n, _, _, h => by
    obtain rfl := Except.ok.inj h
    exact .integer n
  | .float d, _, _, h => by
    obtain rfl := Except.ok.inj h
    exact .float d
  | .string s, _, _, h => by
    obtain rfl := Except.ok.inj h
    exact .string s
  | .sequence items, hdistinct, hclear, h => by
    obtain ⟨vs, hvs, rfl⟩ := ofData_sequence_eq_ok_iff.mp h
    refine .sequence (keepsItems_of_not_clashes items ?_ ?_ hvs)
    · exact fun item hmem entries hpart => hdistinct entries (.item hmem hpart)
    · exact fun item hmem entries hpart => hclear entries (.item hmem hpart)
  | .mapping entries, hdistinct, hclear, h => by
    obtain ⟨pairs, hpairs, rfl⟩ := ofData_mapping_eq_ok_iff.mp h
    have hnodup : (entries.map fun entry => fieldName? entry.1).Nodup :=
      (nodup_names_iff (hdistinct entries (.self _)) (exists_name hpairs)).mpr
        (hclear entries (.self _))
    refine .mapping ((length_eq_iff hpairs).mpr hnodup)
      (keepsEntries_of_not_clashes entries ?_ ?_ (lookupEntry_of_becomes hpairs hnodup))
    · exact fun entry hmem inner hpart => hdistinct inner (.value hmem hpart)
    · exact fun entry hmem inner hpart => hclear inner (.value hmem hpart)
  | .tagged _ _, _, _, h => by cases h

theorem keepsItems_of_not_clashes {vs : List Value} : ∀ items : List Data,
    (∀ item ∈ items, item.Distinct) →
    (∀ item ∈ items, ∀ entries, item.Contains (.mapping entries) → ¬ Clashes entries) →
    List.Forall₂ (fun item v => ofData item = .ok v) items vs → KeepsItems items vs
  | [], _, _, h => by
    cases h
    exact .nil
  | item :: items, hdistinct, hclear, h => by
    cases h with
    | cons hv hvs =>
      obtain ⟨hitem, hdistinct⟩ := List.forall_mem_cons.mp hdistinct
      obtain ⟨hitem', hclear⟩ := List.forall_mem_cons.mp hclear
      exact .cons (keeps_of_not_clashes item hitem hitem' hv)
        (keepsItems_of_not_clashes items hdistinct hclear hvs)

theorem keepsEntries_of_not_clashes {fields : List (String × Value)} :
    ∀ entries : List (Data × Data), (∀ entry ∈ entries, entry.2.Distinct) →
    (∀ entry ∈ entries, ∀ inner, entry.2.Contains (.mapping inner) → ¬ Clashes inner) →
    (∀ entry ∈ entries, ∃ name v, fieldName? entry.1 = some name ∧
      lookupEntry name fields = some v ∧ ofData entry.2 = .ok v) → KeepsEntries entries fields
  | [], _, _, _ => .nil
  | (key, item) :: entries, hdistinct, hclear, h => by
    obtain ⟨hitem, hdistinct⟩ := List.forall_mem_cons.mp hdistinct
    obtain ⟨hitem', hclear⟩ := List.forall_mem_cons.mp hclear
    obtain ⟨⟨name, v, hname, hlookup, hv⟩, h⟩ := List.forall_mem_cons.mp h
    exact .cons hname hlookup (keeps_of_not_clashes item hitem hitem' hv)
      (keepsEntries_of_not_clashes entries hdistinct hclear h)

end

-- A value has everything that the document says if and only if no text among the keys of a mapping
-- is also the text of another key there.
theorem keeps_iff (hdistinct : d.Distinct) (h : ofData d = .ok v) :
    Keeps d v ↔ ∀ entries, d.Contains (.mapping entries) → ¬ Clashes entries := by
  refine ⟨fun hkeeps entries hpart => ?_, fun hclear => keeps_of_not_clashes d hdistinct hclear h⟩
  obtain ⟨w, hw, hkeeps⟩ := exists_of_contains hpart h hkeeps
  obtain ⟨pairs, hpairs, rfl⟩ := ofData_mapping_eq_ok_iff.mp hw
  cases hkeeps with
  | mapping hsize _ =>
    exact (nodup_names_iff (hdistinct entries hpart) (exists_name hpairs)).mp
      ((length_eq_iff hpairs).mp hsize)

def ports : Data :=
  .mapping [(.integer 80, .string "http"),
    (.string "443", .sequence [.mapping [(.bool true, .string "https")]])]

theorem keeps_iff_ports : Keeps ports (.mapping
    [("443", .sequence [.mapping [("true", .string "https")]]), ("80", .string "http")]) := by
  have hscalar (s : String) : (Data.string s).Distinct := nofun
  have hdistinct : ports.Distinct := by
    refine Data.distinct_mapping (by decide) ?_
    refine List.forall_mem_cons.mpr ⟨hscalar _, List.forall_mem_singleton.mpr ?_⟩
    refine Data.distinct_sequence (List.forall_mem_singleton.mpr ?_)
    exact Data.distinct_mapping (by decide) (List.forall_mem_singleton.mpr (hscalar _))
  refine (keeps_iff hdistinct (by cbv)).mpr fun entries hpart => ?_
  cases hpart with
  | self =>
    rintro ⟨s, x, key, y, hs, hkey, hne, hname⟩
    simp only [List.mem_cons, Prod.mk.injEq, reduceCtorEq, false_and, List.not_mem_nil, or_false,
      false_or, Data.string.injEq] at hs hkey
    obtain ⟨rfl, -⟩ := hs
    rcases hkey with ⟨rfl, -⟩ | ⟨rfl, -⟩
    · exact absurd (Option.some.inj hname) (by decide)
    · exact hne rfl
  | value hmem hpart =>
    rcases List.mem_pair.mp hmem with heq | heq <;> obtain ⟨rfl, rfl⟩ := Prod.mk.inj heq
    · cases hpart
    cases hpart with
    | item hmem hpart =>
      obtain rfl := List.mem_singleton.mp hmem
      cases hpart with
      | self => simp [Clashes]
      | value hmem hpart =>
        obtain ⟨rfl, rfl⟩ := Prod.mk.inj (List.mem_singleton.mp hmem)
        cases hpart

def twins : String := "1: a\n\"1\": b\n"

def twinKeys : List (Data × Data) := [(.integer 1, .string "a"), (.string "1", .string "b")]

-- Data has no decided equality, so the entries of the document are compared one by one.
def areTwinKeys : Data → Bool
  | .mapping [(.integer n, .string a), (.string k, .string b)] =>
    n == 1 && a == "a" && k == "1" && b == "b"
  | _ => false

theorem eq_twinKeys {d : Data} (h : areTwinKeys d = true) : d = .mapping twinKeys := by
  unfold areTwinKeys at h
  split at h
  · simp only [Bool.and_eq_true, beq_iff_eq] at h
    obtain ⟨⟨⟨rfl, rfl⟩, rfl⟩, rfl⟩ := h
    rfl
  · cases h

theorem entry_lost : Yaml.dataOf twins = .ok (.mapping twinKeys) ∧
    ofData (.mapping twinKeys) = .ok (.mapping [("1", .string "b")]) ∧
    ¬ Keeps (.mapping twinKeys) (.mapping [("1", .string "b")]) := by
  refine ⟨?_, by cbv, fun hkeeps => ?_⟩
  · have hreads : (Yaml.dataOf twins).toOption.any areTwinKeys = true := by decide +kernel
    simp only [Option.any_eq_true, toOption_eq_some_iff] at hreads
    obtain ⟨d, hd, htwins⟩ := hreads
    rw [hd, eq_twinKeys htwins]
  · cases hkeeps with
    | mapping hsize _ => cases hsize

end Keeping

end Skeleton.Value
