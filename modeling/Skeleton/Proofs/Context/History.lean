import Skeleton.Proofs.Context

-- What a context shows, told from what was pushed onto it.

namespace Skeleton

structure Push where
  label : String
  pairs : List (String × Value)

namespace Push

def names (p : Push) : List String := p.pairs.map Prod.fst

-- The first name of a push that stands in it before already.
def Repeats (p : Push) (name : String) : Prop :=
  ∃ before after, p.names = before ++ name :: after ∧ before.Nodup ∧ name ∈ before

end Push

-- The last push that gives a name gives it the value, under the label. A push that repeats a name
-- is refused, and gives none.
def LastGives (pushes : List Push) (name label : String) (v : Value) : Prop :=
  ∃ older p newer, pushes = older ++ p :: newer ∧ p.names.Nodup ∧ p.label = label ∧
    (name, v) ∈ p.pairs ∧ ∀ q ∈ newer, q.names.Nodup → name ∉ q.names

-- From a value to one in it, by one field of a mapping after the other.
inductive Value.Walk : Value → List String → Value → Prop where
  | here (v) : Walk v [] v
  | field {fields name v names w} (h : lookupEntry name fields = some v) (rest : Walk v names w) :
      Walk (.mapping fields) (name :: names) w

section LastGives

variable {pushes : List Push} {p : Push} {name label : String} {v : Value}

-- What a list with one more at its end is cut at is the last one, or stood in the list before.
theorem cut_concat {α : Type} {xs older newer : List α} {x y : α}
    (h : xs ++ [x] = older ++ y :: newer) :
    (xs = older ∧ x = y ∧ newer = []) ∨
      ∃ between, xs = older ++ y :: between ∧ newer = between ++ [x] := by
  rcases List.eq_nil_or_concat' newer with rfl | ⟨between, z, rfl⟩
  · obtain ⟨rfl, hlast⟩ := List.append_inj' h rfl
    exact .inl ⟨rfl, List.singleton_inj.mp hlast, rfl⟩
  · rw [← List.cons_append, ← List.append_assoc] at h
    obtain ⟨rfl, hlast⟩ := List.append_inj' h rfl
    exact .inr ⟨between, rfl, by rw [List.singleton_inj.mp hlast]⟩

theorem lastGives_of_gives (hnodup : p.names.Nodup) (hname : name ∈ p.names) :
    LastGives (pushes ++ [p]) name label v ↔ p.label = label ∧ (name, v) ∈ p.pairs := by
  constructor
  · rintro ⟨older, q, newer, heq, -, hlabel, hpair, hlast⟩
    rcases cut_concat heq with ⟨-, rfl, -⟩ | ⟨between, -, rfl⟩
    · exact ⟨hlabel, hpair⟩
    · exact absurd hname (hlast p (by simp) hnodup)
  · rintro ⟨hlabel, hpair⟩
    exact ⟨pushes, p, [], rfl, hnodup, hlabel, hpair, by simp⟩

theorem lastGives_of_not_gives (h : p.names.Nodup → name ∉ p.names) :
    LastGives (pushes ++ [p]) name label v ↔ LastGives pushes name label v := by
  constructor
  · rintro ⟨older, q, newer, heq, hnodup, hlabel, hpair, hlast⟩
    rcases cut_concat heq with ⟨-, rfl, -⟩ | ⟨between, rfl, rfl⟩
    · exact absurd (List.mem_map.mpr ⟨_, hpair, rfl⟩) (h hnodup)
    · exact ⟨older, q, between, rfl, hnodup, hlabel, hpair, fun r hr => hlast r (by simp [hr])⟩
  · rintro ⟨older, q, newer, rfl, hnodup, hlabel, hpair, hlast⟩
    refine ⟨older, q, newer ++ [p], by simp, hnodup, hlabel, hpair, ?_⟩
    exact List.forall_mem_append.mpr ⟨hlast, by simpa using h⟩

end LastGives

namespace Context

section Queries

variable {c : Context} {name : String} {v w : Value} {fields : List String}

theorem mem_names_iff :
    name ∈ c.names ↔ ∃ layer ∈ c.layers, layer.bindings.contains name = true := by
  rw [names, ← Dictionary.contains_iff, Dictionary.contains_ofList]
  simp [Dictionary.contains_iff]

theorem resolve?_isSome_iff : (c.resolve? name).isSome = true ↔ name ∈ c.names := by
  rw [mem_names_iff, resolve?, List.findSome?_isSome_iff]
  rfl

theorem layerOf?_isSome_iff : (c.layerOf? name).isSome = true ↔ name ∈ c.names := by
  rw [mem_names_iff, layerOf?, Option.isSome_map, List.find?_isSome]

theorem pairwise_names (c : Context) : c.names.Pairwise fun a b => compare a b = .lt :=
  sortedEntries_iff.mp (Dictionary.sorted _)

-- The pairs that the kinds of a context are made of have its names, in order.
theorem map_fst_kinds (c : Context) :
    (c.names.filterMap fun name => (c.resolve? name).map fun v => (name, v.kind)).map Prod.fst =
      c.names := by
  rw [List.map_filterMap]
  refine (List.filterMap_congr fun name hname => ?_).trans List.filterMap_some
  obtain ⟨v, hv⟩ := Option.isSome_iff_exists.mp (resolve?_isSome_iff.mpr hname)
  simp [hv]

theorem keys_schema (c : Context) : (Schema.ofContext c).keys = c.names := by
  have hsorted := pairwise_names c
  rw [← map_fst_kinds c, ← sortedEntries_iff] at hsorted
  rw [Schema.ofContext, Dictionary.keys, Dictionary.entries_ofList hsorted, map_fst_kinds]

theorem kindOf?_schema (c : Context) (name : String) :
    (Schema.ofContext c).kindOf? name = (c.resolve? name).map Value.kind := by
  have hnodup : ((c.names.filterMap fun name =>
      (c.resolve? name).map fun v => (name, v.kind)).map Prod.fst).Nodup := by
    rw [map_fst_kinds]
    exact Dictionary.nodup_keys _
  ext kind
  rw [Schema.kindOf?, Schema.ofContext, Dictionary.get?_ofList_of_nodup hnodup,
    lookupEntry_eq_some_iff hnodup]
  simp only [List.mem_filterMap, Option.map_eq_some_iff, Prod.mk.injEq]
  constructor
  · rintro ⟨_, -, v, hv, rfl, rfl⟩
    exact ⟨v, hv, rfl⟩
  · rintro ⟨v, hv, rfl⟩
    exact ⟨name, resolve?_isSome_iff.mp (by simp [hv]), v, hv, rfl, rfl⟩

theorem followFields_eq_some_iff : followFields v fields = some w ↔ v.Walk fields w := by
  induction fields generalizing v with
  | nil =>
    rw [followFields, Option.some_inj]
    exact ⟨fun h => h ▸ .here v, fun h => by cases h; rfl⟩
  | cons name rest ih =>
    rw [followFields, Option.bind_eq_some_iff]
    constructor
    · rintro ⟨field, hfield, hrest⟩
      cases v with
      | mapping fields => exact .field hfield (ih.mp hrest)
      | _ => cases hfield
    · rintro (_ | ⟨hfield, hrest⟩)
      exact ⟨_, hfield, ih.mpr hrest⟩

theorem resolvePath?_eq_some_iff {path : VarPath} : c.resolvePath? path = some v ↔
    ∃ start, c.resolve? path.root = some start ∧ start.Walk path.fields v := by
  simp only [resolvePath?, Option.bind_eq_some_iff, followFields_eq_some_iff]

end Queries

def pushed (c : Context) (p : Push) : Context :=
  match c.push p.label p.pairs with
  | .ok c' => c'
  | .error _ => c

def ofPushes (pushes : List Push) : Context := pushes.foldl pushed .empty

section Pushes

variable {c c' : Context} {p : Push} {pushes : List Push} {pairs : List (String × Value)}
  {name label : String} {v : Value}

theorem ofPushes_append_singleton (pushes : List Push) (p : Push) :
    ofPushes (pushes ++ [p]) = (ofPushes pushes).pushed p := by
  simp [ofPushes]

theorem pushed_of_nodup (h : p.names.Nodup) (c : Context) :
    c.push p.label p.pairs = .ok (c.pushed p) := by
  obtain ⟨c', hc'⟩ := exists_push h c p.label
  rw [pushed, hc']

theorem nodup_of_push (h : c.push label pairs = .ok c') : (pairs.map Prod.fst).Nodup := by
  by_contra hrepeats
  obtain ⟨before, name, after, hnames, hbefore, hname⟩ := exists_first_repeat hrepeats
  have hrefused : c.push label pairs = .error ⟨name, label⟩ :=
    push_eq_error_iff.mpr ⟨before, name, after, hnames, hbefore, hname, rfl⟩
  cases h.symm.trans hrefused

theorem pushed_of_not_nodup (h : ¬ p.names.Nodup) (c : Context) : c.pushed p = c := by
  unfold pushed
  split
  · rename_i c' hpush
    exact absurd (nodup_of_push hpush) h
  · rfl

theorem depth_of_push (h : c.push label pairs = .ok c') : c'.depth = c.depth + 1 := by
  obtain ⟨bindings, rfl, -⟩ := push_eq_ok h
  rfl

theorem depth_ofPushes (pushes : List Push) :
    (ofPushes pushes).depth = pushes.countP fun p => decide p.names.Nodup := by
  induction pushes using List.reverseRecOn with
  | nil => rfl
  | append_singleton pushes p ih =>
    rw [ofPushes_append_singleton, List.countP_append, List.countP_singleton, ← ih]
    by_cases h : p.names.Nodup
    · simp [h, depth_of_push (pushed_of_nodup h _)]
    · simp [h, pushed_of_not_nodup h]

-- By induction on the pushes. The last one gives the name anew, or leaves what it shows.
theorem shown_ofPushes_iff : (ofPushes pushes).resolve? name = some v ∧
    (ofPushes pushes).layerOf? name = some label ↔ LastGives pushes name label v := by
  induction pushes using List.reverseRecOn with
  | nil =>
    constructor
    · rintro ⟨⟨⟩, -⟩
    · rintro ⟨older, p, newer, heq, -⟩
      simp at heq
  | append_singleton pushes p ih =>
    rw [ofPushes_append_singleton]
    by_cases hnodup : p.names.Nodup
    · have hpush := pushed_of_nodup hnodup (ofPushes pushes)
      rw [resolve?_push hpush, layerOf?_push hpush]
      cases hgiven : lookupEntry name p.pairs with
      | none =>
        have hname := lookupEntry_eq_none_iff.mp hgiven
        rw [lastGives_of_not_gives fun _ => hname, ← ih]
        rfl
      | some w =>
        have hname : name ∈ p.names := lookupEntry_isSome_iff.mp (by simp [hgiven])
        rw [lastGives_of_gives hnodup hname, ← lookupEntry_eq_some_iff hnodup, hgiven]
        simp [and_comm]
    · rw [pushed_of_not_nodup hnodup, ih, lastGives_of_not_gives fun h => absurd h hnodup]

end Pushes

-- The answers of a context, told from what was pushed.
structure Remembers (c : Context) (pushes : List Push) : Prop where
  refused : ∀ (p : Push) (e : DuplicateBinding),
    c.push p.label p.pairs = .error e ↔ p.Repeats e.name ∧ e.layer = p.label
  accepted : ∀ p : Push,
    (∃ c', c.push p.label p.pairs = .ok c' ∧ c'.depth = c.depth + 1) ↔ p.names.Nodup
  depth : c.depth = pushes.countP fun p => decide p.names.Nodup
  shown : ∀ name label v, c.resolve? name = some v ∧ c.layerOf? name = some label ↔
    LastGives pushes name label v
  bound : ∀ name, ((c.resolve? name).isSome = true ↔ name ∈ c.names) ∧
    ((c.layerOf? name).isSome = true ↔ name ∈ c.names)
  declared : (Schema.ofContext c).keys = c.names ∧
    ∀ name, (Schema.ofContext c).kindOf? name = (c.resolve? name).map Value.kind
  walked : ∀ path : VarPath, (c.isBound path = true ↔ ∃ v, c.resolvePath? path = some v) ∧
    ∀ v, c.resolvePath? path = some v ↔
      ∃ label start, LastGives pushes path.root label start ∧ start.Walk path.fields v

-- A context answers from what was pushed onto it, whatever that was: it shows what the last push
-- with a name gave the name, under the label of that push, and where a path starts at a name, it
-- looks at nothing older.
theorem remembers_ofPushes (pushes : List Push) : (ofPushes pushes).Remembers pushes where
  refused p e := by
    rw [push_eq_error_iff]
    constructor
    · rintro ⟨before, name, after, hnames, hbefore, hname, rfl⟩
      exact ⟨⟨before, after, hnames, hbefore, hname⟩, rfl⟩
    · rintro ⟨⟨before, after, hnames, hbefore, hname⟩, hlabel⟩
      exact ⟨before, e.name, after, hnames, hbefore, hname, by rw [← hlabel]⟩
  accepted p := by
    constructor
    · exact fun ⟨c', hpush, _⟩ => nodup_of_push hpush
    · intro h
      have hpush := pushed_of_nodup h (ofPushes pushes)
      exact ⟨_, hpush, depth_of_push hpush⟩
  depth := depth_ofPushes pushes
  shown _ _ _ := shown_ofPushes_iff
  bound _ := ⟨resolve?_isSome_iff, layerOf?_isSome_iff⟩
  declared := ⟨keys_schema _, kindOf?_schema _⟩
  walked path := by
    refine ⟨Option.isSome_iff_exists, fun v => ?_⟩
    simp only [resolvePath?_eq_some_iff, ← shown_ofPushes_iff]
    constructor
    · rintro ⟨start, hstart, hwalk⟩
      have hbound := resolve?_isSome_iff.mp (Option.isSome_iff_exists.mpr ⟨start, hstart⟩)
      obtain ⟨label, hlabel⟩ := Option.isSome_iff_exists.mp (layerOf?_isSome_iff.mpr hbound)
      exact ⟨label, start, ⟨hstart, hlabel⟩, hwalk⟩
    · rintro ⟨label, start, ⟨hstart, -⟩, hwalk⟩
      exact ⟨start, hstart, hwalk⟩

-- The newest layer that is left hides the older one, and the refused one adds nothing.
example :
    let c := ofPushes [⟨"global", [("port", .integer 80), ("host", .string "a")]⟩,
      ⟨"args", [("port", .integer 8080)]⟩, ⟨"file", [("host", .string "b"), ("host", .string "c")]⟩]
    (c.depth, c.names, c.layerOf? "port", c.layerOf? "host") =
      (2, ["host", "port"], some "args", some "global") := by
  decide +kernel

end Context

end Skeleton
