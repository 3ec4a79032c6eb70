import Skeleton.Command.Variables
import Skeleton.Proofs.Context
import Skeleton.Proofs.Except

-- The kinds of the values that declared variables have for a command. What a scaffold, a file of
-- values or the command line gives a variable is of its kind; what only the defaults for all
-- scaffolds give it is taken as it is.

namespace Skeleton

theorem Value.kind_of_coerce {kind : Kind} {v w : Value} (h : v.coerce kind = .ok w) :
    w.kind = kind := by
  unfold Value.coerce at h
  split at h
  · obtain rfl := Except.ok.inj h
    rfl
  · split at h
    · rename_i hkind
      obtain rfl := Except.ok.inj h
      exact hkind
    · cases h

namespace Blueprint

variable {b : Blueprint} {c c' globals : Context} {name label text : String} {v w : Value}

-- A value that a variable may have: any at all for one that is not declared.
def Suits (b : Blueprint) (name : String) (v : Value) : Prop :=
  ∀ d, b.declarations.get? name = some d → v.kind = d.kind

theorem suits_of_coerceValue (h : b.coerceValue name v = .ok w) : b.Suits name w := by
  intro d hd
  simp only [coerceValue, hd] at h
  exact Value.kind_of_coerce (mapError_eq_ok_iff.mp h)

theorem suits_of_coerceText (h : b.coerceText name text = .ok v) : b.Suits name v := by
  intro d hd
  simp only [coerceText, hd] at h
  split at h
  · rename_i hstring
    obtain rfl := Except.ok.inj h
    exact hstring.symm
  · obtain ⟨w, -, hcoerce⟩ := bind_eq_ok_iff.mp (mapError_eq_ok_iff.mp h)
    exact Value.kind_of_coerce hcoerce

section Loading

variable {draft : VariableDraft} {d : Declaration}

theorem kind_of_declaration (h : draft.declaration name = .ok d) (hv : d.default = some v) :
    v.kind = d.kind := by
  unfold VariableDraft.declaration at h
  split at h
  · cases h
  · obtain ⟨default, hdefault, h⟩ := bind_eq_ok_iff.mp h
    obtain rfl := Except.ok.inj h
    obtain rfl : default = some v := hv
    cases hdata : draft.default with
    | none =>
      rw [hdata] at hdefault
      cases hdefault
    | some data =>
      rw [hdata] at hdefault
      obtain ⟨w, hw, heq⟩ := bind_eq_ok_iff.mp hdefault
      obtain rfl : w = v := Option.some.inj (Except.ok.inj heq)
      obtain ⟨_, -, hcoerce⟩ := bind_eq_ok_iff.mp (mapError_eq_ok_iff.mp hw)
      exact Value.kind_of_coerce hcoerce

theorem kind_of_load {disk : Disk} {baseDir : Path} (h : load disk baseDir text = .ok b)
    (hd : b.declarations.get? name = some d) (hv : d.default = some v) : v.kind = d.kind := by
  obtain ⟨draft, -, h⟩ := bind_eq_ok_iff.mp h
  obtain ⟨pairs, hpairs, h⟩ := bind_eq_ok_iff.mp h
  obtain ⟨nodes, hnodes, h⟩ := bind_eq_ok_iff.mp h
  split at h
  · obtain ⟨outline, houtline, h⟩ := bind_eq_ok_iff.mp h
    obtain ⟨hooks, hhooks, h⟩ := bind_eq_ok_iff.mp h
    obtain rfl := Except.ok.inj h
    have hmem : (name, d) ∈ pairs := Dictionary.mem_of_get?_ofList hd
    obtain ⟨⟨other, draft⟩, -, hpair⟩ := exists_of_mem_mapM hpairs _ hmem
    obtain ⟨declaration, hdeclaration, heq⟩ := bind_eq_ok_iff.mp hpair
    obtain ⟨rfl, rfl⟩ := Prod.mk.inj (Except.ok.inj heq)
    exact kind_of_declaration hdeclaration hv
  · cases h

end Loading

section Layers

-- What a context shows for a declared variable: a value of its kind, or what the defaults for all
-- scaffolds say where the scaffold has no default.
def Shows (b : Blueprint) (globals c : Context) : Prop :=
  ∀ name d v, b.declarations.get? name = some d → c.resolve? name = some v →
    v.kind = d.kind ∨
      d.default = none ∧ c.layerOf? name = some "global" ∧ globals.resolve? name = some v

theorem Shows.push {pairs : List (String × Value)} (h : b.Shows globals c)
    (hpairs : ∀ pair ∈ pairs, b.Suits pair.1 pair.2) (hpush : c.push label pairs = .ok c') :
    b.Shows globals c' := by
  intro name d v hd hv
  rw [Context.resolve?_push hpush] at hv
  rw [Context.layerOf?_push hpush]
  cases hlookup : lookupEntry name pairs with
  | some w =>
    rw [hlookup] at hv
    obtain rfl := Option.some.inj hv
    exact .inl (hpairs _ (mem_of_lookupEntry hlookup) d hd)
  | none =>
    rw [hlookup] at hv
    exact h name d v hd hv

def defaults (b : Blueprint) : List (String × Value) :=
  b.declarations.entries.filterMap fun (name, d) => d.default.map fun v => (name, v)

theorem mem_defaults_iff :
    (name, v) ∈ b.defaults ↔ ∃ d, b.declarations.get? name = some d ∧ d.default = some v := by
  simp only [defaults, List.mem_filterMap, Option.map_eq_some_iff, Prod.mk.injEq]
  constructor
  · rintro ⟨⟨other, d⟩, hmem, w, hw, rfl, rfl⟩
    exact ⟨d, lookupEntry_of_mem b.declarations.sorted hmem, hw⟩
  · rintro ⟨d, hd, hv⟩
    exact ⟨(name, d), mem_of_lookupEntry hd, v, hv, rfl, rfl⟩

-- The defaults of a scaffold hide those for all scaffolds, whatever their kind.
theorem shows_context
    (hdefaults : ∀ name d v, b.declarations.get? name = some d → d.default = some v →
      v.kind = d.kind)
    (hglobals : ∀ name v, globals.resolve? name = some v → globals.layerOf? name = some "global")
    (h : b.context globals = .ok c) : b.Shows globals c := by
  have hpush : globals.push ("scaffold:" ++ b.name) b.defaults = .ok c := mapError_eq_ok_iff.mp h
  intro name d v hd hv
  rw [Context.resolve?_push hpush] at hv
  rw [Context.layerOf?_push hpush]
  cases hlookup : lookupEntry name b.defaults with
  | some w =>
    rw [hlookup] at hv
    obtain rfl := Option.some.inj hv
    obtain ⟨d', hd', hw⟩ := mem_defaults_iff.mp (mem_of_lookupEntry hlookup)
    obtain rfl := Option.some.inj (hd.symm.trans hd')
    exact .inl (hdefaults name d _ hd hw)
  | none =>
    rw [hlookup, Option.none_or] at hv
    refine .inr ⟨?_, hglobals name v hv, hv⟩
    cases hdefault : d.default with
    | none => rfl
    | some w =>
      have hmem := List.mem_map_of_mem (f := Prod.fst) (mem_defaults_iff.mpr ⟨d, hd, hdefault⟩)
      exact absurd hmem (lookupEntry_eq_none_iff.mp hlookup)

end Layers

end Blueprint

namespace Command

variable {disk other : Disk} {b : Blueprint} {c c' globals : Context} {source : Option DefaultsFile}
  {file : Option Path} {overrides : List (String × String)}

theorem layerOf?_of_loadDefaults (h : loadDefaults disk source = .ok globals) (name : String)
    (v : Value) (hv : globals.resolve? name = some v) : globals.layerOf? name = some "global" := by
  have hlayer {p : Path} (h : readLayer disk p = .ok globals) :
      globals.layerOf? name = some "global" := by
    obtain ⟨fields, -, h⟩ := bind_eq_ok_iff.mp h
    have hpush := mapError_eq_ok_iff.mp h
    rw [Context.resolve?_push hpush] at hv
    rw [Context.layerOf?_push hpush]
    cases hlookup : lookupEntry name fields with
    | none => rw [hlookup] at hv; cases hv
    | some w => rfl
  have hempty (h : .ok .empty = (.ok globals : Except CommandFault Context)) :
      globals.layerOf? name = some "global" := by
    obtain rfl := Except.ok.inj h
    cases hv
  unfold loadDefaults at h
  split at h
  · exact hempty h
  · exact hlayer h
  · split at h
    · exact hlayer h
    · exact hempty h

theorem shows_pushFile (h : b.Shows globals c) (hpush : pushFile disk b file c = .ok c') :
    b.Shows globals c' := by
  unfold pushFile at hpush
  split at hpush
  · obtain rfl := Except.ok.inj hpush
    exact h
  · obtain ⟨fields, -, hpush⟩ := bind_eq_ok_iff.mp hpush
    obtain ⟨bindings, hbindings, hpush⟩ := bind_eq_ok_iff.mp hpush
    refine h.push (fun pair hpair => ?_) (mapError_eq_ok_iff.mp hpush)
    obtain ⟨⟨name, v⟩, -, hcoerced⟩ := exists_of_mem_mapM hbindings pair hpair
    obtain ⟨w, hw, heq⟩ := bind_eq_ok_iff.mp hcoerced
    obtain rfl := Except.ok.inj heq
    exact Blueprint.suits_of_coerceValue (mapError_eq_ok_iff.mp hw)

theorem shows_pushOverrides (h : b.Shows globals c) (hpush : pushOverrides b overrides c = .ok c') :
    b.Shows globals c' := by
  unfold pushOverrides at hpush
  split at hpush
  · obtain rfl := Except.ok.inj hpush
    exact h
  · obtain ⟨bindings, hbindings, hpush⟩ := bind_eq_ok_iff.mp hpush
    refine h.push (fun pair hpair => ?_) (mapError_eq_ok_iff.mp hpush)
    obtain ⟨⟨name, text⟩, -, hcoerced⟩ := exists_of_mem_mapM hbindings pair hpair
    obtain ⟨w, hw, heq⟩ := bind_eq_ok_iff.mp hcoerced
    obtain rfl := Except.ok.inj heq
    exact Blueprint.suits_of_coerceText (mapError_eq_ok_iff.mp hw)

theorem resolve?_of_missing {name : String} {d : Declaration} (h : b.missing c = [])
    (hd : b.declarations.get? name = some d) : ∃ v, c.resolve? name = some v := by
  have hkey : name ∈ b.declarations.keys :=
    Dictionary.mem_keys_of_get? (Option.isSome_iff_exists.mpr ⟨d, hd⟩)
  have hbound := List.filter_eq_nil_iff.mp h name hkey
  rw [Option.isNone_iff_eq_none] at hbound
  exact Option.ne_none_iff_exists'.mp hbound

-- In the context of a loaded scaffold every declared variable has a value, and one of its kind
-- unless only the defaults for all scaffolds give it one.
theorem kind_of_buildContext {baseDir : Path} {text : String} {here there : Disk}
    (hload : Blueprint.load disk baseDir text = .ok b)
    (hglobals : loadDefaults here source = .ok globals)
    (hbuild : buildContext there b globals file overrides = .ok c) {name : String} {d : Declaration}
    (hd : b.declarations.get? name = some d) :
    ∃ v, c.resolve? name = some v ∧
      (v.kind = d.kind ∨
        d.default = none ∧ c.layerOf? name = some "global" ∧ globals.resolve? name = some v) := by
  obtain ⟨bottom, hbottom, hbuild⟩ := bind_eq_ok_iff.mp hbuild
  obtain ⟨middle, hmiddle, hbuild⟩ := bind_eq_ok_iff.mp hbuild
  obtain ⟨top, htop, hbuild⟩ := bind_eq_ok_iff.mp hbuild
  have hshows : b.Shows globals top := by
    have hcontext := Blueprint.shows_context (fun _ _ _ => Blueprint.kind_of_load hload)
      (layerOf?_of_loadDefaults hglobals) (mapError_eq_ok_iff.mp hbottom)
    exact shows_pushOverrides (shows_pushFile hcontext hmiddle) htop
  split at hbuild
  · rename_i hmissing
    obtain rfl := Except.ok.inj hbuild
    obtain ⟨v, hv⟩ := resolve?_of_missing hmissing hd
    exact ⟨v, hv, hshows name d v hd hv⟩
  · cases hbuild

-- A scaffold that asks for a float, where the defaults for all scaffolds have an integer.
def gauge : String := "name: s\nvariables:\n  ratio: { type: float }\nroot:\n  dir: d\n"

def home : Disk :=
  Disk.blank.put ["defaults.yaml"] (.file 0o600 "ratio: 3\n".toUTF8)

def atHome : Option DefaultsFile := some (.explicit (.ofName "defaults.yaml"))

theorem gauge_contexts :
    ∃ b globals low high d v, Blueprint.load .blank .empty gauge = .ok b ∧
      loadDefaults home atHome = .ok globals ∧
      buildContext .blank b globals none [] = .ok low ∧
      buildContext .blank b globals none [("ratio", "2")] = .ok high ∧
      b.declarations.get? "ratio" = some d ∧ low.resolve? "ratio" = some v ∧ v.kind ≠ d.kind := by
  have hread : home.readText (.ofName "defaults.yaml") = .ok "ratio: 3\n" := by cbv
  have hruns : ((Blueprint.load .blank .empty gauge).toOption.any fun b =>
      (loadDefaults home atHome).toOption.any fun globals =>
      (buildContext .blank b globals none []).toOption.any fun low =>
      (buildContext .blank b globals none [("ratio", "2")]).toOption.any fun high =>
      (b.declarations.get? "ratio").any fun d =>
      (low.resolve? "ratio").any fun v => v.kind != d.kind) = true := by
    simp only [loadDefaults, atHome, readLayer, readVariables, hread]
    decide +kernel
  simp only [Option.any_eq_true, toOption_eq_some_iff, bne_iff_ne] at hruns
  obtain ⟨b, hb, globals, hglobals, low, hlow, high, hhigh, d, hd, v, hv, hne⟩ := hruns
  exact ⟨b, globals, low, high, d, v, hb, hglobals, hlow, hhigh, hd, hv, hne⟩

theorem kind_of_buildContext_gauge :
    ∃ b globals c d v, Blueprint.load .blank .empty gauge = .ok b ∧
      loadDefaults home atHome = .ok globals ∧
      buildContext .blank b globals none [("ratio", "2")] = .ok c ∧
      b.declarations.get? "ratio" = some d ∧ c.resolve? "ratio" = some v ∧
      (v.kind = d.kind ∨ d.default = none ∧ c.layerOf? "ratio" = some "global" ∧
        globals.resolve? "ratio" = some v) := by
  obtain ⟨b, globals, -, c, d, -, hb, hglobals, -, hc, hd, -⟩ := gauge_contexts
  obtain ⟨v, hv, hkind⟩ := kind_of_buildContext hb hglobals hc hd
  exact ⟨b, globals, c, d, v, hb, hglobals, hc, hd, hv, hkind⟩

theorem integer_for_float :
    ∃ b globals c d v, Blueprint.load .blank .empty gauge = .ok b ∧
      loadDefaults home atHome = .ok globals ∧ buildContext .blank b globals none [] = .ok c ∧
      b.declarations.get? "ratio" = some d ∧ c.resolve? "ratio" = some v ∧ v.kind ≠ d.kind := by
  obtain ⟨b, globals, c, -, d, v, hb, hglobals, hc, -, hd, hv, hne⟩ := gauge_contexts
  exact ⟨b, globals, c, d, v, hb, hglobals, hc, hd, hv, hne⟩

end Command

end Skeleton
