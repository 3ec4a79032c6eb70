import Skeleton.Proofs.Command.Given
import Skeleton.Proofs.Command.Kinds

-- Which value a name has for a command, of those that the defaults for all scaffolds, the scaffold,
-- a file of values and the command line give it, and which of several faults is reported.

namespace Skeleton

namespace Command

section Layers

variable {disk : Disk} {b : Blueprint} {globals c c' : Context} {file : Option Path}
  {overrides : List (String × String)} {fields : List (String × Value)} {e : CommandFault}

-- The value that a name has: what the command line gives it, else what the file of values does,
-- else its default, else what is said outside of the scaffold, if anything is.
inductive Shown (b : Blueprint) (globals : Context) (fields : List (String × Value))
    (overrides : List (String × String)) (name : String) : Option Value → Prop
  | override {text : String} {v : Value} (hmem : (name, text) ∈ overrides)
      (hv : b.coerceText name text = .ok v) : Shown b globals fields overrides name (some v)
  | file {v w : Value} (hoverride : name ∉ overrides.map Prod.fst) (hmem : (name, v) ∈ fields)
      (hw : b.coerceValue name v = .ok w) : Shown b globals fields overrides name (some w)
  | default {d : Declaration} {v : Value} (hoverride : name ∉ overrides.map Prod.fst)
      (hfile : name ∉ fields.map Prod.fst) (hd : b.declarations.get? name = some d)
      (hv : d.default = some v) : Shown b globals fields overrides name (some v)
  | outside (hoverride : name ∉ overrides.map Prod.fst) (hfile : name ∉ fields.map Prod.fst)
      (hdefault : ∀ d, b.declarations.get? name = some d → d.default = none) :
      Shown b globals fields overrides name (globals.resolve? name)

structure Lacks (disk : Disk) (b : Blueprint) (globals : Context) (file : Option Path)
    (overrides : List (String × String)) (name : String) : Prop where
  declared : ∃ d, b.declarations.get? name = some d ∧ d.default = none
  override : name ∉ overrides.map Prod.fst
  file : ∀ fields, Supplies disk file fields → name ∉ fields.map Prod.fst
  outside : globals.resolve? name = none

-- What faults are looked for, in this order.
inductive Check where
  | file
  | values
  | texts
  | names
  | missing

def Check.place : Check → Nat
  | .file => 0
  | .values => 1
  | .texts => 2
  | .names => 3
  | .missing => 4

-- The fault that a check finds, whatever the other checks find. Of several values, texts or names
-- that are not as they should be it is that of the first.
inductive Flaw (disk : Disk) (b : Blueprint) (globals : Context) (file : Option Path)
    (overrides : List (String × String)) : Check → CommandFault → Prop
  | file {p : Path} {fault : ConfigFault} (hfile : file = some p)
      (hmisread : Misread disk p fault) :
      Flaw disk b globals file overrides .file (.config fault)
  | value {fields before after : List (String × Value)} {name : String} {v : Value}
      {fault : ValueFault} (hfields : Supplies disk file fields)
      (hsplit : fields = before ++ (name, v) :: after)
      (hbefore : ∀ pair ∈ before, ∀ fault, ¬ b.Misfits pair.1 pair.2 fault)
      (hmisfits : b.Misfits name v fault) :
      Flaw disk b globals file overrides .values (.scaffold (.invalidOverride name fault))
  | text {before after : List (String × String)} {name text : String} {fault : ValueFault}
      (hsplit : overrides = before ++ (name, text) :: after)
      (hbefore : ∀ pair ∈ before, ∀ fault, ¬ b.Misspells pair.1 pair.2 fault)
      (hmisspells : b.Misspells name text fault) :
      Flaw disk b globals file overrides .texts (.scaffold (.invalidOverride name fault))
  | name {before after : List String} {name : String}
      (hsplit : overrides.map Prod.fst = before ++ name :: after) (hbefore : before.Nodup)
      (hname : name ∈ before) :
      Flaw disk b globals file overrides .names
        (.scaffold (.build (.duplicateBinding ⟨name, "command-line"⟩)))
  | missing {names : List String} (hne : names ≠ []) (hsorted : names.Pairwise (· < ·))
      (hnames : ∀ name, name ∈ names ↔ Lacks disk b globals file overrides name) :
      Flaw disk b globals file overrides .missing (.missingVariables names)

-- A file that can be read has no fault of its own.
theorem not_flaw_file_of_supplies (h : Supplies disk file fields) :
    ¬ Flaw disk b globals file overrides .file e := by
  rintro ⟨rfl, hmisread⟩
  cases (readVariables_eq_ok_iff.mpr h).symm.trans (readVariables_eq_error_iff.mpr hmisread)

theorem flaw_values_iff (h : Supplies disk file fields) :
    Flaw disk b globals file overrides .values e ↔
      fields.mapM (valued b.coerceValue) = .error e := by
  have hgiven (name : String) (v : Value) : (∀ e, b.coerceValue name v ≠ .error e) ↔
      ∀ fault, ¬ b.Misfits name v fault := by
    simp [Blueprint.coerceValue_eq_error_iff]
  simp only [mapM_valued_eq_error_iff, hgiven]
  constructor
  · intro hflaw
    cases hflaw with | value hfields hsplit hbefore hmisfits
    obtain rfl := eq_of_supplies h hfields
    exact ⟨_, _, _, _, _, hsplit, hbefore,
      Blueprint.coerceValue_eq_error_iff.mpr ⟨_, hmisfits, rfl⟩, rfl⟩
  · rintro ⟨before, name, v, after, fault, hsplit, hbefore, hv, rfl⟩
    obtain ⟨fault, hmisfits, rfl⟩ := Blueprint.coerceValue_eq_error_iff.mp hv
    exact .value h hsplit hbefore hmisfits

theorem flaw_texts_iff : Flaw disk b globals file overrides .texts e ↔
    overrides.mapM (valued b.coerceText) = .error e := by
  have hgiven (name text : String) : (∀ e, b.coerceText name text ≠ .error e) ↔
      ∀ fault, ¬ b.Misspells name text fault := by
    simp [Blueprint.coerceText_eq_error_iff]
  simp only [mapM_valued_eq_error_iff, hgiven]
  constructor
  · intro hflaw
    cases hflaw with | text hsplit hbefore hmisspells
    exact ⟨_, _, _, _, _, hsplit, hbefore,
      Blueprint.coerceText_eq_error_iff.mpr ⟨_, hmisspells, rfl⟩, rfl⟩
  · rintro ⟨before, name, text, after, fault, hsplit, hbefore, hv, rfl⟩
    obtain ⟨fault, hmisspells, rfl⟩ := Blueprint.coerceText_eq_error_iff.mp hv
    exact .text hsplit hbefore hmisspells

theorem nodup_defaults (b : Blueprint) : (b.defaults.map Prod.fst).Nodup := by
  have hkeys := List.pairwise_map.mp b.declarations.nodup_keys
  refine List.pairwise_map.mpr (hkeys.filterMap _ fun x y hne u hu w hw => ?_)
  obtain ⟨_, -, rfl⟩ := Option.map_eq_some_iff.mp hu
  obtain ⟨_, -, rfl⟩ := Option.map_eq_some_iff.mp hw
  exact hne

-- The defaults of a scaffold are always a layer.
theorem exists_context (b : Blueprint) (globals : Context) :
    ∃ c, b.context globals = .ok c ∧
      ∀ name, c.resolve? name = (lookupEntry name b.defaults).or (globals.resolve? name) := by
  obtain ⟨c, hc⟩ := Context.exists_push (nodup_defaults b) globals ("scaffold:" ++ b.name)
  exact ⟨c, mapError_eq_ok_iff.mpr hc, Context.resolve?_push hc⟩

theorem pushFile_some {p : Path} : pushFile disk b (some p) c = (do
    let fields ← (readVariables disk p).mapError .config
    let bindings ← fields.mapM (valued b.coerceValue)
    pushLayer c "vars-file" bindings) := rfl

theorem exists_pushLayer {bindings : List (String × Value)} (h : (bindings.map Prod.fst).Nodup)
    (c : Context) (label : String) : ∃ c', pushLayer c label bindings = .ok c' := by
  obtain ⟨c', hc'⟩ := Context.exists_push h c label
  exact ⟨c', mapError_eq_ok_iff.mpr hc'⟩

-- The file of values either has a fault or is a layer.
theorem pushFile_eq_ok (h : pushFile disk b file c = .ok c') :
    ∃ fields bindings, Supplies disk file fields ∧
      fields.mapM (valued b.coerceValue) = .ok bindings ∧
      ∀ name, c'.resolve? name = (lookupEntry name bindings).or (c.resolve? name) := by
  cases file with
  | none =>
    obtain rfl := Except.ok.inj h
    exact ⟨[], [], rfl, rfl, fun _ => rfl⟩
  | some p =>
    rw [pushFile_some] at h
    obtain ⟨fields, hread, h⟩ := bind_eq_ok_iff.mp h
    obtain ⟨bindings, hbindings, hpush⟩ := bind_eq_ok_iff.mp h
    exact ⟨fields, bindings, readVariables_eq_ok_iff.mp (mapError_eq_ok_iff.mp hread), hbindings,
      Context.resolve?_push (mapError_eq_ok_iff.mp hpush)⟩

theorem pushFile_eq_error_iff : pushFile disk b file c = .error e ↔
    Flaw disk b globals file overrides .file e ∨ Flaw disk b globals file overrides .values e := by
  cases file with
  | none =>
    have hfields : Supplies disk none [] := rfl
    have hfile : ¬ Flaw disk b globals none overrides .file e := not_flaw_file_of_supplies hfields
    simp [pushFile, hfile, flaw_values_iff hfields, pure, Except.pure]
  | some p =>
    have hfile : Flaw disk b globals (some p) overrides .file e ↔
        ∃ fault, readVariables disk p = .error fault ∧ .config fault = e := by
      simp only [readVariables_eq_error_iff]
      constructor
      · rintro ⟨hfile, hmisread⟩
        obtain rfl := Option.some.inj hfile
        exact ⟨_, hmisread, rfl⟩
      · rintro ⟨fault, hmisread, rfl⟩
        exact .file rfl hmisread
    rw [pushFile_some, bind_eq_error_iff, mapError_eq_error_iff, hfile]
    refine or_congr_right ⟨?_, ?_⟩
    · rintro ⟨fields, hread, h⟩
      have hfields : Supplies disk (some p) fields :=
        readVariables_eq_ok_iff.mp (mapError_eq_ok_iff.mp hread)
      rcases bind_eq_error_iff.mp h with h | ⟨bindings, hbindings, h⟩
      · exact (flaw_values_iff hfields).mpr h
      · obtain ⟨c', hc'⟩ := exists_pushLayer
          (names_of_valued hbindings ▸ nodup_of_supplies hfields) c "vars-file"
        cases hc'.symm.trans h
    · intro hflaw
      obtain ⟨fields, hfields⟩ : ∃ fields, Supplies disk (some p) fields := by
        cases hflaw with | value hfields
        exact ⟨_, hfields⟩
      exact ⟨fields, mapError_eq_ok_iff.mpr (readVariables_eq_ok_iff.mpr hfields),
        bind_eq_error_iff.mpr (.inl ((flaw_values_iff hfields).mp hflaw))⟩

theorem flaw_names_iff {bindings : List (String × Value)}
    (h : bindings.map Prod.fst = overrides.map Prod.fst) :
    Flaw disk b globals file overrides .names e ↔
      pushLayer c "command-line" bindings = .error e := by
  rw [pushLayer, mapError_eq_error_iff]
  simp only [Context.push_eq_error_iff, h]
  constructor
  · intro hflaw
    cases hflaw with | name hsplit hbefore hname
    exact ⟨_, ⟨_, _, _, hsplit, hbefore, hname, rfl⟩, rfl⟩
  · rintro ⟨_, ⟨before, name, after, hsplit, hbefore, hname, rfl⟩, rfl⟩
    exact .name hsplit hbefore hname

theorem pushOverrides_of_ne_nil (h : overrides ≠ []) : pushOverrides b overrides c = (do
    let bindings ← overrides.mapM (valued b.coerceText)
    pushLayer c "command-line" bindings) := by
  cases overrides with
  | nil => exact absurd rfl h
  | cons => rfl

theorem pushOverrides_eq_ok (h : pushOverrides b overrides c = .ok c') :
    ∃ bindings, overrides.mapM (valued b.coerceText) = .ok bindings ∧
      ∀ name, c'.resolve? name = (lookupEntry name bindings).or (c.resolve? name) := by
  by_cases hnil : overrides = []
  · subst hnil
    obtain rfl := Except.ok.inj h
    exact ⟨[], rfl, fun _ => rfl⟩
  · rw [pushOverrides_of_ne_nil hnil] at h
    obtain ⟨bindings, hbindings, hpush⟩ := bind_eq_ok_iff.mp h
    exact ⟨bindings, hbindings, Context.resolve?_push (mapError_eq_ok_iff.mp hpush)⟩

theorem pushOverrides_eq_error_iff : pushOverrides b overrides c = .error e ↔
    Flaw disk b globals file overrides .texts e ∨
      (∀ e', ¬ Flaw disk b globals file overrides .texts e') ∧
        Flaw disk b globals file overrides .names e := by
  by_cases hnil : overrides = []
  · subst hnil
    have hnames : Flaw disk b globals file [] .names e ↔ pushLayer c "command-line" [] = .error e :=
      flaw_names_iff rfl
    rw [flaw_texts_iff, hnames]
    simp [pushOverrides, pushLayer, Context.push, Context.addBindings, pure, Except.pure,
      Except.mapError]
  · rw [pushOverrides_of_ne_nil hnil, bind_eq_error_iff]
    simp only [flaw_texts_iff]
    refine or_congr_right ⟨?_, ?_⟩
    · rintro ⟨bindings, hbindings, hpush⟩
      exact ⟨exists_eq_ok_iff.mp ⟨bindings, hbindings⟩,
        (flaw_names_iff (names_of_valued hbindings)).mpr hpush⟩
    · rintro ⟨hok, hflaw⟩
      obtain ⟨bindings, hbindings⟩ := exists_eq_ok_iff.mpr hok
      exact ⟨bindings, hbindings, (flaw_names_iff (names_of_valued hbindings)).mp hflaw⟩

-- What a name has when all layers are there.
theorem shown_of_layers {given bindings : List (String × Value)} {o : Option Value} {name : String}
    (hgiven : fields.mapM (valued b.coerceValue) = .ok given)
    (hbindings : overrides.mapM (valued b.coerceText) = .ok bindings)
    (h : o = (lookupEntry name bindings).or
      ((lookupEntry name given).or ((lookupEntry name b.defaults).or (globals.resolve? name)))) :
    Shown b globals fields overrides name o := by
  subst h
  rcases lookupEntry_of_valued hbindings name with ⟨text, v, hmem, hv, hlookup⟩ | ⟨hoverride, hnone⟩
  · rw [hlookup]
    exact .override hmem hv
  rw [hnone, Option.none_or]
  rcases lookupEntry_of_valued hgiven name with ⟨v, w, hmem, hw, hlookup⟩ | ⟨hfile, hnone⟩
  · rw [hlookup]
    exact .file hoverride hmem hw
  rw [hnone, Option.none_or]
  cases hlookup : lookupEntry name b.defaults with
  | some v =>
    obtain ⟨d, hd, hv⟩ := Blueprint.mem_defaults_iff.mp (mem_of_lookupEntry hlookup)
    exact .default hoverride hfile hd hv
  | none =>
    refine .outside hoverride hfile fun d hd => Option.eq_none_iff_forall_ne_some.mpr fun v hv => ?_
    exact lookupEntry_eq_none_iff.mp hlookup
      (List.mem_map_of_mem (Blueprint.mem_defaults_iff.mpr ⟨d, hd, hv⟩))

theorem Shown.eq_none_iff {o : Option Value} {name : String}
    (h : Shown b globals fields overrides name o) : o = none ↔
      name ∉ overrides.map Prod.fst ∧ name ∉ fields.map Prod.fst ∧
        (∀ d, b.declarations.get? name = some d → d.default = none) ∧
        globals.resolve? name = none := by
  cases h with
  | override hmem _ => simp [List.mem_map_of_mem (f := Prod.fst) hmem]
  | file _ hmem _ => simp [List.mem_map_of_mem (f := Prod.fst) hmem]
  | default _ _ hd hv => simp [hd, hv]
  | outside hoverride hfile hdefault =>
    exact ⟨fun houtside => ⟨hoverride, hfile, hdefault, houtside⟩, fun h => h.2.2.2⟩

theorem mem_missing_iff {name : String} (hfields : Supplies disk file fields)
    (hshown : ∀ name, Shown b globals fields overrides name (c.resolve? name)) :
    name ∈ b.missing c ↔ Lacks disk b globals file overrides name := by
  rw [Blueprint.missing, List.mem_filter, Option.isNone_iff_eq_none, (hshown name).eq_none_iff]
  constructor
  · rintro ⟨hkey, hoverride, hfile, hdefault, houtside⟩
    obtain ⟨d, hd⟩ := Option.isSome_iff_exists.mp (Dictionary.get?_isSome_of_mem_keys hkey)
    exact ⟨⟨d, hd, hdefault d hd⟩, hoverride,
      fun others hothers => eq_of_supplies hfields hothers ▸ hfile, houtside⟩
  · rintro ⟨⟨d, hd, hdefault⟩, hoverride, hfile, houtside⟩
    refine ⟨Dictionary.mem_keys_of_get? (Option.isSome_iff_exists.mpr ⟨d, hd⟩), hoverride,
      hfile fields hfields, fun d' hd' => ?_, houtside⟩
    obtain rfl := Option.some.inj (hd.symm.trans hd')
    exact hdefault

theorem sorted_missing (b : Blueprint) (c : Context) : (b.missing c).Pairwise (· < ·) :=
  (List.pairwise_map.mpr (b.declarations.sorted.imp compare_lt_iff_lt.mp)).filter _

theorem flaw_missing_iff (hfields : Supplies disk file fields)
    (hshown : ∀ name, Shown b globals fields overrides name (c.resolve? name)) :
    Flaw disk b globals file overrides .missing e ↔
      b.missing c ≠ [] ∧ .missingVariables (b.missing c) = e := by
  constructor
  · intro hflaw
    cases hflaw with | missing hne hsorted hnames
    have heq : b.missing c = _ := (sorted_missing b c).eq_of_mem_iff hsorted fun name =>
      (mem_missing_iff hfields hshown).trans (hnames name).symm
    rw [heq]
    exact ⟨hne, rfl⟩
  · rintro ⟨hne, rfl⟩
    exact .missing hne (sorted_missing b c) fun name => mem_missing_iff hfields hshown

theorem exists_pushFile (hfile : ∀ e, ¬ Flaw disk b globals file overrides .file e)
    (hvalues : ∀ e, ¬ Flaw disk b globals file overrides .values e) (c : Context) :
    ∃ c', pushFile disk b file c = .ok c' :=
  exists_eq_ok_iff.mpr fun e he => (pushFile_eq_error_iff.mp he).elim (hfile e) (hvalues e)

theorem exists_pushOverrides (htexts : ∀ e, ¬ Flaw disk b globals file overrides .texts e)
    (hnames : ∀ e, ¬ Flaw disk b globals file overrides .names e) (c : Context) :
    ∃ c', pushOverrides b overrides c = .ok c' :=
  exists_eq_ok_iff.mpr fun e he => (pushOverrides_eq_error_iff.mp he).elim (htexts e)
    fun h => hnames e h.2

theorem not_flaw_of_pushFile (h : pushFile disk b file c = .ok c') (e : CommandFault) :
    ¬ Flaw disk b globals file overrides .file e ∧
      ¬ Flaw disk b globals file overrides .values e := by
  rw [← not_or, ← pushFile_eq_error_iff (c := c), h]
  nofun

theorem not_flaw_of_pushOverrides (h : pushOverrides b overrides c = .ok c') (e : CommandFault) :
    ¬ Flaw disk b globals file overrides .texts e ∧
      ¬ Flaw disk b globals file overrides .names e := by
  have hnone := exists_eq_ok_iff.mp ⟨c', h⟩
  have htexts (e : CommandFault) : ¬ Flaw disk b globals file overrides .texts e :=
    fun hflaw => hnone e (pushOverrides_eq_error_iff.mpr (.inl hflaw))
  exact ⟨htexts e, fun hflaw => hnone e (pushOverrides_eq_error_iff.mpr (.inr ⟨htexts, hflaw⟩))⟩

-- The context with all layers has the values of the names, and what is then left to look for is
-- variables without one.
theorem shown_of_pushes {bottom middle : Context} (hbottom : b.context globals = .ok bottom)
    (hmiddle : pushFile disk b file bottom = .ok middle)
    (hc : pushOverrides b overrides middle = .ok c) :
    ∃ fields, Supplies disk file fields ∧
      ∀ name, Shown b globals fields overrides name (c.resolve? name) := by
  obtain ⟨fields, given, hfields, hgiven, hmiddle⟩ := pushFile_eq_ok hmiddle
  obtain ⟨bindings, hbindings, hc⟩ := pushOverrides_eq_ok hc
  have hdefaults := Context.resolve?_push (mapError_eq_ok_iff.mp hbottom)
  refine ⟨fields, hfields, fun name => shown_of_layers hgiven hbindings ?_⟩
  rw [hc, hmiddle, hdefaults]
  rfl

theorem buildContext_eq {bottom : Context} (h : b.context globals = .ok bottom) :
    buildContext disk b globals file overrides = (do
      let c ← pushFile disk b file bottom
      let c ← pushOverrides b overrides c
      if b.missing c = [] then .ok c else .error (.missingVariables (b.missing c))) := by
  rw [buildContext, h]
  refine bind_congr_ok (x := pushFile disk b file bottom) fun c _ => bind_congr_ok fun c _ => ?_
  cases b.missing c <;> rfl

-- A context that is built has the values of the names, and there is nothing that a check finds.
theorem shown_of_buildContext (h : buildContext disk b globals file overrides = .ok c) :
    (∃ fields, Supplies disk file fields ∧
      ∀ name, Shown b globals fields overrides name (c.resolve? name)) ∧
    ∀ check e, ¬ Flaw disk b globals file overrides check e := by
  obtain ⟨bottom, hbottom, -⟩ := exists_context b globals
  rw [buildContext_eq hbottom] at h
  obtain ⟨middle, hmiddle, h⟩ := bind_eq_ok_iff.mp h
  obtain ⟨top, htop, h⟩ := bind_eq_ok_iff.mp h
  split at h
  · rename_i hmissing
    obtain rfl := Except.ok.inj h
    obtain ⟨fields, hfields, hshown⟩ := shown_of_pushes hbottom hmiddle htop
    refine ⟨⟨fields, hfields, hshown⟩, fun check e hflaw => ?_⟩
    cases check with
    | file => exact (not_flaw_of_pushFile hmiddle e).1 hflaw
    | values => exact (not_flaw_of_pushFile hmiddle e).2 hflaw
    | texts => exact (not_flaw_of_pushOverrides htop e).1 hflaw
    | names => exact (not_flaw_of_pushOverrides htop e).2 hflaw
    | missing => exact ((flaw_missing_iff hfields hshown).mp hflaw).1 hmissing
  · cases h

-- What the first check reports that finds something.
def Reports (disk : Disk) (b : Blueprint) (globals : Context) (file : Option Path)
    (overrides : List (String × String)) (e : CommandFault) : Prop :=
  ∃ check, Flaw disk b globals file overrides check e ∧
    ∀ earlier e', earlier.place < check.place → ¬ Flaw disk b globals file overrides earlier e'

theorem reports_of_buildContext (h : buildContext disk b globals file overrides = .error e) :
    Reports disk b globals file overrides e := by
  obtain ⟨bottom, hbottom, -⟩ := exists_context b globals
  rw [buildContext_eq hbottom] at h
  rcases bind_eq_error_iff.mp h with hfile | ⟨middle, hmiddle, h⟩
  · rcases pushFile_eq_error_iff.mp hfile with hflaw | hflaw
    · exact ⟨.file, hflaw, fun _ _ hplace => absurd hplace (Nat.not_lt_zero _)⟩
    · refine ⟨.values, hflaw, fun earlier e' hplace => ?_⟩
      cases hflaw with | value hfields
      cases earlier with
      | file => exact not_flaw_file_of_supplies hfields
      | _ => exact absurd hplace (by decide)
  · have hmiddle' (e : CommandFault) : ¬ Flaw disk b globals file overrides .file e ∧
        ¬ Flaw disk b globals file overrides .values e := not_flaw_of_pushFile hmiddle e
    rcases bind_eq_error_iff.mp h with hoverrides | ⟨top, htop, h⟩
    · rcases pushOverrides_eq_error_iff.mp hoverrides with hflaw | ⟨htexts, hflaw⟩
      · refine ⟨.texts, hflaw, fun earlier e' hplace => ?_⟩
        cases earlier with
        | file => exact (hmiddle' e').1
        | values => exact (hmiddle' e').2
        | _ => exact absurd hplace (by decide)
      · refine ⟨.names, hflaw, fun earlier e' hplace => ?_⟩
        cases earlier with
        | file => exact (hmiddle' e').1
        | values => exact (hmiddle' e').2
        | texts => exact htexts e'
        | _ => exact absurd hplace (by decide)
    · have htop' (e : CommandFault) : ¬ Flaw disk b globals file overrides .texts e ∧
          ¬ Flaw disk b globals file overrides .names e := not_flaw_of_pushOverrides htop e
      obtain ⟨fields, hfields, hshown⟩ := shown_of_pushes hbottom hmiddle htop
      split at h
      · cases h
      · rename_i hne
        refine ⟨.missing, (flaw_missing_iff hfields hshown).mpr ⟨hne, Except.error.inj h⟩,
          fun earlier e' hplace => ?_⟩
        cases earlier with
        | file => exact (hmiddle' e').1
        | values => exact (hmiddle' e').2
        | texts => exact (htop' e').1
        | names => exact (htop' e').2
        | missing => exact absurd hplace (by decide)

theorem buildContext_of_reports (h : Reports disk b globals file overrides e) :
    buildContext disk b globals file overrides = .error e := by
  obtain ⟨check, hflaw, hearlier⟩ := h
  obtain ⟨bottom, hbottom, -⟩ := exists_context b globals
  rw [buildContext_eq hbottom, bind_eq_error_iff]
  have hpushed (hfile : Check.file.place < check.place)
      (hvalues : Check.values.place < check.place) :
      ∃ middle, pushFile disk b file bottom = .ok middle :=
    exists_pushFile (hearlier .file · hfile) (hearlier .values · hvalues) bottom
  cases check with
  | file => exact .inl (pushFile_eq_error_iff.mpr (.inl hflaw))
  | values => exact .inl (pushFile_eq_error_iff.mpr (.inr hflaw))
  | texts =>
    obtain ⟨middle, hmiddle⟩ := hpushed (by decide) (by decide)
    exact .inr ⟨middle, hmiddle, bind_eq_error_iff.mpr
      (.inl (pushOverrides_eq_error_iff.mpr (.inl hflaw)))⟩
  | names =>
    obtain ⟨middle, hmiddle⟩ := hpushed (by decide) (by decide)
    exact .inr ⟨middle, hmiddle, bind_eq_error_iff.mpr
      (.inl (pushOverrides_eq_error_iff.mpr (.inr ⟨(hearlier .texts · (by decide)), hflaw⟩)))⟩
  | missing =>
    obtain ⟨middle, hmiddle⟩ := hpushed (by decide) (by decide)
    obtain ⟨top, htop⟩ := exists_pushOverrides (hearlier .texts · (by decide))
      (hearlier .names · (by decide)) middle
    obtain ⟨fields, hfields, hshown⟩ := shown_of_pushes hbottom hmiddle htop
    obtain ⟨hne, rfl⟩ := (flaw_missing_iff hfields hshown).mp hflaw
    refine .inr ⟨middle, hmiddle, bind_eq_error_iff.mpr (.inr ⟨top, htop, ?_⟩)⟩
    rw [if_neg hne]

-- A context has for each name what the command line gives it, else what the file of values does,
-- else its default, else what is said outside of the scaffold. There is none if and only if a check
-- finds something, and then the first such check reports.
theorem buildContext_exact (disk : Disk) (b : Blueprint) (globals : Context) (file : Option Path)
    (overrides : List (String × String)) :
    (∀ c, buildContext disk b globals file overrides = .ok c → ∃ fields,
      Supplies disk file fields ∧
        ∀ name, Shown b globals fields overrides name (c.resolve? name)) ∧
    ((∃ e, buildContext disk b globals file overrides = .error e) ↔
      ∃ check e, Flaw disk b globals file overrides check e) ∧
    ∀ e, buildContext disk b globals file overrides = .error e ↔
      Reports disk b globals file overrides e := by
  refine ⟨fun c h => (shown_of_buildContext h).1, ⟨?fails, ?flawed⟩,
    fun e => ⟨reports_of_buildContext, buildContext_of_reports⟩⟩
  case fails =>
    rintro ⟨e, h⟩
    obtain ⟨check, hflaw, -⟩ := reports_of_buildContext h
    exact ⟨check, e, hflaw⟩
  case flawed =>
    rintro ⟨check, e, hflaw⟩
    cases h : buildContext disk b globals file overrides with
    | ok c => exact absurd hflaw ((shown_of_buildContext h).2 check e)
    | error e' => exact ⟨e', rfl⟩

-- One variable for each place that a value comes from, and what is said there.
def panel : Blueprint where
  name := "panel"
  description := none
  declarations := .ofList [("host", ⟨.string, none, none⟩), ("port", ⟨.integer, none, none⟩),
    ("ratio", ⟨.float, some (.float .nan), none⟩), ("user", ⟨.string, none, none⟩)]
  outline := ⟨.directory "d" none [], .empty, by rfl⟩
  hooks := []

def desk : Disk := Disk.blank.put ["vars.yaml"] (.file 0o600 "port: 9000\n".toUTF8)

def someone : Context := ⟨[⟨"global", .ofList [("user", .string "ada")]⟩]⟩

def varsFile : Option Path := some (.ofName "vars.yaml")

theorem buildContext_exact_panel :
    (∃ c fields, buildContext desk panel someone varsFile [("host", "80")] = .ok c ∧
      Supplies desk varsFile fields ∧
        ∀ name, Shown panel someone fields [("host", "80")] name (c.resolve? name)) ∧
    ∃ check e, Flaw desk panel someone varsFile [("port", "high")] check e := by
  have hread : desk.readText (.ofName "vars.yaml") = .ok "port: 9000\n" := by cbv
  have hbuilds : (buildContext desk panel someone varsFile [("host", "80")]).isOk = true := by
    simp only [buildContext, pushFile, varsFile, readVariables, hread]
    decide +kernel
  have hfails : (buildContext desk panel someone varsFile [("port", "high")]).isOk = false := by
    simp only [buildContext, pushFile, varsFile, readVariables, hread]
    decide +kernel
  constructor
  · cases hc : buildContext desk panel someone varsFile [("host", "80")] with
    | ok c =>
      obtain ⟨fields, hfields, hshown⟩ := (buildContext_exact _ _ _ _ _).1 c hc
      exact ⟨c, fields, rfl, hfields, hshown⟩
    | error e =>
      rw [hc] at hbuilds
      cases hbuilds
  · refine (buildContext_exact _ _ _ _ _).2.1.mp ?_
    cases hc : buildContext desk panel someone varsFile [("port", "high")] with
    | ok c =>
      rw [hc] at hfails
      cases hfails
    | error e => exact ⟨e, rfl⟩

end Layers

end Command

end Skeleton
