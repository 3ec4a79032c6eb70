import Skeleton.Command.Variables
import Skeleton.Proofs.Value.Conversion

-- What a file of values and the command line give variables, and what may be wrong with it.

namespace Skeleton

theorem Value.coerce_eq_error_iff {kind : Kind} {v : Value} {fault : ValueFault} :
    v.coerce kind = .error fault ↔
      kind.accepts v.kind = false ∧ fault = .otherKind kind v.kind := by
  cases v <;> cases kind <;> simp [Value.coerce, Value.kind, Kind.accepts, @eq_comm _ fault]

namespace Blueprint

variable {b : Blueprint} {name text : String} {v : Value} {e : Fault}

inductive Misfits (b : Blueprint) (name : String) (v : Value) : ValueFault → Prop
  | otherKind {d : Declaration} (hd : b.declarations.get? name = some d)
      (hkind : d.kind.accepts v.kind = false) : Misfits b name v (.otherKind d.kind v.kind)

-- What is wrong with a text that is no value for its variable. Variables for texts take any.
inductive Misspells (b : Blueprint) (name text : String) : ValueFault → Prop
  | noValue {d : Declaration} {fault : ValueFault} (hd : b.declarations.get? name = some d)
      (hstring : d.kind ≠ .string) (htext : Value.ofText text = .error fault) :
      Misspells b name text fault
  | otherKind {d : Declaration} {v : Value} (hd : b.declarations.get? name = some d)
      (hstring : d.kind ≠ .string) (htext : Value.ofText text = .ok v)
      (hkind : d.kind.accepts v.kind = false) : Misspells b name text (.otherKind d.kind v.kind)

theorem coerceValue_eq_error_iff : b.coerceValue name v = .error e ↔
    ∃ fault, b.Misfits name v fault ∧ .invalidOverride name fault = e := by
  constructor
  · intro h
    unfold coerceValue at h
    split at h
    · rename_i d hd
      obtain ⟨fault, hcoerce, rfl⟩ := mapError_eq_error_iff.mp h
      obtain ⟨hkind, rfl⟩ := Value.coerce_eq_error_iff.mp hcoerce
      exact ⟨_, .otherKind hd hkind, rfl⟩
    · cases h
  · rintro ⟨_, ⟨hd, hkind⟩, rfl⟩
    rw [coerceValue, hd]
    exact mapError_eq_error_iff.mpr ⟨_, Value.coerce_eq_error_iff.mpr ⟨hkind, rfl⟩, rfl⟩

theorem coerceText_eq_error_iff : b.coerceText name text = .error e ↔
    ∃ fault, b.Misspells name text fault ∧ .invalidOverride name fault = e := by
  cases hd : b.declarations.get? name with
  | none =>
    simp only [coerceText, hd, reduceCtorEq, false_iff, not_exists, not_and]
    rintro fault (⟨hd', -, -⟩ | ⟨hd', -, -, -⟩) <;> cases hd.symm.trans hd'
  | some d =>
    by_cases hstring : d.kind = .string
    · simp only [coerceText, hd, if_pos hstring, reduceCtorEq, false_iff, not_exists, not_and]
      rintro fault (⟨hd', hne, -⟩ | ⟨hd', hne, -, -⟩) <;>
        exact absurd (Option.some.inj (hd.symm.trans hd') ▸ hstring) hne
    · have hfault {fault : ValueFault} :
          (Value.ofText text >>= Value.coerce d.kind) = .error fault ↔
            b.Misspells name text fault := by
        rw [bind_eq_error_iff]
        constructor
        · rintro (htext | ⟨v, htext, hcoerce⟩)
          · exact .noValue hd hstring htext
          · obtain ⟨hkind, rfl⟩ := Value.coerce_eq_error_iff.mp hcoerce
            exact .otherKind hd hstring htext hkind
        · rintro (⟨hd', -, htext⟩ | ⟨hd', -, htext, hkind⟩)
          · exact .inl htext
          · obtain rfl := Option.some.inj (hd.symm.trans hd')
            exact .inr ⟨_, htext, Value.coerce_eq_error_iff.mpr ⟨hkind, rfl⟩⟩
      simp only [coerceText, hd, if_neg hstring, mapError_eq_error_iff, hfault]

end Blueprint

namespace Command

section File

variable {disk : Disk} {p : Path} {file : Option Path} {fields others : List (String × Value)}
  {fault : ConfigFault}

-- The variables that a file has values for. A file of blanks has none.
inductive Holds (disk : Disk) (p : Path) : List (String × Value) → Prop
  | nothing {text : String} (hread : disk.readText p = .ok text)
      (hblank : Text.isAllBlank text = true) : Holds disk p []
  | mapping {text : String} {data : Yaml.Data} {fields : List (String × Value)}
      (hread : disk.readText p = .ok text) (hblank : Text.isAllBlank text = false)
      (hdata : Yaml.dataOf text = .ok data) (hvalue : Value.ofData data = .ok (.mapping fields)) :
      Holds disk p fields

inductive Misread (disk : Disk) (p : Path) : ConfigFault → Prop
  | unreadable {fault : IoFault} (hread : disk.readText p = .error fault) :
      Misread disk p (.unreadable p fault)
  | document {text : String} {e : Yaml.LoadError} (hread : disk.readText p = .ok text)
      (hblank : Text.isAllBlank text = false) (hdata : Yaml.dataOf text = .error e) :
      Misread disk p (.document p e)
  | unsupported {text : String} {data : Yaml.Data} {fault : ConversionFault}
      (hread : disk.readText p = .ok text) (hblank : Text.isAllBlank text = false)
      (hdata : Yaml.dataOf text = .ok data) (hvalue : Value.ofData data = .error fault) :
      Misread disk p (.unsupported p fault)
  | notMapping {text : String} {data : Yaml.Data} {v : Value}
      (hread : disk.readText p = .ok text) (hblank : Text.isAllBlank text = false)
      (hdata : Yaml.dataOf text = .ok data) (hvalue : Value.ofData data = .ok v)
      (hkind : v.kind ≠ .mapping) : Misread disk p (.notMapping p v.kind)

theorem readVariables_eq_ok_iff : readVariables disk p = .ok fields ↔ Holds disk p fields := by
  constructor
  · intro h
    obtain ⟨text, hread, h⟩ := bind_eq_ok_iff.mp h
    have hread := mapError_eq_ok_iff.mp hread
    split at h
    · rename_i hblank
      obtain rfl := Except.ok.inj h
      exact .nothing hread hblank
    · rename_i hblank
      obtain ⟨data, hdata, h⟩ := bind_eq_ok_iff.mp h
      obtain ⟨v, hv, h⟩ := bind_eq_ok_iff.mp h
      split at h
      · obtain rfl := Except.ok.inj h
        exact .mapping hread (Bool.not_eq_true _ ▸ hblank) (mapError_eq_ok_iff.mp hdata)
          (mapError_eq_ok_iff.mp hv)
      · cases h
  · intro h
    cases h with
    | nothing hread hblank =>
      simp [readVariables, hread, hblank, Except.mapError, bind, Except.bind]
    | mapping hread hblank hdata hvalue =>
      simp [readVariables, hread, hblank, hdata, hvalue, Except.mapError, bind, Except.bind]

theorem readVariables_eq_error_iff :
    readVariables disk p = .error fault ↔ Misread disk p fault := by
  constructor
  · intro h
    rcases bind_eq_error_iff.mp h with h | ⟨text, hread, h⟩
    · obtain ⟨fault, hread, rfl⟩ := mapError_eq_error_iff.mp h
      exact .unreadable hread
    · have hread := mapError_eq_ok_iff.mp hread
      split at h
      · cases h
      · rename_i hblank
        have hblank := Bool.eq_false_of_not_eq_true hblank
        rcases bind_eq_error_iff.mp h with h | ⟨data, hdata, h⟩
        · obtain ⟨e, hdata, rfl⟩ := mapError_eq_error_iff.mp h
          exact .document hread hblank hdata
        · have hdata := mapError_eq_ok_iff.mp hdata
          rcases bind_eq_error_iff.mp h with h | ⟨v, hvalue, h⟩
          · obtain ⟨fault, hvalue, rfl⟩ := mapError_eq_error_iff.mp h
            exact .unsupported hread hblank hdata hvalue
          · have hvalue := mapError_eq_ok_iff.mp hvalue
            split at h
            · cases h
            · rename_i hkind
              obtain rfl := Except.error.inj h
              refine .notMapping hread hblank hdata hvalue fun heq => ?_
              cases v with
              | mapping fields => exact hkind fields rfl
              | _ => cases heq
  · intro h
    cases h with
    | unreadable hread => simp [readVariables, hread, Except.mapError, bind, Except.bind]
    | document hread hblank hdata =>
      simp [readVariables, hread, hblank, hdata, Except.mapError, bind, Except.bind]
    | unsupported hread hblank hdata hvalue =>
      simp [readVariables, hread, hblank, hdata, hvalue, Except.mapError, bind, Except.bind]
    | @notMapping text data v hread hblank hdata hvalue hkind =>
      cases v with
      | mapping fields => exact absurd rfl hkind
      | _ => simp [readVariables, hread, hblank, hdata, hvalue, Except.mapError, bind, Except.bind]

theorem Holds.nodup (h : Holds disk p fields) : (fields.map Prod.fst).Nodup := by
  cases h with
  | nothing => exact List.nodup_nil
  | mapping _ _ _ hvalue =>
    exact (⟨fields, Value.sorted_of_ofData hvalue⟩ : Dictionary _ _).nodup_keys

def Supplies (disk : Disk) (file : Option Path) (fields : List (String × Value)) : Prop :=
  match file with
  | none => fields = []
  | some p => Holds disk p fields

theorem nodup_of_supplies (h : Supplies disk file fields) : (fields.map Prod.fst).Nodup := by
  cases file with
  | none =>
    obtain rfl : fields = [] := h
    exact List.nodup_nil
  | some p => exact Holds.nodup h

theorem eq_of_supplies (h : Supplies disk file fields) (hothers : Supplies disk file others) :
    others = fields := by
  cases file with
  | none => exact Eq.trans hothers (Eq.symm h)
  | some p =>
    have hread := readVariables_eq_ok_iff.mpr h
    exact Except.ok.inj ((readVariables_eq_ok_iff.mpr hothers).symm.trans hread)

end File

section Given

variable {α : Type} {give : String → α → Except Fault Value} {pairs : List (String × α)}
  {bindings : List (String × Value)} {name : String} {e : CommandFault}

def valued (give : String → α → Except Fault Value) (pair : String × α) :
    Except CommandFault (String × Value) := do
  let v ← (give pair.1 pair.2).mapError CommandFault.scaffold
  return (pair.1, v)

theorem valued_eq_ok_iff {pair : String × α} {binding : String × Value} :
    valued give pair = .ok binding ↔ pair.1 = binding.1 ∧ give pair.1 pair.2 = .ok binding.2 := by
  simp only [valued, bind_eq_ok_iff, mapError_eq_ok_iff]
  constructor
  · rintro ⟨v, hv, h⟩
    obtain rfl := Except.ok.inj h
    exact ⟨rfl, hv⟩
  · rintro ⟨hname, hv⟩
    exact ⟨binding.2, hv, by rw [hname]; rfl⟩

theorem valued_eq_error_iff {pair : String × α} :
    valued give pair = .error e ↔
      ∃ fault, give pair.1 pair.2 = .error fault ∧ .scaffold fault = e := by
  simp [valued, bind_eq_error_iff, mapError_eq_error_iff, pure, Except.pure]

theorem mapM_valued_eq_ok_iff : pairs.mapM (valued give) = .ok bindings ↔
    List.Forall₂ (fun pair binding => pair.1 = binding.1 ∧ give pair.1 pair.2 = .ok binding.2)
      pairs bindings := by
  simp only [mapM_eq_ok_iff, valued_eq_ok_iff]

theorem names_of_valued (h : pairs.mapM (valued give) = .ok bindings) :
    bindings.map Prod.fst = pairs.map Prod.fst := by
  induction mapM_valued_eq_ok_iff.mp h with
  | nil => rfl
  | cons hpair hpairs ih =>
    rw [List.map_cons, List.map_cons, hpair.1, ih (mapM_valued_eq_ok_iff.mpr hpairs)]

-- A name that something is given for is bound to its value, and no other name is.
theorem lookupEntry_of_valued (h : pairs.mapM (valued give) = .ok bindings) (name : String) :
    (∃ x v, (name, x) ∈ pairs ∧ give name x = .ok v ∧ lookupEntry name bindings = some v) ∨
      name ∉ pairs.map Prod.fst ∧ lookupEntry name bindings = none := by
  induction mapM_valued_eq_ok_iff.mp h with
  | nil => exact .inr ⟨List.not_mem_nil, rfl⟩
  | @cons pair binding pairs bindings hpair hpairs ih =>
    obtain ⟨other, x⟩ := pair
    obtain ⟨_, v⟩ := binding
    obtain ⟨rfl, hv⟩ := hpair
    by_cases hname : other = name
    · subst hname
      exact .inl ⟨x, v, List.mem_cons_self, hv, by simp [lookupEntry]⟩
    · rw [lookupEntry, if_neg hname]
      rcases ih (mapM_valued_eq_ok_iff.mpr hpairs) with ⟨y, w, hmem, hw⟩ | ⟨hfree, hnone⟩
      · exact .inl ⟨y, w, List.mem_cons_of_mem _ hmem, hw⟩
      · exact .inr ⟨by simpa [Ne.symm hname] using hfree, hnone⟩

-- The error is that of the first pair that has none of the values it asks for.
theorem mapM_valued_eq_error_iff : pairs.mapM (valued give) = .error e ↔
    ∃ before name x after fault, pairs = before ++ (name, x) :: after ∧
      (∀ pair ∈ before, ∀ fault, give pair.1 pair.2 ≠ .error fault) ∧
      give name x = .error fault ∧ .scaffold fault = e := by
  have hvalued (pair : String × α) :
      (∃ binding, valued give pair = .ok binding) ↔ ∀ fault, give pair.1 pair.2 ≠ .error fault := by
    simp [exists_eq_ok_iff, valued_eq_error_iff]
  simp only [mapM_eq_error_iff, hvalued, valued_eq_error_iff]
  constructor
  · rintro ⟨before, ⟨name, x⟩, after, hsplit, hbefore, fault, hfault, rfl⟩
    exact ⟨before, name, x, after, fault, hsplit, hbefore, hfault, rfl⟩
  · rintro ⟨before, name, x, after, fault, hsplit, hbefore, hfault, rfl⟩
    exact ⟨before, (name, x), after, hsplit, hbefore, fault, hfault, rfl⟩

end Given

end Command

end Skeleton
