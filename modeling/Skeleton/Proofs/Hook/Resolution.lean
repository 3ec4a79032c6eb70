import Skeleton.Hook.Resolution
import Skeleton.Proofs.Except
import Skeleton.Proofs.Path.Inside

-- What hooks are made into: one program for each hook whose condition holds, in order. Values of
-- variables are arguments as they are, and lead no program out of the root.

namespace Skeleton

namespace Path

structure IsEntryName (name : String) : Prop where
  plain : IsPlain name
  noSlash : '/' ∉ name.toList
  noNul : '\x00' ∉ name.toList

-- That a path leads to a directory, or on from there by names and points only.
def IsWithin (p root : Path) : Prop :=
  ∃ below, p.components = root.components ++ below ∧
    ∀ c ∈ below, c = .here ∨ ∃ name, IsEntryName name ∧ c = .name name

end Path

namespace Hook

def holds (context : Context) (h : Hook) : Bool :=
  h.condition.all fun c => (c.eval context).toOption = some true

def isOff (context : Context) (h : Hook) : Bool :=
  h.condition.any fun c => (c.eval context).toOption = some false

-- The directory of a hook: the root where none is given, or what a template leads to from there.
inductive RunsIn (context : Context) (root : Path) : Option String → Path → Prop where
  | root : RunsIn context root none root
  | below {template text} (hrender : Template.render context template = .ok text)
      (hnul : '\x00' ∉ text.toList) (hrelative : (Path.ofText text).isAbsolute = false)
      (hup : ".." ∉ (Path.ofText text).parts) :
      RunsIn context root (some template) (root.join (.ofText text))

-- That a program is the one of a hook, with the texts of its templates.
structure Resolves (context : Context) (root : Path) (h : Hook) (i : Invocation) : Prop where
  name : i.name = h.name
  program : i.program = h.command
  args : List.Forall₂ (fun template text => Template.render context template = .ok text)
    h.args i.args
  dir : RunsIn context root h.workingDir i.workingDir

section Directory

variable {context : Context} {root path : Path} {label template text : String} {field : Field}
  {dir : Option String}

theorem render_eq_ok_iff : render context label field template = .ok text ↔
    Template.render context template = .ok text := mapError_eq_ok_iff

theorem parts_ofText_ne_nil (text : String) : (Path.ofText text).parts ≠ [] := by
  simp [Path.ofText, Text.splitAtEvery_ne_nil]

theorem ofTemplate_ne_blocked (e : Template.Error) :
    Fault.ofTemplate label field e ≠ .hooksBlocked := by
  unfold Fault.ofTemplate
  split <;> simp

theorem render_ne_blocked : render context label field template ≠ .error .hooksBlocked :=
  mapError_ne_error ofTemplate_ne_blocked _

theorem directory_ne_blocked : directory context root label dir ≠ .error .hooksBlocked := by
  cases dir with
  | none => simp [directory]
  | some template =>
    refine bind_ne_error render_ne_blocked fun text => ?_
    dsimp only
    split <;> simp

theorem directory_eq_ok_iff :
    directory context root label dir = .ok path ↔ RunsIn context root dir path := by
  cases dir with
  | none =>
    constructor
    · intro h
      obtain rfl := Except.ok.inj h
      exact .root
    · rintro ⟨⟩
      rfl
  | some template =>
    simp only [directory, bind_eq_ok_iff, render_eq_ok_iff]
    constructor
    · rintro ⟨text, hrender, h⟩
      split_ifs at h with hbad
      obtain rfl := Except.ok.inj h
      obtain ⟨hnul, hinside⟩ : '\x00' ∉ text.toList ∧ (Path.ofText text).staysInside = true := by
        simpa using hbad
      obtain ⟨hrelative, hup⟩ := Path.staysInside_iff.mp hinside
      exact .below hrender hnul hrelative hup
    · rintro (_ | @⟨_, text, hrender, hnul, hrelative, hup⟩)
      have hinside := Path.staysInside_iff.mpr ⟨hrelative, hup⟩
      exact ⟨text, hrender, by simp [hnul, hinside]⟩

-- The characters of a name in a text are characters of the text, and none of them is a slash.
theorem isEntryName_of_mem_parts {name : String} (hname : name ∈ (Path.ofText text).parts)
    (hplain : Path.IsPlain name) (hnul : '\x00' ∉ text.toList) : Path.IsEntryName name := by
  obtain ⟨part, hpart, rfl⟩ := List.mem_map.mp hname
  have hsub := Text.subset_of_mem_splitAtEvery hpart
  refine ⟨hplain, ?_, ?_⟩
  · rw [String.toList_ofList]
    exact Text.not_mem_of_mem_splitAtEvery hpart
  · rw [String.toList_ofList]
    exact fun hmem => hnul (hsub hmem)

theorem RunsIn.isWithin (h : RunsIn context root dir path) : path.IsWithin root := by
  cases h with
  | root => exact ⟨[], by simp, by simp⟩
  | @below template text hrender hnul hrelative hup =>
    have hinside := Path.staysInside_iff.mpr ⟨hrelative, hup⟩
    obtain ⟨below, hcomponents, hbelow⟩ :=
      Path.exists_components_join root hinside (parts_ofText_ne_nil text)
    refine ⟨below, hcomponents, fun c hc => (hbelow c hc).imp_right ?_⟩
    rintro ⟨name, hname, hplain, rfl⟩
    exact ⟨name, isEntryName_of_mem_parts hname hplain hnul, rfl⟩

end Directory

section Resolve

variable {context : Context} {root : Path} {label : String} {h : Hook} {i : Invocation}
  {fault : Fault}

theorem isIncluded_eq_ok_true_iff :
    Plan.isIncluded context label h.condition = .ok true ↔ h.holds context = true := by
  cases hc : h.condition <;>
    simp [holds, Plan.isIncluded, hc, toOption_eq_some_iff, mapError_eq_ok_iff]

theorem isIncluded_eq_ok_false_iff :
    Plan.isIncluded context label h.condition = .ok false ↔ h.isOff context = true := by
  cases hc : h.condition <;>
    simp [isOff, Plan.isIncluded, hc, toOption_eq_some_iff, mapError_eq_ok_iff]

theorem resolve_eq (context : Context) (root : Path) (h : Hook) : resolve context root h = (do
    if ← Plan.isIncluded context (hookLabel h.name) h.condition then
      let args ← h.args.mapM (render context (hookLabel h.name) .args)
      let dir ← directory context root (hookLabel h.name) h.workingDir
      .ok (some ⟨h.name, h.command, args, dir⟩)
    else .ok none) := by
  unfold resolve Plan.isIncluded
  cases h.condition <;> rfl

theorem resolve_eq_ok_some_iff :
    resolve context root h = .ok (some i) ↔ h.holds context = true ∧ Resolves context root h i := by
  simp only [resolve_eq, bind_eq_ok_iff]
  constructor
  · rintro ⟨enabled, henabled, hi⟩
    cases enabled with
    | false => cases hi
    | true =>
      simp only [if_true, bind_eq_ok_iff, mapM_eq_ok_iff, render_eq_ok_iff,
        directory_eq_ok_iff] at hi
      obtain ⟨args, hargs, dir, hdir, hi⟩ := hi
      obtain rfl := Option.some.inj (Except.ok.inj hi)
      exact ⟨isIncluded_eq_ok_true_iff.mp henabled, rfl, rfl, hargs, hdir⟩
  · rintro ⟨hholds, hi⟩
    obtain ⟨name, program, args, dir⟩ := i
    obtain ⟨rfl, rfl, hargs, hdir⟩ := hi
    refine ⟨true, isIncluded_eq_ok_true_iff.mpr hholds, ?_⟩
    simp only [if_true, bind_eq_ok_iff, mapM_eq_ok_iff, render_eq_ok_iff, directory_eq_ok_iff]
    exact ⟨args, hargs, dir, hdir, rfl⟩

theorem resolve_eq_ok_none_iff :
    resolve context root h = .ok none ↔ h.isOff context = true := by
  rw [← @isIncluded_eq_ok_false_iff context (hookLabel h.name), resolve_eq, bind_eq_ok_iff]
  constructor
  · rintro ⟨enabled, henabled, hi⟩
    cases enabled with
    | false => exact henabled
    | true =>
      simp only [if_true, bind_eq_ok_iff] at hi
      obtain ⟨args, -, dir, -, hi⟩ := hi
      cases hi
  · intro hoff
    exact ⟨false, hoff, rfl⟩

-- A hook that cannot be resolved has a fault of its own.
theorem resolve_ne_blocked : resolve context root h ≠ .error .hooksBlocked := by
  rw [resolve_eq]
  refine bind_ne_error ?_ fun enabled => ?_
  · unfold Plan.isIncluded
    split
    · simp
    · exact mapError_ne_error (fun fault => by cases fault <;> simp [Fault.ofEval]) _
  · split
    · refine bind_ne_error (fun hargs => ?_) fun args =>
        bind_ne_error directory_ne_blocked fun dir => by simp
      obtain ⟨arg, -, harg⟩ := exists_of_mapM_eq_error hargs
      exact render_ne_blocked harg
    · simp

end Resolve

section ResolveAll

variable {context : Context} {root : Path} {h : Hook} {hooks : List Hook}
  {invocations : List Invocation}

def resolveEach (context : Context) (root : Path) (hooks : List Hook) :
    Except Fault (List Invocation) := do
  let invocations ← hooks.mapM (resolve context root)
  .ok (invocations.filterMap id)

theorem resolveEach_cons : resolveEach context root (h :: hooks) = (do
    let i ← resolve context root h
    let rest ← resolveEach context root hooks
    .ok (i.toList ++ rest)) := by
  unfold resolveEach
  rw [List.mapM_cons]
  cases resolve context root h with
  | error fault => rfl
  | ok i =>
    cases hooks.mapM (resolve context root) with
    | error fault => rfl
    | ok rest => cases i <;> rfl

theorem holds_or_isOff_iff : (h.holds context = true ∨ h.isOff context = true) ↔
    ∀ c, h.condition = some c → ∃ b, c.eval context = .ok b := by
  cases hc : h.condition with
  | none => simp [holds, hc]
  | some c =>
    simp only [holds, isOff, hc, Option.all_some, Option.any_some, decide_eq_true_eq,
      toOption_eq_some_iff, Option.some.injEq, forall_eq']
    constructor
    · rintro (htrue | hfalse)
      · exact ⟨true, htrue⟩
      · exact ⟨false, hfalse⟩
    · rintro ⟨b, hb⟩
      cases b with
      | true => exact .inl hb
      | false => exact .inr hb

theorem not_isOff_of_holds (hholds : h.holds context = true) : h.isOff context ≠ true := by
  intro hoff
  have htrue := @isIncluded_eq_ok_true_iff context "" h
  have hfalse := @isIncluded_eq_ok_false_iff context "" h
  cases (htrue.mpr hholds).symm.trans (hfalse.mpr hoff)

theorem resolveEach_eq_ok_iff : resolveEach context root hooks = .ok invocations ↔
    (∀ h ∈ hooks, ∀ c, h.condition = some c → ∃ b, c.eval context = .ok b) ∧
      List.Forall₂ (Resolves context root) (hooks.filter (holds context)) invocations := by
  induction hooks generalizing invocations with
  | nil => simp [resolveEach, pure, Except.pure, bind, Except.bind, eq_comm]
  | cons h hooks ih =>
    rw [resolveEach_cons, List.forall_mem_cons, ← holds_or_isOff_iff]
    simp only [bind_eq_ok_iff]
    by_cases hholds : h.holds context = true
    · rw [List.filter_cons_of_pos hholds, List.forall₂_cons_left_iff]
      constructor
      · rintro ⟨o, ho, rest, hrest, hsplit⟩
        obtain ⟨hknown, hall⟩ := ih.mp hrest
        obtain rfl := Except.ok.inj hsplit
        cases o with
        | none => exact absurd (resolve_eq_ok_none_iff.mp ho) (not_isOff_of_holds hholds)
        | some i =>
          have hi := (resolve_eq_ok_some_iff.mp ho).2
          exact ⟨⟨.inl hholds, hknown⟩, i, rest, hi, hall, rfl⟩
      · rintro ⟨⟨-, hknown⟩, i, rest, hi, hall, rfl⟩
        have ho := resolve_eq_ok_some_iff.mpr ⟨hholds, hi⟩
        exact ⟨some i, ho, rest, ih.mpr ⟨hknown, hall⟩, rfl⟩
    · rw [List.filter_cons_of_neg hholds]
      constructor
      · rintro ⟨o, ho, rest, hrest, hsplit⟩
        obtain ⟨hknown, hall⟩ := ih.mp hrest
        obtain rfl := Except.ok.inj hsplit
        cases o with
        | none => exact ⟨⟨.inr (resolve_eq_ok_none_iff.mp ho), hknown⟩, hall⟩
        | some i => exact absurd (resolve_eq_ok_some_iff.mp ho).1 hholds
      · rintro ⟨⟨hdecided, hknown⟩, hall⟩
        have ho : resolve context root h = .ok none :=
          resolve_eq_ok_none_iff.mpr (hdecided.resolve_left hholds)
        exact ⟨none, ho, invocations, ih.mpr ⟨hknown, hall⟩, rfl⟩

theorem isWithin_of_resolveEach (h : resolveEach context root hooks = .ok invocations) :
    ∀ i ∈ invocations, i.workingDir.IsWithin root := by
  obtain ⟨all, hall, h⟩ := bind_eq_ok_iff.mp h
  obtain rfl := Except.ok.inj h
  intro i hi
  have hmem : some i ∈ all := by simpa using hi
  obtain ⟨hook, -, hresolve⟩ := exists_of_mem_mapM hall _ hmem
  exact (resolve_eq_ok_some_iff.mp hresolve).2.dir.isWithin

theorem resolveEach_ne_blocked : resolveEach context root hooks ≠ .error .hooksBlocked := by
  intro h
  rcases bind_eq_error_iff.mp h with h | ⟨invocations, -, h⟩
  · obtain ⟨h, -, hblocked⟩ := exists_of_mapM_eq_error h
    exact resolve_ne_blocked hblocked
  · cases h

-- Hooks that are off are as good as not there.
theorem resolveEach_filter : resolveEach context root hooks =
    resolveEach context root (hooks.filter fun h => !h.isOff context) := by
  induction hooks with
  | nil => rfl
  | cons h hooks ih =>
    by_cases hoff : h.isOff context = true
    · rw [List.filter_cons_of_neg (by simp [hoff]), resolveEach_cons,
        resolve_eq_ok_none_iff.mpr hoff, ih]
      cases resolveEach context root (hooks.filter fun h => !h.isOff context) <;> rfl
    · rw [List.filter_cons_of_pos (by simp [hoff]), resolveEach_cons, resolveEach_cons, ih]

theorem resolveAll_eq (context : Context) (report : Report) (hooks : List Hook) :
    resolveAll context report hooks =
      if report.isSuccess then resolveEach context report.root hooks
      else .error .hooksBlocked := rfl

theorem isSuccess_iff {report : Report} : report.isSuccess = true ↔
    ∀ o ∈ report.outcomes, ∃ change, o.status = .applied change := by
  rw [Report.isSuccess, List.all_eq_true]
  refine forall₂_congr fun o _ => ?_
  cases o.status <;> simp

-- Hooks are blocked if and only if something was not carried out. Otherwise there is one program
-- for each hook whose condition holds, in order, unless one of these cannot be resolved. The hooks
-- whose conditions are false count for nothing, and no program runs outside of the root.
theorem resolveAll_exact (context : Context) (report : Report) (hooks : List Hook) :
    (resolveAll context report hooks = .error .hooksBlocked ↔
      ∃ o ∈ report.outcomes, ∀ change, o.status ≠ .applied change) ∧
    (∀ invocations, resolveAll context report hooks = .ok invocations ↔
      (∀ o ∈ report.outcomes, ∃ change, o.status = .applied change) ∧
      (∀ h ∈ hooks, ∀ c, h.condition = some c → ∃ b, c.eval context = .ok b) ∧
      List.Forall₂ (Resolves context report.root) (hooks.filter (holds context)) invocations) ∧
    (∀ invocations, resolveAll context report hooks = .ok invocations →
      ∀ i ∈ invocations, i.workingDir.IsWithin report.root) ∧
    resolveAll context report hooks =
      resolveAll context report (hooks.filter fun h => !h.isOff context) := by
  have hok : ∀ invocations, resolveAll context report hooks = .ok invocations ↔
      report.isSuccess = true ∧ resolveEach context report.root hooks = .ok invocations := by
    intro invocations
    rw [resolveAll_eq]
    split <;> simp_all
  refine ⟨?blocked, ?resolved, ?within, ?off⟩
  case blocked =>
    have hfailed : report.isSuccess = false ↔
        ∃ o ∈ report.outcomes, ∀ change, o.status ≠ .applied change := by
      rw [← Bool.not_eq_true, isSuccess_iff]
      simp
    rw [resolveAll_eq, ← hfailed]
    cases report.isSuccess with
    | true => simp [resolveEach_ne_blocked]
    | false => simp
  case resolved =>
    intro invocations
    rw [hok, isSuccess_iff, resolveEach_eq_ok_iff]
  case within =>
    intro invocations h
    exact isWithin_of_resolveEach ((hok invocations).mp h).2
  case off =>
    rw [resolveAll_eq, resolveAll_eq, ← resolveEach_filter]

-- A variable that a shell would take for more than one word, and a hook that is off.
def words : Context :=
  ⟨[⟨"vars", Dictionary.ofList [("name", .string "a; rm *"), ("git", .bool true)]⟩]⟩

def commit : Hook :=
  ⟨"commit", "git", ["-m", "{{ name }}"], none, some ⟨"git", .var ⟨"git", [], by decide⟩⟩⟩

def image : Hook :=
  ⟨"image", "docker", ["{{ missing }}"], some "..",
    some ⟨"defined(docker)", .defined ⟨"docker", [], by decide⟩⟩⟩

def test : Hook := ⟨"test", "make", [], some "./{{ name }}", none⟩

def made : Report :=
  ⟨⟨["", "out"]⟩, [⟨.makeDir ⟨["lyra"]⟩, ⟨["", "out", "lyra"]⟩, .applied .createdDir⟩]⟩

def chores : List Invocation :=
  [⟨"commit", "git", ["-m", "a; rm *"], ⟨["", "out"]⟩⟩,
    ⟨"test", "make", [], ⟨["", "out", ".", "a; rm *"]⟩⟩]

theorem resolveAll_exact_chores :
    resolveAll words made [commit, image, test] = .ok chores ∧
      ∀ i ∈ chores, i.workingDir.IsWithin made.root := by
  have hmessage : Template.render words "-m" = .ok "-m" := by cbv
  have hname : Template.render words "{{ name }}" = .ok "a; rm *" := by cbv
  have hbelow : Template.render words "./{{ name }}" = .ok "./a; rm *" := by cbv
  have hdir : RunsIn words made.root test.workingDir ⟨["", "out", ".", "a; rm *"]⟩ :=
    .below hbelow (by decide) (by rfl) (by decide)
  have hdecided : ∀ h ∈ [commit, image, test], ∀ c, h.condition = some c →
      ∃ b, c.eval words = .ok b := by
    simp only [List.forall_mem_cons, ← holds_or_isOff_iff]
    exact ⟨.inl rfl, .inr rfl, .inl rfl, List.forall_mem_nil _⟩
  have happlied : ∀ o ∈ made.outcomes, ∃ change, o.status = .applied change := by
    simp [made]
  have hresolve : resolveAll words made [commit, image, test] = .ok chores :=
    ((resolveAll_exact words made _).2.1 _).mpr ⟨happlied, hdecided,
      .cons ⟨rfl, rfl, .cons hmessage (.cons hname .nil), .root⟩
        (.cons ⟨rfl, rfl, .nil, hdir⟩ .nil)⟩
  exact ⟨hresolve, (resolveAll_exact words made _).2.2.1 _ hresolve⟩

end ResolveAll

end Hook

end Skeleton
