import Skeleton.Condition.Check
import Skeleton.Condition.Eval
import Skeleton.Proofs.Except

-- What the check of a condition promises: where variables have the kinds that they are declared
-- with, the value of an expression has the kind that was inferred. It is missing only where a
-- variable that is needed has none.

namespace Skeleton.Condition

-- The variables whose values an expression needs. Asking whether one is defined needs no value.
def Expr.references : Expr → List VarPath
  | .literal _ => []
  | .var path => [path]
  | .defined _ => []
  | .not e => e.references
  | .and l r => l.references ++ r.references
  | .or l r => l.references ++ r.references
  | .eq l r => l.references ++ r.references
  | .ne l r => l.references ++ r.references
  | .isIn l r => l.references ++ r.references

inductive Answers (context : Context) (paths : List VarPath) {α : Type} (P : α → Prop) :
    Except EvalFault α → Prop where
  | value {a} (h : P a) : Answers context paths P (.ok a)
  | unbound {path} (hpath : path ∈ paths) (hfree : context.resolvePath? path = none) :
      Answers context paths P (.error (.unbound path))

section Answers

variable {context : Context} {paths more : List VarPath} {α β : Type} {P : α → Prop}
  {Q : β → Prop} {x : Except EvalFault α} {f : α → Except EvalFault β} {v : Value}

theorem Answers.bind (h : Answers context paths P x)
    (hf : ∀ a, P a → Answers context paths Q (f a)) : Answers context paths Q (x >>= f) := by
  cases h with
  | value h => exact hf _ h
  | unbound hpath hfree => exact .unbound hpath hfree

theorem Answers.mono (h : Answers context paths P x) (hsub : paths ⊆ more) :
    Answers context more P x := by
  cases h with
  | value h => exact .value h
  | unbound hpath hfree => exact .unbound (hsub hpath) hfree

theorem truth_of_kind (connective : Connective) (h : v.kind = .bool) :
    Answers context paths (fun _ => True) (truth connective v) := by
  cases v <;> simp only [Value.kind, reduceCtorEq] at h
  exact .value trivial

theorem Answers.truth_bind {f : Bool → Except EvalFault β} {x : Except EvalFault Value}
    (connective : Connective) (h : Answers context paths (fun v => v.kind = .bool) x)
    (hf : ∀ b, Answers context paths Q (f b)) :
    Answers context paths Q (x >>= fun v => truth connective v >>= f) :=
  h.bind fun _ hv => (truth_of_kind connective hv).bind fun b _ => hf b

theorem member_of_kind (needle : Value) (h : v.kind = .sequence) :
    Answers context paths (fun _ => True) (member needle v) := by
  cases v <;> simp only [Value.kind, reduceCtorEq] at h
  exact .value trivial

end Answers

section Check

variable {schema : Schema} {guarded : List String} {kind : Option Kind} {k : Kind}
  {connective : Connective}

theorem requireBool_eq_ok (h : requireBool connective (some k) = .ok ()) : k = .bool := by
  cases k <;> simp [requireBool] at h
  rfl

theorem requireSequence_eq_ok (h : requireSequence (some k) = .ok ()) : k = .sequence := by
  cases k <;> simp [requireSequence] at h
  rfl

-- The kind of a variable without fields is the one that it is declared with.
theorem kindOfPath_eq_ok {path : VarPath} (hsimple : path.isSimple = true)
    (hdeclared : schema.isDeclared path.root = true)
    (h : kindOfPath schema guarded path = .ok kind) : kind = schema.kindOf? path.root := by
  obtain ⟨k, hk⟩ := Option.isSome_iff_exists.mp hdeclared
  have hkind : schema.kindOf? path.root = some k := hk
  simp only [kindOfPath, hkind, hsimple, if_true, Except.ok.injEq] at h
  exact h.symm.trans hkind.symm

end Check

-- Every declared variable that has a value has one of its kind.
def Fits (schema : Schema) (context : Context) : Prop :=
  ∀ name kind v, schema.kindOf? name = some kind → context.resolve? name = some v → v.kind = kind

theorem fits_iff {schema : Schema} {context : Context} : Fits schema context ↔
    ∀ entry ∈ schema.entries, ∀ v ∈ context.resolve? entry.1, v.kind = entry.2 := by
  constructor
  · intro h entry hentry v hv
    exact h entry.1 entry.2 v (lookupEntry_of_mem schema.sorted hentry) hv
  · intro h name kind v hkind hv
    exact h (name, kind) (mem_of_lookupEntry hkind) v hv

instance (schema : Schema) (context : Context) : Decidable (Fits schema context) :=
  decidable_of_iff _ fits_iff.symm

section Soundness

variable {schema : Schema} {context : Context} {guarded : List String} {kind : Option Kind}

theorem resolvePath?_of_isSimple {path : VarPath} (h : path.isSimple = true) :
    context.resolvePath? path = context.resolve? path.root := by
  have hfields : path.fields = [] := List.isEmpty_iff.mp h
  simp only [Context.resolvePath?, hfields, Context.followFields, Option.bind_fun_some]

theorem answers_var (hfits : Fits schema context) {path : VarPath} {k : Kind}
    (hsimple : path.isSimple = true) (hkind : schema.kindOf? path.root = some k) :
    Answers context [path] (fun v => v.kind = k) ((Expr.var path).eval context) := by
  have hresolve : context.resolvePath? path = context.resolve? path.root :=
    resolvePath?_of_isSimple hsimple
  simp only [Expr.eval]
  cases hv : context.resolvePath? path with
  | none => exact .unbound List.mem_cons_self hv
  | some v => exact .value (hfits _ _ _ hkind (hresolve.symm.trans hv))

theorem answers_of_requireBool {connective : Connective} {paths : List VarPath}
    {x : Except EvalFault Value}
    (h : ∃ k, kind = some k ∧ Answers context paths (fun v => v.kind = k) x)
    (hbool : requireBool connective kind = .ok ()) :
    Answers context paths (fun v => v.kind = .bool) x := by
  obtain ⟨k, rfl, hx⟩ := h
  obtain rfl := requireBool_eq_ok hbool
  exact hx

-- By induction on the expression: its parts answer with the kinds that were inferred for them, and
-- evaluation asks for nothing else.
theorem Expr.answers_of_infer (hfits : Fits schema context) (e : Expr)
    (hknown : ∀ path ∈ e.references, path.isSimple = true ∧ schema.isDeclared path.root = true)
    (h : e.infer schema guarded = .ok kind) :
    ∃ k, kind = some k ∧
      Answers context e.references (fun v => v.kind = k) (e.eval context) := by
  induction e generalizing kind with
  | literal v =>
    obtain rfl := Except.ok.inj h
    exact ⟨v.kind, rfl, .value rfl⟩
  | var path =>
    obtain ⟨hsimple, hdeclared⟩ := hknown path List.mem_cons_self
    obtain ⟨k, hk⟩ := Option.isSome_iff_exists.mp hdeclared
    exact ⟨k, (kindOfPath_eq_ok hsimple hdeclared h).trans hk, answers_var hfits hsimple hk⟩
  | defined path =>
    obtain rfl := Except.ok.inj h
    exact ⟨.bool, rfl, .value rfl⟩
  | not e ih =>
    simp only [Expr.infer, bind_eq_ok_iff] at h
    obtain ⟨inner, hinner, ⟨⟩, hbool, h⟩ := h
    obtain rfl := Except.ok.inj h
    have he := answers_of_requireBool (ih hknown hinner) hbool
    exact ⟨.bool, rfl, he.truth_bind .not fun b => .value rfl⟩
  | and l r ihl ihr =>
    simp only [Expr.infer, bind_eq_ok_iff] at h
    obtain ⟨left, hleft, ⟨⟩, hboolLeft, right, hright, ⟨⟩, hboolRight, h⟩ := h
    obtain rfl := Except.ok.inj h
    obtain ⟨hknownLeft, hknownRight⟩ := List.forall_mem_append.mp hknown
    have hl := answers_of_requireBool (ihl hknownLeft hleft) hboolLeft
    have hr := answers_of_requireBool (ihr hknownRight hright) hboolRight
    refine ⟨.bool, rfl, (hl.mono (List.subset_append_left _ _)).truth_bind .and fun b => ?_⟩
    cases b with
    | false => exact .value rfl
    | true =>
      exact (hr.mono (List.subset_append_right _ _)).truth_bind .and fun b => .value rfl
  | or l r ihl ihr =>
    simp only [Expr.infer, bind_eq_ok_iff] at h
    obtain ⟨left, hleft, ⟨⟩, hboolLeft, right, hright, ⟨⟩, hboolRight, h⟩ := h
    obtain rfl := Except.ok.inj h
    obtain ⟨hknownLeft, hknownRight⟩ := List.forall_mem_append.mp hknown
    have hl := answers_of_requireBool (ihl hknownLeft hleft) hboolLeft
    have hr := answers_of_requireBool (ihr hknownRight hright) hboolRight
    refine ⟨.bool, rfl, (hl.mono (List.subset_append_left _ _)).truth_bind .or fun b => ?_⟩
    cases b with
    | true => exact .value rfl
    | false =>
      exact (hr.mono (List.subset_append_right _ _)).truth_bind .or fun b => .value rfl
  | eq l r ihl ihr | ne l r ihl ihr =>
    -- any two values can be compared, whatever the check says about their kinds
    simp only [Expr.infer, bind_eq_ok_iff] at h
    obtain ⟨left, hleft, right, hright, ⟨⟩, -, h⟩ := h
    obtain rfl := Except.ok.inj h
    obtain ⟨hknownLeft, hknownRight⟩ := List.forall_mem_append.mp hknown
    obtain ⟨_, _, hl⟩ := ihl hknownLeft hleft
    obtain ⟨_, _, hr⟩ := ihr hknownRight hright
    refine ⟨.bool, rfl, (hl.mono (List.subset_append_left _ _)).bind fun a _ => ?_⟩
    exact (hr.mono (List.subset_append_right _ _)).bind fun b _ => .value rfl
  | isIn l r ihl ihr =>
    simp only [Expr.infer, bind_eq_ok_iff] at h
    obtain ⟨left, hleft, right, hright, ⟨⟩, hsequence, h⟩ := h
    obtain rfl := Except.ok.inj h
    obtain ⟨hknownLeft, hknownRight⟩ := List.forall_mem_append.mp hknown
    obtain ⟨_, _, hl⟩ := ihl hknownLeft hleft
    obtain ⟨k, rfl, hr⟩ := ihr hknownRight hright
    obtain rfl := requireSequence_eq_ok hsequence
    refine ⟨.bool, rfl, (hl.mono (List.subset_append_left _ _)).bind fun needle _ => ?_⟩
    refine (hr.mono (List.subset_append_right _ _)).bind fun haystack hhaystack => ?_
    exact (member_of_kind needle hhaystack).bind fun b _ => .value rfl

theorem answers_of_check {c : Condition} (hfits : Fits schema context)
    (hknown : ∀ path ∈ c.expr.references, path.isSimple = true ∧ schema.isDeclared path.root = true)
    (h : c.check schema = .ok ()) :
    Answers context c.expr.references (fun _ => True) (c.eval context) := by
  obtain ⟨kind, hinfer, h⟩ := bind_eq_ok_iff.mp h
  obtain ⟨k, rfl, hanswers⟩ := c.expr.answers_of_infer hfits hknown hinfer
  have hbool : k = .bool := by cases k <;> simp at h ⊢
  subst hbool
  refine hanswers.bind fun v hv => ?_
  cases v <;> simp only [Value.kind, reduceCtorEq] at hv
  exact .value trivial

-- A condition that passes the check, and needs only declared variables without their fields, has a
-- truth value in every context that gives variables their kinds. It fails only for a variable
-- without a value, and never where all that it needs have one.
theorem check_sound {c : Condition} (hcheck : c.check schema = .ok ())
    (hknown : ∀ path ∈ c.expr.references, path.isSimple = true ∧ schema.isDeclared path.root = true)
    (hfits : Fits schema context) :
    (∀ fault, c.eval context = .error fault →
      ∃ path ∈ c.expr.references, fault = .unbound path ∧ context.resolve? path.root = none) ∧
    ((∀ path ∈ c.expr.references, (context.resolve? path.root).isSome = true) →
      ∃ b, c.eval context = .ok b) := by
  have hanswers := answers_of_check hfits hknown hcheck
  generalize c.eval context = answer at hanswers ⊢
  cases hanswers with
  | @value b _ => exact ⟨fun fault h => (nomatch h), fun _ => ⟨b, rfl⟩⟩
  | @unbound path hpath hfree =>
    rw [resolvePath?_of_isSimple (hknown path hpath).1] at hfree
    constructor
    · rintro fault ⟨⟩
      exact ⟨path, hpath, rfl, hfree⟩
    · intro hbound
      have hvalue := hbound path hpath
      simp [hfree] at hvalue

def published : Condition :=
  ⟨"not defined(site) or 'web' in tags and port == 8080.0",
    .or (.not (.defined ⟨"site", [], by decide⟩))
      (.and (.isIn (.literal (.string "web")) (.var ⟨"tags", [], by decide⟩))
        (.eq (.var ⟨"port", [], by decide⟩) (.literal (.float (.ofInt 8080)))))⟩

def serviceSchema : Schema := Dictionary.ofList [("port", .integer), ("tags", .sequence)]

def service : Context :=
  ⟨[⟨"vars-file",
      Dictionary.ofList [("site", .string "north"), ("tags", .sequence [.string "web"])]⟩,
    ⟨"global", Dictionary.ofList [("port", .integer 8080)]⟩]⟩

theorem check_sound_published :
    published.check serviceSchema = .ok () ∧
    (∀ path ∈ published.expr.references,
      path.isSimple = true ∧ serviceSchema.isDeclared path.root = true) ∧
    Fits serviceSchema service ∧
    (∀ path ∈ published.expr.references, (service.resolve? path.root).isSome = true) ∧
    ∃ b, published.eval service = .ok b := by
  have hcheck : published.check serviceSchema = .ok () := by rfl
  have hknown : ∀ path ∈ published.expr.references,
      path.isSimple = true ∧ serviceSchema.isDeclared path.root = true := by decide +kernel
  have hfits : Fits serviceSchema service := by decide +kernel
  have hbound : ∀ path ∈ published.expr.references,
      (service.resolve? path.root).isSome = true := by decide +kernel
  exact ⟨hcheck, hknown, hfits, hbound, (check_sound hcheck hknown hfits).2 hbound⟩

end Soundness

end Skeleton.Condition
