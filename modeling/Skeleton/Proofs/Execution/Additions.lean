import Skeleton.Proofs.Execution.Links

-- Runs that may not overwrite. They only add entries, each at the end of the path of an operation
-- and never through a link that stands there.

namespace Skeleton

namespace Execution

open Disk

def made : Operation → Entry
  | .makeDir _ => .newDir
  | .writeFile _ content mode => .file (modeOf mode 0o644) content.toUTF8

section Step

variable {p : Policy} {d d' base : Disk} {target : Path} {operation : Operation} {change : Change}
  {l k : Location} {m : Mode} {e : Entry}

theorem Prepares.created_of_refused (h : Prepares p d target change base l m)
    (hp : p.overwrite = false) :
    base = d ∧ m = 0o644 ∧ ∃ s, d.find false target = .ok s ∧ s.location = l ∧ s.found = none ∧
      s.wantsDir = false := by
  cases h with
  | created hfind hnone hslash => exact ⟨rfl, rfl, _, hfind, rfl, hnone, hslash⟩
  | copied hoverwrite | overwritten hoverwrite | throughLink hoverwrite =>
    simp [hp] at hoverwrite

-- An operation leaves the disk as it is, or puts what it makes at the end of its path.
theorem Applies.adds (h : Applies p d target operation change d') (hp : p.overwrite = false) :
    d' = d ∧ change = .existingDir ∨ ∃ l, d.get? l = none ∧ d' = d.put l (made operation) ∧
      d'.find false target = .ok ⟨l, some (made operation), false⟩ := by
  cases h with
  | @createdDir _ s hfind hnone =>
    refine .inr ⟨s.location, (find_spot hfind).1.symm.trans hnone, rfl, ?_⟩
    exact find_put hfind hnone (by simp [Entry.newDir]) (.inl rfl)
  | existingDir => exact .inl ⟨rfl, rfl⟩
  | wrote h =>
    obtain ⟨rfl, rfl, s, hfind, rfl, hnone, hslash⟩ := h.created_of_refused hp
    refine .inr ⟨s.location, (find_spot hfind).1.symm.trans hnone, rfl, ?_⟩
    exact find_put hfind hnone (by simp) (.inr hslash)

theorem Applies.extends (h : Applies p d target operation change d') (hp : p.overwrite = false) :
    d.Extends d' := by
  rcases h.adds hp with ⟨rfl, -⟩ | ⟨l, hfree, rfl, -⟩
  · exact .refl _
  · exact extends_put hfree _

theorem Applies.find_of_new (h : Applies p d target operation change d')
    (hp : p.overwrite = false) (hfree : d.get? k = none) (hnew : d'.get? k = some e) :
    e = made operation ∧ d'.find false target = .ok ⟨k, some e, false⟩ := by
  rcases h.adds hp with ⟨rfl, -⟩ | ⟨l, -, hput, hfind⟩
  · simp [hfree] at hnew
  · obtain rfl : k = l := by
      by_contra hne
      rw [hput, get?_put_of_ne d _ hne, hfree] at hnew
      cases hnew
    obtain rfl := Option.some.inj ((find_spot hfind).1.trans hnew)
    exact ⟨rfl, hfind⟩

theorem Applies.find_of_writeFile {path : Path} {content : String} {mode : Option Nat}
    (h : Applies p d target (.writeFile path content mode) change d') (hp : p.overwrite = false) :
    ∃ l, d'.find false target = .ok ⟨l, some (made (.writeFile path content mode)), false⟩ := by
  rcases h.adds hp with ⟨-, rfl⟩ | ⟨l, -, -, hfind⟩
  · cases h with
    | wrote h => cases h
  · exact ⟨l, hfind⟩

end Step

section Run

variable {p : Policy} {root : Path} {d d' : Disk} {outcomes : List Outcome} {k : Location}
  {e : Entry} {o : Outcome}

theorem Trace.extends (h : Trace p root d outcomes d') (hp : p.overwrite = false) :
    d.Extends d' := by
  induction h with
  | halted => exact .refl _
  | applied hstep _ ih => exact (hstep.extends hp).trans ih

-- What is new was made by an operation, and its path ends there.
theorem Trace.exists_of_new (h : Trace p root d outcomes d') (hp : p.overwrite = false)
    (hfree : d.get? k = none) (hnew : d'.get? k = some e) :
    ∃ o ∈ outcomes, o.status.isApplied = true ∧ e = made o.operation ∧
      d'.find false o.target = .ok ⟨k, some e, false⟩ := by
  induction h with
  | halted => simp [hfree] at hnew
  | @applied d d₁ d₂ operation change outcomes hstep hrest ih =>
    cases hfirst : d₁.get? k with
    | none =>
      obtain ⟨o, ho, hrest⟩ := ih hfirst hnew
      exact ⟨o, List.mem_cons_of_mem _ ho, hrest⟩
    | some e₁ =>
      -- the first operation made it, and it stays, like everything on the way to it
      have hextends := hrest.extends hp
      obtain rfl := Option.some.inj ((hextends.keeps hfirst).symm.trans hnew)
      obtain ⟨hmade, hfind⟩ := hstep.find_of_new hp hfree hfirst
      exact ⟨_, List.mem_cons_self, rfl, hmade, find_of_extends hfind hextends⟩

theorem Trace.find_of_writeFile {path : Path} {content : String} {mode : Option Nat}
    (h : Trace p root d outcomes d') (hp : p.overwrite = false) (ho : o ∈ outcomes)
    (happlied : o.status.isApplied = true) (hwrite : o.operation = .writeFile path content mode) :
    ∃ l, d'.find false o.target = .ok ⟨l, some (made o.operation), false⟩ := by
  induction h with
  | halted h => simp [h o ho] at happlied
  | applied hstep hrest ih =>
    rcases List.mem_cons.mp ho with rfl | ho
    · obtain rfl := hwrite
      obtain ⟨l, hfind⟩ := hstep.find_of_writeFile hp
      exact ⟨l, find_of_extends hfind (hrest.extends hp)⟩
    · exact ih ho

end Run

-- A run that may not overwrite leaves everything that was there as it was. What is new stands where
-- the path of an operation ends, with no link followed there, and is what that operation makes. No
-- file is written where a path ends at a link.
theorem run_extends (p : Policy) (hp : p.overwrite = false) (cancelled : Bool) (root : Path)
    (plan : Plan) {d : Disk} (hd : d.DeviceFree) :
    let (d', report) := run p cancelled root plan d
    (∀ l e, d.get? l = some e → d'.get? l = some e) ∧
    (∀ l e, d.get? l = none → d'.get? l = some e → ∃ o ∈ report.applied,
      e = made o.operation ∧ d'.find false o.target = .ok ⟨l, some e, false⟩) ∧
    ∀ o ∈ report.applied, ∀ path content mode, o.operation = .writeFile path content mode →
      ¬NamesLink d' o.target := by
  have htrace := trace_run p root hd cancelled plan
  refine ⟨fun l e => (htrace.extends hp).keeps, fun l e hfree hnew => ?_, fun o ho => ?_⟩
  · obtain ⟨o, ho, happlied, hmade⟩ := htrace.exists_of_new hp hfree hnew
    exact ⟨o, List.mem_filter.mpr ⟨ho, happlied⟩, hmade⟩
  · rintro path content mode hwrite ⟨s, link, hfind, hfound⟩
    obtain ⟨hmem, happlied⟩ := List.mem_filter.mp ho
    obtain ⟨l, hfile⟩ := htrace.find_of_writeFile hp hmem happlied hwrite
    obtain rfl := Except.ok.inj (hfile.symm.trans hfind)
    simp [hwrite, made] at hfound

-- A disk with a link that leads nowhere, and a plan that goes through a link to a directory before
-- it comes to that one.
def dangling : Disk := linked.put ["n"] (.link (.ofName "gone"))

theorem deviceFree_dangling : dangling.DeviceFree := deviceFree_linked.put (by simp)

def aroundLinks : Plan :=
  ⟨[.makeDir ⟨["s", "d"]⟩, .makeDir (.ofName "s"), .writeFile ⟨["s", "n"]⟩ "new" (some 0o600),
    .writeFile (.ofName "n") "lost" none]⟩

theorem run_extends_aroundLinks :
    let (d', report) := run ⟨false, true⟩ false .root aroundLinks dangling
    report.applied.length = 3 ∧ report.isSuccess = false ∧
    (∀ l e, dangling.get? l = some e → d'.get? l = some e) ∧
    (∀ l e, dangling.get? l = none → d'.get? l = some e → ∃ o ∈ report.applied,
      e = made o.operation ∧ d'.find false o.target = .ok ⟨l, some e, false⟩) ∧
    ∀ o ∈ report.applied, ∀ path content mode, o.operation = .writeFile path content mode →
      ¬NamesLink d' o.target :=
  ⟨by cbv, by cbv, run_extends ⟨false, true⟩ rfl false .root aroundLinks deviceFree_dangling⟩

end Execution

end Skeleton
