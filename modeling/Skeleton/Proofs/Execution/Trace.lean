import Skeleton.Proofs.Execution.Steps

-- What a run leaves behind: a chain of successful operations, and nothing after it.

namespace Skeleton.Execution

open Disk

inductive Trace (p : Policy) (root : Path) : Disk → List Outcome → Disk → Prop where
  | halted {d outcomes} (h : ∀ o ∈ outcomes, o.status.isApplied = false) :
      Trace p root d outcomes d
  | applied {d d₁ d₂ operation change outcomes}
      (hstep : Applies p d (root.join operation.path) operation change d₁)
      (hrest : Trace p root d₁ outcomes d₂) :
      Trace p root d (outcome root operation (.applied change) :: outcomes) d₂

section

variable {p : Policy} {root : Path} {d d' : Disk} {outcomes : List Outcome}

theorem Trace.grows (h : Trace p root d outcomes d') : d.Grows d' := by
  induction h with
  | halted => exact .refl _
  | applied hstep _ ih => exact hstep.grows.trans ih

theorem Trace.old {l : Location} {e : Entry} (h : Trace p root d outcomes d')
    (hget : d'.get? l = some e) (he : e.isPlain = false) : d.get? l = some e := by
  induction h with
  | halted => exact hget
  | applied hstep _ ih => exact hstep.old (ih hget) he

theorem Applies.deviceFree {target : Path} {operation : Operation} {change : Change}
    (h : Applies p d target operation change d') (hd : d.DeviceFree) : d'.DeviceFree :=
  fun l m isFull hget => hd l m isFull (h.old hget rfl)

-- What a successful outcome of a run did, between the disks before and after it.
theorem Trace.applies_of_mem {o : Outcome} {change : Change} (h : Trace p root d outcomes d')
    (ho : o ∈ outcomes) (hchange : o.status = .applied change) :
    ∃ d₁ d₂, d.Grows d₁ ∧ Applies p d₁ o.target o.operation change d₂ ∧ d₂.Grows d' := by
  induction h with
  | halted h =>
    have hstatus := h o ho
    rw [hchange] at hstatus
    cases hstatus
  | applied hstep hrest ih =>
    rcases List.mem_cons.mp ho with rfl | ho
    · obtain rfl := Status.applied.inj hchange
      exact ⟨_, _, .refl _, hstep, hrest.grows⟩
    · obtain ⟨d₁, d₂, hbefore, happlies, hafter⟩ := ih ho
      exact ⟨d₁, d₂, hstep.grows.trans hbefore, happlies, hafter⟩

theorem trace_runAll (p : Policy) (root : Path) (hd : d.DeviceFree) (operations : List Operation) :
    Trace p root d (runAll p root d operations).2 (runAll p root d operations).1 := by
  induction operations generalizing d with
  | nil => exact .halted (by simp [runAll])
  | cons operation rest ih =>
    have hsound := apply_sound p (root.join operation.path) hd operation
    simp only [runAll]
    cases hresult : apply p d (root.join operation.path) operation with
    | mk d₁ result =>
      rw [hresult] at hsound
      cases result with
      | ok change => exact .applied hsound (ih (hsound.deviceFree hd))
      | error failure =>
        obtain rfl : d₁ = d := hsound
        refine .halted ?_
        simp [outcome, Status.isApplied]

-- Every run is a trace, and leaves the disk alone if it is cancelled.
theorem trace_run (p : Policy) (root : Path) (hd : d.DeviceFree) (cancelled : Bool) (plan : Plan) :
    Trace p root d (run p cancelled root plan d).2.outcomes (run p cancelled root plan d).1 := by
  cases cancelled with
  | false => exact trace_runAll p root hd plan.operations
  | true =>
    refine .halted ?_
    simp only [run, if_true]
    cases plan.operations <;> simp [cancelAll, outcome, Status.isApplied]

-- There is one outcome for each operation, where the operation leads below the root.
theorem targets_runAll (p : Policy) (root : Path) (d : Disk) (operations : List Operation) :
    (runAll p root d operations).2.map (fun o => (o.operation, o.target)) =
      operations.map fun o => (o, root.join o.path) := by
  induction operations generalizing d with
  | nil => rfl
  | cons operation rest ih =>
    simp only [runAll]
    cases apply p d (root.join operation.path) operation with
    | mk d₁ result =>
      cases result with
      | ok change => simp [outcome, ih]
      | error failure => simp [outcome]

theorem operations_runAll (p : Policy) (root : Path) (d : Disk) (operations : List Operation) :
    (runAll p root d operations).2.map Outcome.operation = operations := by
  have htargets := congrArg (List.map Prod.fst) (targets_runAll p root d operations)
  simpa only [List.map_map, Function.comp_def, List.map_id'] using htargets

theorem exists_outcome (p : Policy) (root : Path) (d : Disk) {operations : List Operation}
    {o : Operation} (ho : o ∈ operations) :
    ∃ result ∈ (runAll p root d operations).2,
      result.operation = o ∧ result.target = root.join o.path := by
  have hmem : (o, root.join o.path) ∈ operations.map fun o => (o, root.join o.path) :=
    List.mem_map.mpr ⟨o, ho, rfl⟩
  rw [← targets_runAll p root d operations] at hmem
  obtain ⟨result, hresult, hpair⟩ := List.mem_map.mp hmem
  exact ⟨result, hresult, Prod.mk.inj hpair⟩

theorem targets_run (p : Policy) (cancelled : Bool) (root : Path) (plan : Plan) (d : Disk) :
    (run p cancelled root plan d).2.outcomes.map (fun o => (o.operation, o.target)) =
      plan.operations.map fun o => (o, root.join o.path) := by
  cases cancelled with
  | false => exact targets_runAll p root d plan.operations
  | true =>
    simp only [run, if_true]
    cases plan.operations <;> simp [cancelAll, outcome]

end

end Skeleton.Execution
