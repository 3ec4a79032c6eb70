import Skeleton.Execution.Text
import Skeleton.Proofs.Execution.Links

-- Where runs stop. A report tells what was applied, what failed and what is left, and what is left
-- fails again at once.

namespace Skeleton

def Status.isFailed : Status → Bool
  | failed _ => true
  | _ => false

def Json.member? (name : String) : Json → Option Json
  | .object fields => fields.lookup name
  | _ => none

namespace Execution

-- Outcomes up to the first failure, and what is pending behind it.
inductive Halts : List Outcome → Prop where
  | done : Halts []
  | applied {o rest} (h : o.status.isApplied = true) (hrest : Halts rest) : Halts (o :: rest)
  | failed {o failure rest} (h : o.status = .failed failure)
      (hrest : ∀ o ∈ rest, o.status = .pending) : Halts (o :: rest)

section Outcomes

variable {root : Path} {outcomes rest : List Outcome} {o : Outcome} {failure : Failure}

theorem filter_not_applied_of_failed (h : o.status = .failed failure)
    (hrest : ∀ o ∈ rest, o.status = .pending) :
    (o :: rest).filter (fun o => !o.status.isApplied) = o :: rest := by
  refine List.filter_eq_self.mpr fun o' ho' => ?_
  rcases List.mem_cons.mp ho' with rfl | ho'
  · simp [h]
  · simp [hrest o' ho']

-- What was applied stands before what was not.
theorem Halts.applied_append (h : Halts outcomes) :
    (outcomes.filter fun o => o.status.isApplied) ++ (outcomes.filter fun o => !o.status.isApplied) =
      outcomes := by
  induction h with
  | done => rfl
  | applied h _ ih => simpa [h] using ih
  | @failed o failure rest h hrest =>
    have hnone : (o :: rest).filter (fun o => o.status.isApplied) = [] := by
      refine List.filter_eq_nil_iff.mpr fun o' ho' => ?_
      rcases List.mem_cons.mp ho' with rfl | ho'
      · simp [h]
      · simp [hrest o' ho']
    rw [hnone, filter_not_applied_of_failed h hrest, List.nil_append]

-- Without a failure everything was applied.
theorem Halts.applied_or_failed (h : Halts outcomes) :
    (∀ o ∈ outcomes, o.status.isApplied = true) ∨
      ∃ done o failure rest, outcomes = done ++ o :: rest ∧
        (∀ o ∈ done, o.status.isApplied = true) ∧ o.status = .failed failure ∧
        ∀ o ∈ rest, o.status = .pending := by
  induction h with
  | done => exact .inl (by simp)
  | @applied o rest h _ ih =>
    rcases ih with ih | ⟨done, o', failure, left, rfl, hdone, hfailed, hleft⟩
    · exact .inl (by simpa [h] using ih)
    · exact .inr ⟨o :: done, o', failure, left, rfl, by simpa [h] using hdone, hfailed, hleft⟩
  | @failed o failure rest h hrest => exact .inr ⟨[], o, failure, rest, rfl, by simp, h, hrest⟩

structure FailsAt (r : Report) (o : Outcome) (failure : Failure) : Prop where
  status : o.status = .failed failure
  found : r.failure? = some (o, failure)
  parts : r.outcomes = r.applied ++ o :: r.pending

theorem failsAt_of_append {r : Report} {done : List Outcome}
    (h : r.outcomes = done ++ o :: rest) (hdone : ∀ o ∈ done, o.status.isApplied = true)
    (ho : o.status = .failed failure) (hrest : ∀ o ∈ rest, o.status = .pending) :
    FailsAt r o failure := by
  have happlied : r.applied = done := by
    have hself := List.filter_eq_self.mpr hdone
    have hnone : rest.filter (fun o => o.status.isApplied) = [] :=
      List.filter_eq_nil_iff.mpr fun o' ho' => by simp [hrest o' ho']
    simp [Report.applied, h, hself, hnone, ho]
  have hpending : r.pending = rest := by
    have hself : rest.filter (fun o => o.status = .pending) = rest :=
      List.filter_eq_self.mpr fun o' ho' => by simp [hrest o' ho']
    have hnone : done.filter (fun o => o.status = .pending) = [] := by
      refine List.filter_eq_nil_iff.mpr fun o' ho' hstatus => ?_
      have hkind := hdone o' ho'
      simp [of_decide_eq_true hstatus] at hkind
    simp [Report.pending, h, hself, hnone, ho]
  refine ⟨ho, ?_, by rw [happlied, hpending, h]⟩
  unfold Report.failure?
  rw [h, List.findSome?_append, List.findSome?_eq_none_iff.mpr]
  · simp [ho]
  · intro o' ho'
    have hkind := hdone o' ho'
    cases hstatus : o'.status <;> simp_all

theorem Halts.success_or_failsAt {r : Report} (h : Halts r.outcomes) :
    (r.isSuccess = true ∧ r.failure? = none ∧ r.applied = r.outcomes ∧ r.pending = []) ∨
      r.isSuccess = false ∧ ∃ o failure, FailsAt r o failure := by
  rcases h.applied_or_failed with happlied | ⟨done, o, failure, rest, hparts, hdone, ho, hrest⟩
  · refine .inl ⟨List.all_eq_true.mpr happlied, ?_, List.filter_eq_self.mpr happlied, ?_⟩
    · refine List.findSome?_eq_none_iff.mpr fun o ho => ?_
      have hkind := happlied o ho
      cases hstatus : o.status <;> simp_all
    · refine List.filter_eq_nil_iff.mpr fun o ho hstatus => ?_
      have hkind := happlied o ho
      simp [of_decide_eq_true hstatus] at hkind
  · refine .inr ⟨?_, o, failure, failsAt_of_append hparts hdone ho hrest⟩
    simp [Report.isSuccess, hparts, ho]

theorem isApplied_of_mem_applied {r : Report} (h : o ∈ r.applied) : o.status.isApplied = true :=
  (List.mem_filter.mp h).2

theorem status_of_mem_pending {r : Report} (h : o ∈ r.pending) : o.status = .pending :=
  of_decide_eq_true (List.mem_filter.mp h).2

theorem FailsAt.filter_not_applied {r : Report} (h : FailsAt r o failure)
    (hhalts : Halts r.outcomes) :
    (r.outcomes.filter fun o => !o.status.isApplied) = o :: r.pending := by
  have hparts := hhalts.applied_append.trans h.parts
  exact List.append_cancel_left hparts

theorem FailsAt.countP_eq {r : Report} (h : FailsAt r o failure) :
    (r.outcomes.countP fun o => o.status.isFailed) = 1 := by
  have happlied : (r.applied.countP fun o => o.status.isFailed) = 0 := by
    refine List.countP_eq_zero.mpr fun o' ho' => ?_
    have hkind := isApplied_of_mem_applied ho'
    cases hstatus : o'.status <;> simp_all [Status.isFailed]
  have hpending : (r.pending.countP fun o => o.status.isFailed) = 0 :=
    List.countP_eq_zero.mpr fun o' ho' => by simp [status_of_mem_pending ho', Status.isFailed]
  rw [h.parts, List.countP_append, List.countP_cons, happlied, hpending, h.status]
  rfl

end Outcomes

section Run

variable (p : Policy) (root : Path)

theorem halts_failed (operation : Operation) (failure : Failure) (rest : List Operation) :
    Halts (outcome root operation (.failed failure) :: rest.map fun o => outcome root o .pending) :=
  .failed rfl (by simp [outcome])

theorem halts_runAll (d : Disk) (operations : List Operation) :
    Halts (runAll p root d operations).2 := by
  induction operations generalizing d with
  | nil => exact .done
  | cons operation rest ih =>
    simp only [runAll]
    cases apply p d (root.join operation.path) operation with
    | mk d₁ result =>
      cases result with
      | ok change => exact .applied rfl (ih d₁)
      | error failure => exact halts_failed root operation failure rest

theorem halts_run (cancelled : Bool) (plan : Plan) (d : Disk) :
    Halts (run p cancelled root plan d).2.outcomes := by
  cases cancelled with
  | false => exact halts_runAll p root d plan.operations
  | true =>
    simp only [run, if_true]
    cases plan.operations with
    | nil => exact .done
    | cons operation rest => exact halts_failed root operation .cancelled rest

-- What is left of a run fails where the run failed, and changes nothing.
theorem runAll_remaining {d : Disk} (hd : d.DeviceFree) (operations : List Operation) :
    let (d', outcomes) := runAll p root d operations
    let left := outcomes.filter fun o => !o.status.isApplied
    runAll p root d' (left.map Outcome.operation) = (d', left) := by
  induction operations generalizing d with
  | nil => rfl
  | cons operation rest ih =>
    have hsound := apply_sound p (root.join operation.path) hd operation
    simp only [runAll]
    cases hresult : apply p d (root.join operation.path) operation with
    | mk d₁ result =>
      rw [hresult] at hsound
      cases result with
      | ok change => exact ih (hsound.deviceFree hd)
      | error failure =>
        obtain rfl : d₁ = d := hsound
        have hpending : ∀ o ∈ rest.map (fun o => outcome root o .pending), o.status = .pending := by
          simp [outcome]
        have hrest : (rest.map fun o => outcome root o .pending).map Outcome.operation = rest := by
          simp [outcome, Function.comp_def]
        have hleft := filter_not_applied_of_failed
          (o := outcome root operation (.failed failure)) rfl hpending
        simp only [hleft, List.map_cons, hrest]
        rw [outcome, runAll, hresult]
        rfl

theorem root_run (cancelled : Bool) (plan : Plan) (d : Disk) :
    (run p cancelled root plan d).2.root = root := by
  cases cancelled <;> rfl

theorem run_remaining {d : Disk} (hd : d.DeviceFree) (plan : Plan) :
    let (d', report) := run p false root plan d
    run p false root report.remaining d' =
      (d', ⟨root, report.outcomes.filter fun o => !o.status.isApplied⟩) := by
  have hrest := runAll_remaining p root hd plan.operations
  simp only [run, Report.remaining, Bool.false_eq_true, if_false] at hrest ⊢
  rw [hrest]

end Run

-- What a report tells about the operations that were to be carried out in a directory. The three
-- lists of its document are its parts, and the counts of its last line are theirs.
structure Accounts (root : Path) (operations : List Operation) (r : Report) : Prop where
  under : r.root = root
  planned : r.outcomes.map (fun o => (o.operation, o.target)) =
    operations.map fun o => (o, root.join o.path)
  halts : Halts r.outcomes
  success : r.isSuccess = true ↔ ∀ o ∈ r.outcomes, o.status.isFailed = false
  resumes : r.applied.map Outcome.operation ++ r.remaining.operations = operations
  parts : r.outcomes = r.applied ++ (r.failure?.map Prod.fst).toList ++ r.pending
  appliedShown : r.json.member? "applied" = some (Report.targets r.applied)
  failedShown : r.json.member? "failed" = r.failure?.map fun (o, failure) =>
    .object [("path", .string o.target.text), ("reason", .string failure.message)]
  pendingShown : r.json.member? "pending" = some (Report.targets r.pending)
  told : r.isSuccess = false →
    (r.outcomes.countP fun o => o.status.isFailed) = 1 ∧
    r.text = String.join (r.outcomes.map Outcome.text) ++
      (Text.decimal (r.outcomes.countP fun o => o.status.isApplied) ++ " applied, 1 failed, " ++
        Text.decimal (r.outcomes.countP fun o => o.status = .pending) ++ " pending under " ++
        root.text ++ "\n")

theorem accounts_of_halts {root : Path} {operations : List Operation} {r : Report}
    (hroot : r.root = root)
    (hplanned : r.outcomes.map (fun o => (o.operation, o.target)) =
      operations.map fun o => (o, root.join o.path))
    (hhalts : Halts r.outcomes) : Accounts root operations r where
  under := hroot
  planned := hplanned
  halts := hhalts
  success := by
    rcases hhalts.success_or_failsAt with ⟨hsuccess, -, happlied, -⟩ | ⟨hfailed, o, failure, hat⟩
    · refine iff_of_true hsuccess fun o ho => ?_
      have hkind := isApplied_of_mem_applied (happlied ▸ ho)
      cases hstatus : o.status <;> simp_all [Status.isFailed]
    · refine iff_of_false (by simp [hfailed]) fun hnone => ?_
      have hkind := hnone o (by simp [hat.parts])
      simp [hat.status, Status.isFailed] at hkind
  resumes := by
    have hoperations := congrArg (List.map Prod.fst) hplanned
    simp only [List.map_map, Function.comp_def, List.map_id'] at hoperations
    rw [← hoperations, Report.remaining, Report.applied, ← List.map_append, hhalts.applied_append]
  parts := by
    rcases hhalts.success_or_failsAt with ⟨-, hnone, happlied, hpending⟩ | ⟨-, o, failure, hat⟩
    · simp [hnone, happlied, hpending]
    · simpa [hat.found] using hat.parts
  appliedShown := rfl
  failedShown := by
    cases hfailure : r.failure? <;> simp [Report.json, Json.member?, hfailure, List.lookup]
  pendingShown := by
    cases hfailure : r.failure? <;> simp [Report.json, Json.member?, hfailure, List.lookup]
  told := by
    intro hfailed
    rcases hhalts.success_or_failsAt with ⟨hsuccess, -⟩ | ⟨-, o, failure, hat⟩
    · simp [hsuccess] at hfailed
    · refine ⟨hat.countP_eq, ?_⟩
      simp [Report.text, Report.summaryText, hfailed, hroot, Report.applied, Report.pending,
        List.countP_eq_length_filter]

-- Every run accounts for its plan. A run that fails, and is not cancelled, fails again with the same
-- failure at the first operation that is left, and leaves the disk as it is.
theorem accounts_run (p : Policy) (cancelled : Bool) (root : Path) (plan : Plan) {d : Disk}
    (hd : d.DeviceFree) :
    let (d', report) := run p cancelled root plan d
    Accounts root plan.operations report ∧
    (cancelled = false → report.isSuccess = false →
      let (d'', again) := run p false root report.remaining d'
      d'' = d' ∧ again.applied = [] ∧ ∃ o failure rest, report.failure? = some (o, failure) ∧
        again.outcomes = o :: rest ∧ o.status = .failed failure) := by
  have hhalts := halts_run p root cancelled plan d
  have hplanned := targets_run p cancelled root plan d
  have hroot := root_run p root cancelled plan d
  have hagain := run_remaining p root hd plan
  cases hrun : run p cancelled root plan d with
  | mk d' report =>
    simp only [hrun] at hhalts hplanned hroot ⊢
    refine ⟨accounts_of_halts hroot hplanned hhalts, fun hgo hfailed => ?_⟩
    subst hgo
    simp only [hrun] at hagain
    rcases hhalts.success_or_failsAt with ⟨hsuccess, -⟩ | ⟨-, o, failure, hat⟩
    · simp [hsuccess] at hfailed
    · have hleft := hat.filter_not_applied hhalts
      rw [hagain, hleft]
      refine ⟨rfl, List.filter_eq_nil_iff.mpr fun o' ho' => ?_, o, failure, _, hat.found, rfl,
        hat.status⟩
      rcases List.mem_cons.mp ho' with rfl | ho'
      · simp [hat.status]
      · simp [status_of_mem_pending ho']

-- A plan that writes through a link and then comes to one that leads to a directory.
def halfway : Plan :=
  ⟨[.writeFile (.ofName "l") "new" (some 0o444), .makeDir ⟨["s", "d"]⟩,
    .writeFile (.ofName "s") "no" none, .makeDir (.ofName "late")]⟩

theorem accounts_run_halfway :
    let (d', report) := run ⟨true, true⟩ false .root halfway linked
    report.isSuccess = false ∧ report.pending.length = 1 ∧
      Accounts .root halfway.operations report ∧
      let (d'', again) := run ⟨true, true⟩ false .root report.remaining d'
      d'' = d' ∧ again.applied = [] ∧ ∃ o failure rest, report.failure? = some (o, failure) ∧
        again.outcomes = o :: rest ∧ o.status = .failed failure := by
  have hfailed : (run ⟨true, true⟩ false .root halfway linked).2.isSuccess = false := by cbv
  obtain ⟨haccounts, hagain⟩ := accounts_run ⟨true, true⟩ false .root halfway deviceFree_linked
  exact ⟨hfailed, by cbv, haccounts, hagain rfl hfailed⟩

end Execution

end Skeleton
