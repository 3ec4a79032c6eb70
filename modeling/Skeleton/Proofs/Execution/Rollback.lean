import Skeleton.Proofs.Execution.Trace

-- Rolling a run back, right after it.

namespace Skeleton.Execution

open Disk

def NamesLink (d : Disk) (target : Path) : Prop :=
  ∃ s link, d.find false target = .ok s ∧ s.found = some (.link link)

section

variable {p : Policy} {root : Path} {d d' : Disk} {outcomes : List Outcome}

theorem NamesLink.grow {target : Path} (h : NamesLink d target) (hgrow : d.Grows d') :
    NamesLink d' target := by
  obtain ⟨s, link, hfind, hfound⟩ := h
  obtain ⟨e, hw, hfind'⟩ := find_of_grows hfind hfound hgrow
  exact ⟨_, link, hfind', by rw [hw.eq_of_link]⟩

-- A copy that is moved over the file it was made of leaves nothing of the replacement.
theorem rename_of_replaced {target backup : Path} {l k : Location} {m : Mode} {old : ByteArray}
    (h : Replaced d d' target backup l k m old) (hgrow : d.Grows d')
    (hlink : ¬NamesLink d' target) : d'.rename backup target = .ok d := by
  obtain ⟨m', new, hfile⟩ := h.target
  have htarget : d'.find false target = .ok ⟨l, some (.file m' new), false⟩ := by
    rcases find_unfollowed hfile with hfind | ⟨i, link, hfind⟩
    · exact hfind
    · exact absurd ⟨_, link, hfind, rfl⟩ hlink
  have hne : k ≠ l := by
    rintro rfl
    have hwas := h.was
    simp [h.free] at hwas
  obtain ⟨d'', hrename, hcwd, hget⟩ := rename_file h.copy rfl htarget rfl rfl hne
  have hsame : d'' = d := by
    refine ext_get? (hcwd.trans hgrow.cwd) fun i => ?_
    rw [hget]
    by_cases hl : i = l
    · rw [if_pos hl, hl, h.was]
    · rw [if_neg hl]
      by_cases hk : i = k
      · rw [if_pos hk, hk, h.free]
      · rw [if_neg hk, h.others i hl hk]
  rw [hrename, hsame]

-- The change of a file is taken back exactly, whatever was written, unless the file was replaced
-- without a copy or through a link at the end of its path.
theorem Prepares.revert_put {base : Disk} {target : Path} {change : Change} {l : Location}
    {m : Mode} (h : Prepares p d target change base l m) (m' : Mode) (bytes : ByteArray)
    (hundo : ∀ backup, change = .replacedFile backup →
      backup ≠ none ∧ ¬NamesLink (base.put l (.file m' bytes)) target) :
    revert (base.put l (.file m' bytes)) target change = .ok d := by
  cases change with
  | createdDir | existingDir => cases h
  | createdFile =>
    obtain ⟨hfree, hdir, hput, hfile⟩ := h.created_file m' bytes
    rw [revert, removeFile_of_find hfile rfl rfl, hput, remove_put hfree hdir]
    rfl
  | replacedFile backup =>
    obtain ⟨hsome, hlink⟩ := hundo backup rfl
    cases backup with
    | none => exact absurd rfl hsome
    | some backup =>
      obtain ⟨k, old, hreplaced⟩ := h.exists_replaced m' bytes
      rw [revert, rename_of_replaced hreplaced (h.grows m' bytes) hlink]
      rfl

-- What an operation changed is taken back exactly, with the same exceptions.
theorem revert_of_applies {target : Path} {operation : Operation} {change : Change}
    (h : Applies p d target operation change d')
    (hundo : ∀ backup, change = .replacedFile backup → backup ≠ none ∧ ¬NamesLink d' target) :
    revert d' target change = .ok d := by
  cases h with
  | @createdDir path s hfind hnone =>
    have hmade : Applies p d target (.makeDir path) .createdDir (d.put s.location .newDir) :=
      .createdDir hfind hnone
    obtain ⟨l, hnew⟩ := hmade.exists_createdDir
    have hbare : (d.put s.location .newDir).isBare l = true :=
      hnew.put ▸ isBare_put hnew.free .newDir
    rw [revert, removeDir_of_find hnew.target rfl hbare, hnew.put, remove_put hnew.free hnew.inDir]
    rfl
  | existingDir => rfl
  | wrote h => exact h.revert_put _ _ hundo

theorem rollback_cons (d : Disk) (root : Path) (o : Outcome) (outcomes : List Outcome) :
    rollback d ⟨root, o :: outcomes⟩ =
      revertOutcome (rollback d ⟨root, outcomes⟩).1 (rollback d ⟨root, outcomes⟩).2 o := by
  simp [rollback, List.foldl_append]

theorem rollback_of_not_applied (d : Disk) (root : Path)
    (h : ∀ o ∈ outcomes, o.status.isApplied = false) :
    rollback d ⟨root, outcomes⟩ = (d, ⟨[], []⟩) := by
  induction outcomes with
  | nil => rfl
  | cons o rest ih =>
    rw [rollback_cons, ih fun o ho => h o (List.mem_cons_of_mem _ ho)]
    have ho := h o List.mem_cons_self
    cases hstatus : o.status <;> simp_all [revertOutcome, Status.isApplied]

theorem revertOutcome_of_revert (o : Outcome) {change : Change} (r : Rollback)
    (ho : o.status = .applied change) (h : revert d' o.target change = .ok d) :
    ∃ reverted, revertOutcome d' r o = (d, ⟨reverted, r.retained⟩) := by
  cases change with
  | existingDir =>
    obtain rfl := Except.ok.inj h
    exact ⟨r.reverted, by simp [revertOutcome, ho]⟩
  | _ => exact ⟨r.reverted ++ [o.target], by simp [revertOutcome, ho, h]⟩

-- The rollback of a run is its inverse, if each of its changes can be taken back.
theorem rollback_trace (h : Trace p root d outcomes d')
    (hundo : ∀ o ∈ outcomes, ∀ backup, o.status = .applied (.replacedFile backup) →
      backup ≠ none ∧ ¬NamesLink d' o.target) :
    (rollback d' ⟨root, outcomes⟩).1 = d ∧ (rollback d' ⟨root, outcomes⟩).2.retained = [] := by
  induction h with
  | halted h => simp [rollback_of_not_applied _ root h]
  | @applied d d₁ d₂ operation change outcomes hstep hrest ih =>
    obtain ⟨hdisk, hretained⟩ := ih fun o ho => hundo o (List.mem_cons_of_mem _ ho)
    have hrevert : revert d₁ (root.join operation.path) change = .ok d := by
      refine revert_of_applies hstep fun backup hbackup => ?_
      obtain ⟨hsome, hlink⟩ := hundo _ List.mem_cons_self backup (by rw [hbackup]; rfl)
      exact ⟨hsome, fun h => hlink (h.grow hrest.grows)⟩
    obtain ⟨reverted, heq⟩ := revertOutcome_of_revert
      (outcome root operation (.applied change)) (rollback d₂ ⟨root, outcomes⟩).2 rfl hrevert
    rw [rollback_cons, hdisk, heq]
    exact ⟨rfl, hretained⟩

-- Without links every change can be taken back, if replaced files have copies.
theorem rollback_trace_of_plain (h : Trace p root d outcomes d') (hd : d.Plain)
    (hpolicy : p.overwrite = false ∨ p.backups = true) :
    (rollback d' ⟨root, outcomes⟩).1 = d ∧ (rollback d' ⟨root, outcomes⟩).2.retained = [] := by
  apply rollback_trace h
  intro o ho backup hstatus
  obtain ⟨d₁, d₂, -, happlies, -⟩ := h.applies_of_mem ho hstatus
  constructor
  · rintro rfl
    generalize o.operation = operation at happlies
    cases happlies with
    | wrote h => cases h <;> simp_all
  · rintro ⟨s, link, hfind, hfound⟩
    have hlink := (find_spot hfind).1.symm.trans hfound
    exact hd.linkFree _ _ (h.old hlink rfl)

end

-- Rolling back right after a run restores the disk, however the run ended.
theorem rollback_run (p : Policy) (cancelled : Bool) (root : Path) (plan : Plan) {d : Disk}
    (hd : d.Plain) (hpolicy : p.overwrite = false ∨ p.backups = true) :
    let (d', report) := run p cancelled root plan d
    (rollback d' report).1 = d ∧ (rollback d' report).2.retained = [] := by
  have htrace := trace_run p root hd.deviceFree cancelled plan
  cases cancelled <;> exact rollback_trace_of_plain htrace hd hpolicy

-- A file, and a plan that writes over it twice and over its copy before it fails.
def noted : Disk := blank.put ["a"] (.file 0o600 "old".toUTF8)

def overNote : Plan :=
  ⟨[.writeFile (.ofName "a") "new" none, .writeFile (.ofName "a.bak") "copy" (some 0o444),
    .writeFile (.ofName "a") "newer" none, .makeDir (.ofName "b"),
    .writeFile ⟨["b", "c"]⟩ "" none, .makeDir (.ofName "a")]⟩

theorem plain_noted : noted.Plain := plain_blank.put rfl

theorem rollback_run_noted :
    let (d', report) := run ⟨true, true⟩ false .root overNote noted
    report.applied.length = 5 ∧ report.isSuccess = false ∧
      (rollback d' report).1 = noted ∧ (rollback d' report).2.retained = [] :=
  ⟨by cbv, by cbv, rollback_run ⟨true, true⟩ false .root overNote plain_noted (.inr rfl)⟩

end Skeleton.Execution
