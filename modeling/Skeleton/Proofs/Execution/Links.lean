import Skeleton.Proofs.Disk.Wear
import Skeleton.Proofs.Execution.Rollback

-- Rolling a run back on disks with links. A file that was replaced through a link at the end of its
-- path is copied, but the copy is moved over the link. Such a rollback looks complete and is not.

namespace Skeleton.Execution

open Disk

section

variable {p : Policy} {root target : Path} {d d₁ x x' : Disk} {outcomes : List Outcome}
  {operation : Operation} {change : Change} {l : Location}

-- Taking away what was new.
theorem worn_remove (hworn : d₁.Worn x) (hcwd : d₁.cwd = d.cwd) (hl : d.get? l = none)
    (hget : ∀ k, k ≠ l → d₁.get? k = d.get? k) (hbare : x.isBare l = true) :
    d.Worn (x.remove l) := by
  have hremove := get?_remove hbare (ne_nil_of_absent hl)
  refine ⟨by rw [cwd_remove, hworn.cwd, hcwd], fun {k} hk => ?_, fun {k e} hk => ?_⟩
  · rw [hremove]
    split
    · rfl
    · rename_i hkl
      exact hworn.absent ((hget k hkl).trans hk)
  · have hkl : k ≠ l := by
      rintro rfl
      simp [hl] at hk
    rw [hremove, if_neg hkl]
    exact hworn.present ((hget k hkl).trans hk)

theorem get?_remove_link {link : Path} (hl : l ≠ []) (hbare : x.isBare l = true) {k : Location}
    (h : (x.remove l).get? k = some (.link link)) : x.get? k = some (.link link) := by
  rw [get?_remove hbare hl] at h
  split at h
  · cases h
  · exact h

-- The path of a replaced file ends at that file or at a link.
theorem find_end_of_replaced {backup : Path} {k : Location} {m : Mode} {old : ByteArray}
    (h : Replaced d d₁ target backup l k m old)
    (hlinks : ∀ i link, d₁.get? i = some (.link link) → d.get? i = some (.link link)) :
    ∃ t e e', d₁.find false target = .ok ⟨t, some e, false⟩ ∧ e.isDir = false ∧
      d.get? t = some e' ∧ ∀ n bytes, e'.Worn (.file n bytes) := by
  obtain ⟨m', new, hfile⟩ := h.target
  rcases find_unfollowed hfile with hfind | ⟨t, link, hfind⟩
  · exact ⟨l, _, _, hfind, rfl, h.was, fun n bytes => .rewritten (.file ..)⟩
  · have hlink := hlinks t link (find_spot hfind).1.symm
    exact ⟨t, _, _, hfind, rfl, hlink, fun n bytes => .unlinked ..⟩

-- A copy that is moved on a worn disk goes from where it was made to where the path ends.
theorem rename_worn {backup : Path} {t k : Location} {e : Entry} {m : Mode} {old : ByteArray}
    (hcopy : d₁.find false backup = .ok ⟨k, some (.file m old), false⟩)
    (htarget : d₁.find false target = .ok ⟨t, some e, false⟩) (hdir : e.isDir = false)
    (hne : k ≠ t) (hworn : d₁.Worn x) (hrename : x.rename backup target = .ok x') :
    x'.cwd = x.cwd ∧ ∃ n bytes, ∀ i, x'.get? i =
      if i = t then some (.file n bytes) else if i = k then none else x.get? i := by
  obtain ⟨source, end', hsource, hend⟩ := find_of_rename hrename
  have hsourceLoc : source.location = k := find_location_of_worn hcopy hsource hworn
  have hendLoc : end'.location = t := find_location_of_worn htarget hend hworn
  obtain ⟨f, hf, hfworn⟩ := hworn.present (find_spot hcopy).1.symm
  obtain ⟨n, bytes, rfl⟩ := hfworn.file_of_file
  obtain ⟨g, hg, hgworn⟩ := hworn.present (find_spot htarget).1.symm
  have hfound : source.found = some (.file n bytes) :=
    (find_spot hsource).1.trans (hsourceLoc ▸ hf)
  have hold : end'.found = some g := (find_spot hend).1.trans (hendLoc ▸ hg)
  obtain ⟨x'', hrename', hcwd, hget⟩ := rename_file hsource hfound hend hold
    (hgworn.isDir.trans hdir) (by rw [hsourceLoc, hendLoc]; exact hne)
  obtain rfl := Except.ok.inj (hrename.symm.trans hrename')
  rw [hsourceLoc, hendLoc] at hget
  exact ⟨hcwd, n, bytes, hget⟩

theorem worn_of_replaced {backup : Path} {t k : Location} {e : Entry} {m n : Mode}
    {old bytes : ByteArray} (h : Replaced d d₁ target backup l k m old) (ht : d.get? t = some e)
    (hwear : e.Worn (.file n bytes)) (hworn : d₁.Worn x) (hcwd : x'.cwd = d.cwd)
    (hget : ∀ i, x'.get? i =
      if i = t then some (.file n bytes) else if i = k then none else x.get? i) : d.Worn x' := by
  refine ⟨hcwd, fun {i} hi => ?_, fun {i e'} hi => ?_⟩
  · have hit : i ≠ t := fun heq => by simp [heq, ht] at hi
    have hil : i ≠ l := fun heq => by simp [heq, h.was] at hi
    rw [hget, if_neg hit]
    by_cases hik : i = k
    · rw [if_pos hik]
    · rw [if_neg hik]
      exact hworn.absent ((h.others i hil hik).trans hi)
  · have hik : i ≠ k := fun heq => by simp [heq, h.free] at hi
    by_cases hit : i = t
    · obtain rfl := Option.some.inj (ht.symm.trans (hit ▸ hi))
      exact ⟨_, by rw [hget, if_pos hit], hwear⟩
    · simp only [hget, if_neg hit, if_neg hik]
      by_cases hil : i = l
      · obtain rfl := Option.some.inj (h.was.symm.trans (hil ▸ hi))
        obtain ⟨m', new, hfile⟩ := h.target
        obtain ⟨e₁, he₁, hw₁⟩ := hworn.present (hil ▸ (find_spot hfile).1.symm)
        obtain ⟨n', bytes', rfl⟩ := hw₁.file_of_file
        exact ⟨_, he₁, .rewritten (.file ..)⟩
      · exact hworn.present ((h.others i hil hik).trans hi)

-- Moving a copy back leaves a worn disk, with a file where the path ends.
theorem replaced_worn {backup : Path} {k : Location} {m : Mode} {old : ByteArray}
    (h : Replaced d d₁ target backup l k m old) (hgrow : d.Grows d₁)
    (hlinks : ∀ i link, d₁.get? i = some (.link link) → d.get? i = some (.link link))
    (hworn : d₁.Worn x) (hrename : x.rename backup target = .ok x') :
    d.Worn x' ∧ (∀ i link, x'.get? i = some (.link link) → x.get? i = some (.link link)) ∧
      ∀ t, d₁.find false target = .ok t → ∀ link, x'.get? t.location ≠ some (.link link) := by
  obtain ⟨t, e, e', htarget, hdir, hbefore, hwear⟩ := find_end_of_replaced h hlinks
  have hne : k ≠ t := by
    rintro rfl
    simp [h.free] at hbefore
  obtain ⟨hcwd, n, bytes, hget⟩ := rename_worn h.copy htarget hdir hne hworn hrename
  have hcwd' : x'.cwd = d.cwd := by rw [hcwd, hworn.cwd, hgrow.cwd]
  refine ⟨worn_of_replaced h hbefore (hwear n bytes) hworn hcwd' hget, fun i link hi => ?_,
    fun t' ht' link => ?_⟩
  · rw [hget] at hi
    split at hi
    · cases hi
    · split at hi
      · cases hi
      · exact hi
  · obtain rfl := Except.ok.inj (htarget.symm.trans ht')
    rw [hget, if_pos rfl]
    simp

-- Taking away what was created leaves a worn disk.
theorem created_worn {e : Entry} (h : Created d d₁ target l e) (hworn : d₁.Worn x)
    (hbare : x.isBare l = true) :
    d.Worn (x.remove l) ∧
      ∀ i link, (x.remove l).get? i = some (.link link) → x.get? i = some (.link link) := by
  have hcwd : d₁.cwd = d.cwd := by rw [h.put, cwd_put]
  have hget : ∀ i, i ≠ l → d₁.get? i = d.get? i := by
    intro i hi
    rw [h.put, get?_put_of_ne d e hi]
  exact ⟨worn_remove hworn hcwd h.free hget hbare,
    fun i link => get?_remove_link (ne_nil_of_absent h.free) hbare⟩

-- The disk after a reverted change is worn, and has no link that it did not have. There is none
-- where a file was replaced.
theorem revert_worn (h : Applies p d target operation change d₁) (hworn : d₁.Worn x)
    (hrevert : revert x target change = .ok x') :
    d.Worn x' ∧ (∀ k link, x'.get? k = some (.link link) → x.get? k = some (.link link)) ∧
      ∀ backup, change = .replacedFile backup → ∀ t, d₁.find false target = .ok t →
        ∀ link, x'.get? t.location ≠ some (.link link) := by
  cases change with
  | createdDir =>
    obtain ⟨l, hnew⟩ := h.exists_createdDir
    obtain ⟨t, ht, hbare, rfl⟩ := removeDir_eq_ok (mapError_eq_ok_iff.mp hrevert)
    obtain rfl : t.location = l := find_location_of_worn hnew.target ht hworn
    obtain ⟨hworn', hlinks⟩ := created_worn hnew hworn hbare
    exact ⟨hworn', hlinks, by simp⟩
  | existingDir =>
    obtain rfl := Except.ok.inj hrevert
    cases h with
    | existingDir => exact ⟨hworn, fun _ _ => id, by simp⟩
    | wrote h => cases h
  | createdFile =>
    obtain ⟨l, m, content, hnew⟩ := h.exists_createdFile
    obtain ⟨t, ht, hbare, rfl⟩ := removeFile_eq_ok (mapError_eq_ok_iff.mp hrevert)
    obtain rfl : t.location = l := find_location_of_worn hnew.target ht hworn
    obtain ⟨hworn', hlinks⟩ := created_worn hnew hworn hbare
    exact ⟨hworn', hlinks, by simp⟩
  | replacedFile backup =>
    cases backup with
    | none => cases hrevert
    | some backup =>
      obtain ⟨l, k, m, old, hreplaced⟩ := h.exists_replaced
      have hold : ∀ i link, d₁.get? i = some (.link link) → d.get? i = some (.link link) :=
        fun i link hi => h.old hi rfl
      obtain ⟨hworn', hlinks, hend⟩ := replaced_worn hreplaced h.grows hold hworn
        (mapError_eq_ok_iff.mp hrevert)
      exact ⟨hworn', hlinks, fun _ _ => hend⟩

-- A rollback that retained nothing reverted every change.
theorem revert_of_retained_eq_nil {r : Rollback} {o : Outcome}
    (h : (revertOutcome x r o).2.retained = []) :
    r.retained = [] ∧ ∀ change, o.status = .applied change →
      revert x o.target change = .ok (revertOutcome x r o).1 := by
  unfold revertOutcome at h ⊢
  cases hstatus : o.status with
  | pending => simpa [hstatus] using h
  | failed failure => simpa [hstatus] using h
  | applied change =>
    cases change with
    | existingDir => simpa [hstatus, revert] using h
    | _ =>
      simp only [hstatus] at h ⊢
      split at h
      · rename_i hrevert
        simp_all
      · simp at h

theorem backup_ne_none_of_complete (h : (rollback x ⟨root, outcomes⟩).2.retained = []) :
    ∀ o ∈ outcomes, o.status ≠ .applied (.replacedFile none) := by
  induction outcomes with
  | nil => simp
  | cons o rest ih =>
    rw [rollback_cons] at h
    obtain ⟨hrest, hrevert⟩ := revert_of_retained_eq_nil h
    intro o' ho'
    rcases List.mem_cons.mp ho' with rfl | ho'
    · intro hstatus
      cases hrevert _ hstatus
    · exact ih hrest o' ho'

theorem find_of_replacedFile {backup : Option Path}
    (h : Applies p d target operation (.replacedFile backup) d₁) :
    ∃ t e, d₁.find false target = .ok t ∧ t.found = some e := by
  cases h with
  | wrote h =>
    rcases find_unfollowed (h.find _ _) with hfind | ⟨k, link, hfind⟩
    · exact ⟨_, _, hfind, rfl⟩
    · exact ⟨_, _, hfind, rfl⟩

-- A complete rollback leaves a worn disk, and no link where a file was replaced.
theorem rollback_worn {d' : Disk} (h : Trace p root d outcomes d')
    (hcomplete : (rollback d' ⟨root, outcomes⟩).2.retained = []) :
    d.Worn (rollback d' ⟨root, outcomes⟩).1 ∧
      ∀ o ∈ outcomes, ∀ backup, o.status = .applied (.replacedFile backup) →
        ∀ t, d'.find false o.target = .ok t → ∀ link,
          (rollback d' ⟨root, outcomes⟩).1.get? t.location ≠ some (.link link) := by
  induction h with
  | halted h =>
    rw [rollback_of_not_applied _ root h]
    refine ⟨.refl _, fun o ho backup hstatus => ?_⟩
    have happlied := h o ho
    rw [hstatus] at happlied
    cases happlied
  | @applied d d₁ d₂ operation change outcomes hstep hrest ih =>
    rw [rollback_cons] at hcomplete ⊢
    obtain ⟨hretained, hrevert⟩ := revert_of_retained_eq_nil hcomplete
    obtain ⟨hworn, hlinks⟩ := ih hretained
    obtain ⟨hworn', hfewer, hhere⟩ := revert_worn hstep hworn (hrevert change rfl)
    refine ⟨hworn', fun o ho backup hstatus t ht link hlink => ?_⟩
    rcases List.mem_cons.mp ho with rfl | ho
    · obtain rfl := Status.applied.inj hstatus
      obtain ⟨t₁, e, ht₁, he⟩ := find_of_replacedFile hstep
      obtain ⟨e', -, ht₂⟩ := find_of_grows ht₁ he hrest.grows
      obtain rfl := Except.ok.inj (ht₂.symm.trans ht)
      exact hhere backup rfl t₁ ht₁ link hlink
    · exact hlinks o ho backup hstatus t ht link (hfewer _ _ hlink)

end

-- A complete rollback restores the disk exactly if no file was replaced through a link.
theorem rollback_restores_iff (p : Policy) (cancelled : Bool) (root : Path) (plan : Plan) {d : Disk}
    (hd : d.DeviceFree) :
    let (d', report) := run p cancelled root plan d
    let (d'', r) := rollback d' report
    r.isComplete = true →
      (d'' = d ↔ ∀ o ∈ report.outcomes, ∀ backup, o.status = .applied (.replacedFile backup) →
        ¬NamesLink d' o.target) := by
  have htrace := trace_run p root hd cancelled plan
  intro hcomplete
  have hretained := List.isEmpty_iff.mp hcomplete
  constructor
  · rintro hrestored o ho backup hstatus ⟨t, link, hfind, hfound⟩
    have hlink := htrace.old ((find_spot hfind).1.symm.trans hfound) rfl
    obtain ⟨-, hnone⟩ := rollback_worn htrace hretained
    apply hnone o ho backup hstatus t hfind link
    rw [← hlink]
    exact congrArg (fun d : Disk => d.get? t.location) hrestored
  · intro hlinks
    refine (rollback_trace htrace fun o ho backup hstatus => ⟨?_, hlinks o ho backup hstatus⟩).1
    rintro rfl
    exact backup_ne_none_of_complete hretained o ho hstatus

def linked : Disk :=
  (((blank.put ["g"] .newDir).put ["g", "f"] (.file 0o600 "old".toUTF8)).put ["s"]
    (.link (.ofName "g"))).put ["l"] (.link ⟨["g", "f"]⟩)

theorem deviceFree_linked : linked.DeviceFree :=
  (((plain_blank.put rfl).put rfl).deviceFree.put (by simp)).put (by simp)

def throughDir : Plan := ⟨[.writeFile ⟨["s", "f"]⟩ "new" none, .makeDir ⟨["s", "d"]⟩]⟩

-- Links on the way to a file do no harm.
theorem rollback_restores_iff_throughDir :
    let (d', report) := run ⟨true, true⟩ false .root throughDir linked
    let (d'', r) := rollback d' report
    report.isSuccess = true ∧ r.isComplete = true ∧
      (d'' = linked ↔ ∀ o ∈ report.outcomes, ∀ backup, o.status = .applied (.replacedFile backup) →
        ¬NamesLink d' o.target) :=
  ⟨by cbv, by cbv, rollback_restores_iff ⟨true, true⟩ false .root throughDir
    deviceFree_linked (by cbv)⟩

-- A link at the end is gone afterwards, and what it led to keeps its new content.
theorem complete_rollback_over_link :
    let (d', report) := run ⟨true, true⟩ false .root ⟨[.writeFile (.ofName "l") "new" none]⟩ linked
    let (d'', r) := rollback d' report
    r.isComplete = true ∧ d'' ≠ linked := by
  refine ⟨by cbv, fun hrestored => ?_⟩
  have hplain := congrArg (fun d : Disk => (d.get? ["l"]).any Entry.isPlain) hrestored
  cbv at hplain
  cases hplain

end Skeleton.Execution
