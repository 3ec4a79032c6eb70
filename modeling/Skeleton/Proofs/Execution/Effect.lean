import Skeleton.Proofs.Disk.Lexical
import Skeleton.Proofs.Execution.Trace
import Skeleton.Proofs.Plan.Shape

-- What a run leaves on a disk of directories and files: what was planned, and everything else as it
-- was.

namespace Skeleton.Execution

open Disk

-- Whether an entry is what an operation makes at a target. A file that is written without a mode
-- keeps the one that it had.
def Makes (d : Disk) (target : Path) (e : Entry) : Operation → Prop
  | .makeDir _ => e.isDir = true
  | .writeFile _ content mode => ∃ m, e = .file m content.toUTF8 ∧
      (∀ n, mode = some n → m = Mode.ofNat n) ∧
      (mode = none → ∀ l old bytes, d.lookup target = .ok (l, .file old bytes) → m = old)

-- It matters only what stands at the target before.
theorem Makes.of_lookup {d d' : Disk} {target : Path} {e : Entry} {operation : Operation}
    (h : Makes d' target e operation)
    (hsame : ∀ l old, d.lookup target = .ok (l, old) → d'.lookup target = .ok (l, old)) :
    Makes d target e operation := by
  cases operation with
  | makeDir => exact h
  | writeFile path content mode =>
    obtain ⟨m, hfile, hgiven, hold⟩ := h
    refine ⟨m, hfile, hgiven, fun hmode l old bytes hlookup => ?_⟩
    exact hold hmode l old bytes (hsame _ _ hlookup)

section Step

variable {p : Policy} {d d' base : Disk} {target : Path} {operation : Operation} {change : Change}
  {l k : Location} {m : Mode} {e : Entry}

theorem Applies.linkFree (h : Applies p d target operation change d') (hd : d.LinkFree) :
    d'.LinkFree := fun l link hget => hd l link (h.old hget rfl)

theorem Prepares.location_eq (h : Prepares p d target change base l m) (hd : d.LinkFree) :
    l = d.place target := by
  cases h with
  | created hfind => exact find_location hd hfind
  | copied _ _ hfind => exact find_location hd hfind
  | overwritten _ _ hfind => exact find_location hd hfind
  | throughLink _ _ hfind => exact find_location hd hfind

-- An operation changes what is at its target and at its copy, and nothing else.
theorem Applies.get?_eq (h : Applies p d target operation change d') (hd : d.LinkFree)
    (htarget : k ≠ d.place target)
    (hbackup : ∀ backup, change = .replacedFile (some backup) → k ≠ d.place backup) :
    d'.get? k = d.get? k := by
  cases h with
  | createdDir hfind =>
    rw [← find_location hd hfind] at htarget
    exact get?_put_of_ne d _ htarget
  | existingDir => rfl
  | wrote h =>
    rw [← h.location_eq hd] at htarget
    rw [get?_put_of_ne _ _ htarget]
    cases h with
    | copied _ _ _ _ hfind =>
      have hcopy := hbackup _ rfl
      rw [← find_location hd hfind] at hcopy
      exact get?_put_of_ne d _ hcopy
    | _ => rfl

-- What was there before stays, unless it is at the target.
theorem Applies.get?_of_present (h : Applies p d target operation change d') (hd : d.LinkFree)
    (hentry : d.get? k = some e) (htarget : k ≠ d.place target) : d'.get? k = some e := by
  rw [← hentry]
  refine h.get?_eq hd htarget fun backup hbackup => ?_
  subst hbackup
  cases h with
  | wrote h =>
    cases h with
    | copied _ _ _ _ hfind hnone =>
      rw [← find_location hd hfind]
      rintro rfl
      simp [(find_spot hfind).1, hentry] at hnone

theorem Applies.makes (h : Applies p d target operation change d') (hd : d.LinkFree) :
    ∃ e, d'.lookup target = .ok (d.place target, e) ∧ Makes d target e operation := by
  cases h with
  | @createdDir _ s hfind hnone =>
    have hmade := find_put hfind hnone (e := .newDir) (by simp [Entry.newDir]) (.inl rfl)
    have hfollowed := find_followed hmade (by simp [Entry.newDir])
    have hlocation := find_location hd hfind
    exact ⟨.newDir, lookup_eq_ok_iff.mpr ⟨_, hfollowed, hlocation, rfl⟩, rfl⟩
  | @existingDir _ s m hfind hfound =>
    exact ⟨.dir m, lookup_eq_ok_iff.mpr ⟨s, hfind, find_location hd hfind, hfound⟩, rfl⟩
  | @wrote _ content mode _ _ l m h =>
    have hfile := h.find (modeOf mode m) content.toUTF8
    refine ⟨_, lookup_eq_ok_iff.mpr ⟨_, hfile, h.location_eq hd, rfl⟩, _, rfl, ?_, ?_⟩
    · rintro n rfl
      rfl
    · rintro rfl l' old bytes hlookup
      exact h.mode_eq hlookup

theorem Applies.lookup_backup {backup : Path}
    (h : Applies p d target operation (.replacedFile (some backup)) d') (hd : d.LinkFree) :
    ∃ e, d'.lookup backup = .ok (d.place backup, e) := by
  obtain ⟨l, k, m, old, hreplaced⟩ := h.exists_replaced
  have hplace := find_location (h.linkFree hd) hreplaced.copy
  rw [place_congr h.grows.cwd] at hplace
  have hfollowed := find_followed hreplaced.copy (by simp)
  exact ⟨_, lookup_eq_ok_iff.mpr ⟨_, hfollowed, hplace, rfl⟩⟩

end Step

section Run

variable {p : Policy} {root : Path} {d d' : Disk} {outcomes : List Outcome} {k : Location}
  {e : Entry} {o : Outcome}

-- A run changes what is at its targets and at its copies, and nothing else.
theorem Trace.get?_eq (h : Trace p root d outcomes d') (hd : d.LinkFree)
    (htarget : ∀ o ∈ outcomes, o.status.isApplied = true → k ≠ d.place o.target)
    (hbackup : ∀ o ∈ outcomes, ∀ backup, o.status = .applied (.replacedFile (some backup)) →
      k ≠ d.place backup) : d'.get? k = d.get? k := by
  induction h with
  | halted => rfl
  | @applied d d₁ d₂ operation change outcomes hstep hrest ih =>
    have hplace := place_congr hstep.grows.cwd
    have hfirst : d₁.get? k = d.get? k := by
      refine hstep.get?_eq hd (htarget _ List.mem_cons_self rfl) fun backup hchange => ?_
      exact hbackup _ List.mem_cons_self backup (by rw [hchange]; rfl)
    have hlater : d₂.get? k = d₁.get? k := by
      refine ih (hstep.linkFree hd) (fun o ho happlied => ?_) fun o ho backup hstatus => ?_
      · rw [hplace]
        exact htarget o (List.mem_cons_of_mem _ ho) happlied
      · rw [hplace]
        exact hbackup o (List.mem_cons_of_mem _ ho) backup hstatus
    exact hlater.trans hfirst

theorem Trace.get?_of_present (h : Trace p root d outcomes d') (hd : d.LinkFree)
    (hentry : d.get? k = some e)
    (htarget : ∀ o ∈ outcomes, o.status.isApplied = true → k ≠ d.place o.target) :
    d'.get? k = some e := by
  induction h with
  | halted => exact hentry
  | @applied d d₁ d₂ operation change outcomes hstep hrest ih =>
    have hplace := place_congr hstep.grows.cwd
    have hfirst := hstep.get?_of_present hd hentry (htarget _ List.mem_cons_self rfl)
    refine ih (hstep.linkFree hd) hfirst fun o ho happlied => ?_
    rw [hplace]
    exact htarget o (List.mem_cons_of_mem _ ho) happlied

-- Where no two targets are the same, each one holds what was to be made there. The operations
-- before it leave its mode alone, and those after it leave all of it alone.
theorem Trace.makes (h : Trace p root d outcomes d') (hd : d.LinkFree)
    (hdistinct : (outcomes.map fun o => d.place o.target).Nodup) (ho : o ∈ outcomes)
    (happlied : o.status.isApplied = true) :
    ∃ l e, d'.lookup o.target = .ok (l, e) ∧ Makes d o.target e o.operation := by
  induction h with
  | halted h => simp [h o ho] at happlied
  | @applied d d₁ d₂ operation change outcomes hstep hrest ih =>
    have hplace := place_congr hstep.grows.cwd
    obtain ⟨hnew, hlater⟩ := List.nodup_cons.mp hdistinct
    rcases List.mem_cons.mp ho with rfl | ho
    · obtain ⟨e, hlookup, hmakes⟩ := hstep.makes hd
      have hkept : d₂.get? (d.place (root.join operation.path)) = some e := by
        refine hrest.get?_of_present (hstep.linkFree hd) (get?_of_lookup hlookup) fun o' ho' _ => ?_
        rw [hplace]
        exact fun heq => hnew (List.mem_map.mpr ⟨o', ho', heq.symm⟩)
      exact ⟨_, e, lookup_of_kept hlookup hrest.grows hkept, hmakes⟩
    · obtain ⟨l, e, hlookup, hmakes⟩ := ih (hstep.linkFree hd) (by simpa only [hplace]) ho
      refine ⟨l, e, hlookup, hmakes.of_lookup fun k old hold => ?_⟩
      have hother : k ≠ d.place (root.join operation.path) := by
        rw [lookup_location hd hold]
        exact fun heq => hnew (List.mem_map.mpr ⟨o, ho, heq⟩)
      exact lookup_of_kept hold hstep.grows (hstep.get?_of_present hd (get?_of_lookup hold) hother)

-- The disks on the way of a run are without links too.
theorem linkFree_of_grows {d₁ : Disk} (hd : d'.LinkFree) (hgrow : d₁.Grows d') : d₁.LinkFree :=
  fun l link hl => hd l link (hgrow.link hl)

theorem Trace.linkFree (h : Trace p root d outcomes d') (hd : d.LinkFree) : d'.LinkFree :=
  fun l link hl => hd l link (h.old hl rfl)

theorem Trace.deviceFree (h : Trace p root d outcomes d') (hd : d.DeviceFree) : d'.DeviceFree :=
  fun l m isFull hl => hd l m isFull (h.old hl rfl)

theorem Trace.lookup_target (h : Trace p root d outcomes d') (hd : d.LinkFree) (ho : o ∈ outcomes)
    (happlied : o.status.isApplied = true) :
    ∃ e, d'.lookup o.target = .ok (d.place o.target, e) := by
  cases hstatus : o.status with
  | pending => simp [hstatus, Status.isApplied] at happlied
  | failed failure => simp [hstatus, Status.isApplied] at happlied
  | applied change =>
    obtain ⟨d₁, d₂, hbefore, happlies, hafter⟩ := h.applies_of_mem ho hstatus
    have hd₁ := linkFree_of_grows (h.linkFree hd) (happlies.grows.trans hafter)
    obtain ⟨e, hlookup, -⟩ := happlies.makes hd₁
    obtain ⟨e', -, hlookup'⟩ := lookup_of_grows hlookup hafter
    rw [place_congr hbefore.cwd] at hlookup'
    exact ⟨e', hlookup'⟩

theorem Trace.lookup_backup (h : Trace p root d outcomes d') (hd : d.LinkFree) (ho : o ∈ outcomes)
    {backup : Path} (hstatus : o.status = .applied (.replacedFile (some backup))) :
    ∃ e, d'.lookup backup = .ok (d.place backup, e) := by
  obtain ⟨d₁, d₂, hbefore, happlies, hafter⟩ := h.applies_of_mem ho hstatus
  have hd₁ := linkFree_of_grows (h.linkFree hd) (happlies.grows.trans hafter)
  obtain ⟨e, hlookup⟩ := happlies.lookup_backup hd₁
  obtain ⟨e', -, hlookup'⟩ := lookup_of_grows hlookup hafter
  rw [place_congr hbefore.cwd] at hlookup'
  exact ⟨e', hlookup'⟩

end Run

-- The operations of a plan lead to different places.
theorem nodup_places {base : Path} {operations : List Operation}
    (h : Plan.Grown base operations) (root : Path) (d : Disk) :
    (operations.map fun o => d.place (root.join o.path)).Nodup := by
  obtain ⟨l, hplace⟩ := exists_place_descend d root base
  refine (List.Nodup.of_map _ h.nodup).map_on fun o ho o' ho' heq => ?_
  obtain ⟨names, hne, hnames, hpath⟩ := h.descends ho
  obtain ⟨names', hne', hnames', hpath'⟩ := h.descends ho'
  have hfirst := hplace names hne (isPlain_of_isSegment hnames)
  have hsecond := hplace names' hne' (isPlain_of_isSegment hnames')
  simp only [hpath, hpath', hfirst, hsecond] at heq
  apply List.inj_on_of_nodup_map h.nodup ho ho'
  rw [hpath, hpath', List.append_cancel_left heq]

theorem nodup_targets (p : Policy) (cancelled : Bool) (root : Path) {base : Path}
    {outline : Outline} {context : Context} {plan : Plan}
    (hplan : Plan.build base outline context = .ok plan) (d : Disk) :
    ((run p cancelled root plan d).2.outcomes.map fun o => d.place o.target).Nodup := by
  have hdistinct := nodup_places (Plan.grown_of_build hplan) root d
  have hplaces := congrArg (List.map fun x : Operation × Path => d.place x.2)
    (targets_run p cancelled root plan d)
  simp only [List.map_map, Function.comp_def] at hplaces
  rwa [← hplaces] at hdistinct

-- A run that succeeds leaves at every target what the plan makes there. However a run ends, it
-- changes only the targets of what was carried out and the copies of what was replaced.
theorem run_effect (p : Policy) (cancelled : Bool) (root : Path) {base : Path} {outline : Outline}
    {context : Context} {plan : Plan} (hplan : Plan.build base outline context = .ok plan)
    {d : Disk} (hd : d.Plain) :
    let (d', report) := run p cancelled root plan d
    (report.isSuccess = true → ∀ o ∈ plan.operations, ∃ l e,
      d'.lookup (root.join o.path) = .ok (l, e) ∧ Makes d (root.join o.path) e o) ∧
    ∀ l, (∀ o ∈ report.applied, ∀ e, d'.lookup o.target ≠ .ok (l, e)) →
      (∀ o ∈ report.applied, ∀ backup, o.status = .applied (.replacedFile (some backup)) →
        ∀ e, d'.lookup backup ≠ .ok (l, e)) →
      d'.get? l = d.get? l := by
  have htrace := trace_run p root hd.deviceFree cancelled plan
  have htargets := targets_run p cancelled root plan d
  refine ⟨fun hsuccess o ho => ?_, fun l htarget hbackup => ?_⟩
  · have hdistinct := nodup_targets p cancelled root hplan d
    have hmem : (o, root.join o.path) ∈ plan.operations.map fun o => (o, root.join o.path) :=
      List.mem_map.mpr ⟨o, ho, rfl⟩
    rw [← htargets] at hmem
    obtain ⟨result, hresult, hpair⟩ := List.mem_map.mp hmem
    obtain ⟨rfl, htarget⟩ := Prod.mk.inj hpair
    rw [← htarget]
    have happlied := List.all_eq_true.mp hsuccess result hresult
    exact htrace.makes hd.linkFree hdistinct hresult happlied
  · refine htrace.get?_eq hd.linkFree (fun o ho happlied => ?_) fun o ho backup hstatus => ?_
    · rintro rfl
      obtain ⟨e, hlookup⟩ := htrace.lookup_target hd.linkFree ho happlied
      exact htarget o (List.mem_filter.mpr ⟨ho, happlied⟩) e hlookup
    · rintro rfl
      obtain ⟨e, hlookup⟩ := htrace.lookup_backup hd.linkFree ho hstatus
      have happlied : o.status.isApplied = true := by rw [hstatus]; rfl
      exact hbackup o (List.mem_filter.mpr ⟨ho, happlied⟩) backup hstatus e hlookup

def shelf : Disk :=
  ((blank.put ["out"] .newDir).put ["out", "lyra"] .newDir).put ["out", "lyra", "lyra.md"]
    (.file 0o600 "old".toUTF8)

theorem plain_shelf : shelf.Plain := ((plain_blank.put rfl).put rfl).put rfl

theorem run_effect_shelf :
    let (d', report) := run ⟨true, true⟩ false .root ⟨Plan.crateOperations⟩ shelf
    report.isSuccess = true ∧
    (∀ o ∈ Plan.crateOperations, ∃ l e,
      d'.lookup (Path.root.join o.path) = .ok (l, e) ∧ Makes shelf (Path.root.join o.path) e o) ∧
    ∀ l, (∀ o ∈ report.applied, ∀ e, d'.lookup o.target ≠ .ok (l, e)) →
      (∀ o ∈ report.applied, ∀ backup, o.status = .applied (.replacedFile (some backup)) →
        ∀ e, d'.lookup backup ≠ .ok (l, e)) →
      d'.get? l = shelf.get? l := by
  have hsuccess :
      (run ⟨true, true⟩ false .root ⟨Plan.crateOperations⟩ shelf).2.isSuccess = true := by cbv
  obtain ⟨hmade, hkept⟩ := run_effect ⟨true, true⟩ false .root Plan.build_crate plain_shelf
  exact ⟨hsuccess, hmade hsuccess, hkept⟩

end Skeleton.Execution
