import Skeleton.Proofs.Execution.Effect

-- Where to find after a run what the files held that it replaced. Every file is where it was or in
-- a copy. The copy that was made of a file holds it unless the plan writes over the copy.

namespace Skeleton

def Report.copies (r : Report) : List (Path × Path) :=
  r.outcomes.filterMap fun o =>
    match o.status with
    | .applied (.replacedFile (some copy)) => some (o.target, copy)
    | _ => none

theorem Report.mem_copies {r : Report} {target copy : Path} : (target, copy) ∈ r.copies ↔
    ∃ o ∈ r.outcomes, o.target = target ∧ o.status = .applied (.replacedFile (some copy)) := by
  simp only [copies, List.mem_filterMap]
  refine exists_congr fun o => and_congr_right fun _ => ?_
  split <;> simp_all

namespace Disk

def meets (d : Disk) (p q : Path) : Bool :=
  match d.lookup p, d.lookup q with
  | .ok (l, _), .ok (k, _) => l = k
  | _, _ => false

def Holds (d : Disk) (p : Path) (m : Mode) (content : ByteArray) : Prop :=
  ∃ l, d.lookup p = .ok (l, .file m content)

variable {d : Disk} {p q : Path} {l : Location} {e e' : Entry}

theorem meets_of_lookup (h : d.lookup p = .ok (l, e)) (h' : d.lookup q = .ok (l, e')) :
    d.meets p q = true := by
  simp [meets, h, h']

theorem place_ne {d' : Disk} (h : d'.lookup p = .ok (d.place p, e))
    (h' : d'.lookup q = .ok (d.place q, e')) (hmeets : d'.meets p q = false) :
    d.place p ≠ d.place q := by
  intro heq
  rw [meets_of_lookup h (heq ▸ h')] at hmeets
  cases hmeets

theorem holds_of_lookup {m : Mode} {content : ByteArray} (h : d.lookup p = .ok (l, e))
    (hl : d.get? l = some (.file m content)) : d.Holds p m content := by
  obtain rfl := Option.some.inj ((get?_of_lookup h).symm.trans hl)
  exact ⟨l, h⟩

end Disk

namespace Execution

open Disk

section Step

variable {p : Policy} {d d' : Disk} {target copy : Path} {operation : Operation} {change : Change}
  {k : Location} {m : Mode} {content : ByteArray}

theorem Applies.exists_copy (h : Applies p d target operation (.replacedFile (some copy)) d')
    (hd : d.LinkFree) : ∃ m content, d.get? (d.place target) = some (.file m content) ∧
      d'.get? (d.place copy) = some (.file m content) := by
  obtain ⟨l, i, m, old, hreplaced⟩ := h.exists_replaced
  have hd' := h.linkFree hd
  have hcwd := h.grows.cwd
  obtain ⟨m', new, hfile⟩ := hreplaced.target
  obtain rfl : l = d.place target := (find_location hd' hfile).trans (place_congr hcwd target)
  obtain rfl : i = d.place copy := (find_location hd' hreplaced.copy).trans (place_congr hcwd copy)
  exact ⟨m, old, hreplaced.was, (find_spot hreplaced.copy).1.symm⟩

-- With backups an operation leaves a file as it is or moves what it holds into a copy.
theorem Applies.kept_or_copied (h : Applies p d target operation change d') (hd : d.LinkFree)
    (hp : p.backups = true) (hfile : d.get? k = some (.file m content)) :
    d'.get? k = some (.file m content) ∨ ∃ copy, change = .replacedFile (some copy) ∧
      d'.get? (d.place copy) = some (.file m content) := by
  by_cases hk : k = d.place target
  · subst hk
    have hcopied : ∀ copy, change = .replacedFile (some copy) →
        d'.get? (d.place copy) = some (.file m content) := by
      rintro copy rfl
      obtain ⟨m', old, hwas, hcopy⟩ := h.exists_copy hd
      rw [hcopy, ← hwas, hfile]
    cases h with
    | createdDir hfind hnone =>
      exact .inl ((extends_put ((find_spot hfind).1.symm.trans hnone) _).keeps hfile)
    | existingDir => exact .inl hfile
    | wrote h =>
      cases h with
      | created hfind hnone =>
        exact .inl ((extends_put ((find_spot hfind).1.symm.trans hnone) _).keeps hfile)
      | copied => exact .inr ⟨_, rfl, hcopied _ rfl⟩
      | overwritten _ hbackups | throughLink _ hbackups => simp [hp] at hbackups
  · exact .inl (h.get?_of_present hd hfile hk)

end Step

section Run

variable {p : Policy} {root : Path} {d d' : Disk} {outcomes : List Outcome} {k : Location}
  {o : Outcome} {m : Mode} {content : ByteArray}

theorem Trace.kept_or_copied (h : Trace p root d outcomes d') (hd : d.LinkFree)
    (hp : p.backups = true) (hfile : d.get? k = some (.file m content)) :
    d'.get? k = some (.file m content) ∨
      ∃ o ∈ outcomes, ∃ copy, o.status = .applied (.replacedFile (some copy)) ∧
        d'.get? (d.place copy) = some (.file m content) := by
  induction h generalizing k with
  | halted => exact .inl hfile
  | @applied d d₁ d₂ operation change outcomes hstep hrest ih =>
    have hplace := place_congr hstep.grows.cwd
    have hd₁ := hstep.linkFree hd
    -- what a copy holds can be moved on into another copy
    have later : ∀ i, d₁.get? i = some (.file m content) →
        d₂.get? i = some (.file m content) ∨
          ∃ o ∈ outcome root operation (.applied change) :: outcomes, ∃ copy,
            o.status = .applied (.replacedFile (some copy)) ∧
              d₂.get? (d.place copy) = some (.file m content) := by
      intro i hi
      rcases ih hd₁ hi with hkept | ⟨o, ho, copy, hstatus, hcopy⟩
      · exact .inl hkept
      · exact .inr ⟨o, List.mem_cons_of_mem _ ho, copy, hstatus, by rwa [hplace] at hcopy⟩
    rcases hstep.kept_or_copied hd hp hfile with hkept | ⟨copy, rfl, hcopy⟩
    · exact later k hkept
    · rcases later _ hcopy with hkept | hcopied
      · exact .inr ⟨_, List.mem_cons_self, copy, rfl, hkept⟩
      · exact .inr hcopied

-- Where no two targets are the same, a copy that no operation writes over holds what its target
-- held before the run, unless the target was itself a copy.
theorem Trace.copy_holds {copy : Path} (h : Trace p root d outcomes d') (hd : d.LinkFree)
    (hdistinct : (outcomes.map fun o => d.place o.target).Nodup) (ho : o ∈ outcomes)
    (hstatus : o.status = .applied (.replacedFile (some copy)))
    (hcopy : ∀ o' ∈ outcomes, o'.status.isApplied = true → d.place copy ≠ d.place o'.target)
    (htarget : ∀ o' ∈ outcomes, ∀ copy', o'.status = .applied (.replacedFile (some copy')) →
      d.place o.target ≠ d.place copy') :
    ∃ m content, d.get? (d.place o.target) = some (.file m content) ∧
      d'.get? (d.place copy) = some (.file m content) := by
  induction h with
  | halted h =>
    have happlied := h o ho
    rw [hstatus] at happlied
    cases happlied
  | @applied d d₁ d₂ operation change outcomes hstep hrest ih =>
    have hplace := place_congr hstep.grows.cwd
    have hd₁ := hstep.linkFree hd
    obtain ⟨hnew, hlater⟩ := List.nodup_cons.mp hdistinct
    rcases List.mem_cons.mp ho with rfl | ho
    · obtain rfl := Status.applied.inj hstatus
      obtain ⟨m, content, hwas, hcopied⟩ := hstep.exists_copy hd
      refine ⟨m, content, hwas, hrest.get?_of_present hd₁ hcopied fun o' ho' happlied => ?_⟩
      rw [hplace]
      exact hcopy o' (List.mem_cons_of_mem _ ho') happlied
    · obtain ⟨m, content, hwas, hcopied⟩ := ih hd₁ (by simpa only [hplace]) ho
        (fun o' ho' => by simpa only [hplace] using hcopy o' (List.mem_cons_of_mem _ ho'))
        (fun o' ho' => by simpa only [hplace] using htarget o' (List.mem_cons_of_mem _ ho'))
      simp only [hplace] at hwas hcopied
      refine ⟨m, content, ?_, hcopied⟩
      rw [← hwas]
      refine (hstep.get?_eq hd ?_ fun copy' hchange => ?_).symm
      · exact fun heq => hnew (List.mem_map.mpr ⟨o, ho, heq⟩)
      · exact htarget _ List.mem_cons_self copy' (by rw [hchange]; rfl)

theorem Trace.lookup_copy {copy : Path} (h : Trace p root d outcomes d') (ho : o ∈ outcomes)
    (hstatus : o.status = .applied (.replacedFile (some copy))) :
    ∃ l m content, d'.lookup copy = .ok (l, .file m content) := by
  obtain ⟨d₁, d₂, -, happlies, hafter⟩ := h.applies_of_mem ho hstatus
  obtain ⟨l, k, m, old, hreplaced⟩ := happlies.exists_replaced
  have hfollowed := find_followed hreplaced.copy (by simp)
  obtain ⟨e, hw, hlookup⟩ := lookup_of_grows (lookup_eq_ok_iff.mpr ⟨_, hfollowed, rfl, rfl⟩) hafter
  cases hw with
  | same | file => exact ⟨k, _, _, hlookup⟩

end Run

-- A run with backups leaves every file as it is or what it held in a copy. The copy of a target
-- holds what the target held before the run, unless an operation writes over the copy or the target
-- is itself a copy.
theorem copies_hold_originals (cancelled : Bool) (root : Path) {base : Path} {outline : Outline}
    {context : Context} {plan : Plan} (hplan : Plan.build base outline context = .ok plan)
    {d : Disk} (hd : d.Plain) :
    let (d', report) := run ⟨true, true⟩ cancelled root plan d
    (∀ target copy, (target, copy) ∈ report.copies →
      (∃ m content, d'.Holds copy m content) ∧
      ((∀ o ∈ report.applied, d'.meets copy o.target = false) →
        (∀ other ∈ report.copies, d'.meets target other.2 = false) →
        ∃ l e m content, d'.lookup target = .ok (l, e) ∧ d.get? l = some (.file m content) ∧
          d'.Holds copy m content)) ∧
    ∀ l m content, d.get? l = some (.file m content) →
      d'.get? l = some (.file m content) ∨
        ∃ other ∈ report.copies, d'.Holds other.2 m content := by
  have htrace := trace_run ⟨true, true⟩ root hd.deviceFree cancelled plan
  refine ⟨fun target copy hcopy => ?_, fun l m content hfile => ?_⟩
  · obtain ⟨o, ho, rfl, hstatus⟩ := Report.mem_copies.mp hcopy
    obtain ⟨l, m, content, hfile⟩ := htrace.lookup_copy ho hstatus
    refine ⟨⟨m, content, l, hfile⟩, fun hwritten hcopied => ?_⟩
    have happlied : o.status.isApplied = true := by rw [hstatus]; rfl
    obtain ⟨e, htarget⟩ := htrace.lookup_target hd.linkFree ho happlied
    obtain ⟨e', hlookup⟩ := htrace.lookup_backup hd.linkFree ho hstatus
    obtain ⟨m, content, hwas, hholds⟩ := htrace.copy_holds hd.linkFree
      (nodup_targets ⟨true, true⟩ cancelled root hplan d) ho hstatus
      (fun o' ho' happlied' => by
        obtain ⟨e₁, htarget'⟩ := htrace.lookup_target hd.linkFree ho' happlied'
        exact place_ne hlookup htarget' (hwritten o' (List.mem_filter.mpr ⟨ho', happlied'⟩)))
      (fun o' ho' copy' hstatus' => by
        obtain ⟨e₁, hlookup'⟩ := htrace.lookup_backup hd.linkFree ho' hstatus'
        exact place_ne htarget hlookup'
          (hcopied (o'.target, copy') (Report.mem_copies.mpr ⟨o', ho', rfl, hstatus'⟩)))
    exact ⟨_, e, m, content, htarget, hwas, holds_of_lookup hlookup hholds⟩
  · rcases htrace.kept_or_copied hd.linkFree rfl hfile with hkept | ⟨o, ho, copy, hstatus, hcopy⟩
    · exact .inl hkept
    · obtain ⟨e, hlookup⟩ := htrace.lookup_backup hd.linkFree ho hstatus
      refine .inr ⟨(o.target, copy), Report.mem_copies.mpr ⟨o, ho, rfl, hstatus⟩, ?_⟩
      exact holds_of_lookup hlookup hcopy

-- A disk with a file, and two plans that replace it. They also make a file with the name of its copy,
-- one before and one after.
def attic : Disk := (blank.put ["d"] .newDir).put ["d", "a"] (.file 0o600 "old".toUTF8)

theorem plain_attic : attic.Plain := (plain_blank.put rfl).put rfl

def twins : Outline where
  root := .directory "d" none
    [.file "a.bak" none .literal "more" none, .file "a" none .literal "new" none]
  schema := .empty
  checked := by rfl

def twinsOperations : List Operation :=
  [.makeDir ⟨["d"]⟩, .writeFile ⟨["d", "a.bak"]⟩ "more" none, .writeFile ⟨["d", "a"]⟩ "new" none]

def overAttic : Disk × Report := run ⟨true, true⟩ false .root ⟨twinsOperations⟩ attic

-- Another name is found for the copy, and nothing meets it.
theorem copies_hold_originals_twins :
    let target : Path := ⟨["", "d", "a"]⟩
    let copy : Path := ⟨["", "d", "a.bak.1"]⟩
    (target, copy) ∈ overAttic.2.copies ∧
      (∀ o ∈ overAttic.2.applied, overAttic.1.meets copy o.target = false) ∧
      (∀ other ∈ overAttic.2.copies, overAttic.1.meets target other.2 = false) ∧
      ∃ l e m content, overAttic.1.lookup target = .ok (l, e) ∧
        attic.get? l = some (.file m content) ∧ overAttic.1.Holds copy m content := by
  intro target copy
  have hcopies : overAttic.2.copies = [(target, copy)] := by cbv
  have hmem : (target, copy) ∈ overAttic.2.copies := by
    rw [hcopies]
    exact List.mem_cons_self
  have hwritten : (overAttic.2.applied.all fun o => !overAttic.1.meets copy o.target) = true := by
    cbv
  have hcopied : (overAttic.2.copies.all fun other => !overAttic.1.meets target other.2) = true := by
    cbv
  simp only [List.all_eq_true, Bool.not_eq_true'] at hwritten hcopied
  have hplan : Plan.build .empty twins ⟨[]⟩ = .ok ⟨twinsOperations⟩ := by cbv
  obtain ⟨hholds, -⟩ := copies_hold_originals false .root hplan plain_attic
  exact ⟨hmem, hwritten, hcopied, (hholds target copy hmem).2 hwritten hcopied⟩

def twinsTurned : Outline where
  root := .directory "d" none
    [.file "a" none .literal "new" none, .file "a.bak" none .literal "more" none]
  schema := .empty
  checked := by rfl

def turnedOperations : List Operation :=
  [.makeDir ⟨["d"]⟩, .writeFile ⟨["d", "a"]⟩ "new" none, .writeFile ⟨["d", "a.bak"]⟩ "more" none]

def overTurned : Disk × Report := run ⟨true, true⟩ false .root ⟨turnedOperations⟩ attic

-- The plan writes over the copy that it caused.
theorem copy_written_over :
    let target : Path := ⟨["", "d", "a"]⟩
    let copy : Path := ⟨["", "d", "a.bak"]⟩
    attic.Plain ∧ Plan.build .empty twinsTurned ⟨[]⟩ = .ok ⟨turnedOperations⟩ ∧
      (target, copy) ∈ overTurned.2.copies ∧ attic.Holds target 0o600 "old".toUTF8 ∧
      ¬overTurned.1.Holds copy 0o600 "old".toUTF8 := by
  intro target copy
  have hcopies : overTurned.2.copies = [(target, copy), (copy, ⟨["", "d", "a.bak.bak"]⟩)] := by cbv
  refine ⟨plain_attic, by cbv, ?_, ⟨["d", "a"], by cbv⟩, ?_⟩
  · rw [hcopies]
    exact List.mem_cons_self
  · rintro ⟨l, hold⟩
    have hnew : overTurned.1.lookup copy = .ok (["d", "a.bak"], .file 0o600 "more".toUTF8) := by cbv
    have hcontent := Except.ok.inj (hnew.symm.trans hold)
    simp only [Prod.mk.injEq, Entry.file.injEq] at hcontent
    exact absurd (congrArg ByteArray.size hcontent.2.2) (by decide)

end Execution

end Skeleton
