import Skeleton.Proofs.Execution.Effect
import Skeleton.Proofs.Execution.Rollback

-- Carrying out a plan a second time. A file holds what was last written to it, with the mode that
-- was last given, so that the second run puts what is there already.

namespace Skeleton

-- A file after some writes, each with a content and perhaps a mode. Other entries are not written.
def Entry.written (writes : List (ByteArray × Option Mode)) : Entry → Entry
  | file m content =>
    file ((writes.filterMap Prod.snd).getLast?.getD m) ((writes.map Prod.fst).getLast?.getD content)
  | e => e

namespace Entry

variable (e : Entry) (ws vs : List (ByteArray × Option Mode))

@[simp]
theorem written_nil : e.written [] = e := by
  cases e <;> rfl

theorem written_append : e.written (ws ++ vs) = (e.written ws).written vs := by
  cases e <;> simp [written, Option.getD_or]

-- What was last written is written again.
theorem written_written : (e.written ws).written ws = e.written ws := by
  cases e with
  | file m content =>
    simp only [written, ← Option.getD_or, Option.or_self]
  | _ => rfl

end Entry

namespace Execution

open Disk

def writeAt (d : Disk) (l : Location) (target : Path) : Operation → Option (ByteArray × Option Mode)
  | .makeDir _ => none
  | .writeFile _ content mode =>
    if d.place target = l then some (content.toUTF8, mode.map Mode.ofNat) else none

def writesAt (d : Disk) (root : Path) (l : Location) (operations : List Operation) :
    List (ByteArray × Option Mode) :=
  operations.filterMap fun o => writeAt d l (root.join o.path) o

def repeated : Operation → Change
  | .makeDir _ => .existingDir
  | .writeFile _ _ _ => .replacedFile none

def Fulfils (e : Entry) : Operation → Prop
  | .makeDir _ => e.isDir = true
  | .writeFile _ _ _ => ∃ m content, e = .file m content

section Step

variable {p : Policy} {d d' : Disk} {target : Path} {operation : Operation} {change : Change}
  {l : Location} {e e' : Entry}

theorem writeAt_of_ne (h : d.place target ≠ l) : writeAt d l target operation = none := by
  cases operation with
  | makeDir => rfl
  | writeFile => exact if_neg h

theorem Applies.writeAt_of_absent (h : Applies p d target operation change d') (hd : d.LinkFree)
    (habsent : d'.get? l = none) : writeAt d l target operation = none := by
  apply writeAt_of_ne
  rintro rfl
  obtain ⟨e, hlookup, -⟩ := h.makes hd
  simp [get?_of_lookup hlookup] at habsent

-- What is written over is a file of the mode that the new one gets without one of its own.
theorem Prepares.exists_old {base : Disk} {m : Mode} (h : Prepares p d target change base l m) :
    ∃ bytes, ∀ old, d.get? l = some old → old = .file m bytes := by
  cases h with
  | created hfind hnone =>
    refine ⟨.empty, fun old hold => ?_⟩
    simp [← (find_spot hfind).1, hnone] at hold
  | throughLink _ _ hfind hnone =>
    refine ⟨.empty, fun old hold => ?_⟩
    simp [← (find_spot hfind).1, hnone] at hold
  | @copied s m bytes _ _ _ _ hfind hfound =>
    refine ⟨bytes, fun old hold => ?_⟩
    exact Option.some.inj (hold.symm.trans ((find_spot hfind).1.symm.trans hfound))
  | @overwritten s m bytes _ _ hfind hfound =>
    refine ⟨bytes, fun old hold => ?_⟩
    exact Option.some.inj (hold.symm.trans ((find_spot hfind).1.symm.trans hfound))

theorem writeAt_place {path : Path} {content : String} {mode : Option Nat} (m : Mode)
    (bytes : ByteArray) (h : d.place target = l) :
    (Entry.file m bytes).written (writeAt d l target (.writeFile path content mode)).toList =
      .file (modeOf mode m) content.toUTF8 := by
  cases mode <;> simp [writeAt, h, Entry.written, modeOf]

-- What stands somewhere after an operation is what stood there before, with the write of the
-- operation. Where nothing stood it is as if something had.
theorem Applies.exists_written (h : Applies p d target operation change d') (hd : d.LinkFree)
    (hentry : d'.get? l = some e) :
    ∃ e₀, e₀.written (writeAt d l target operation).toList = e ∧
      ∀ old, d.get? l = some old → old = e₀ := by
  by_cases hl : d.place target = l
  · cases h with
    | createdDir hfind hnone =>
      refine ⟨e, by simp [writeAt], fun old hold => ?_⟩
      rw [← hl, ← find_location hd hfind, ← (find_spot hfind).1, hnone] at hold
      cases hold
    | existingDir =>
      exact ⟨e, by simp [writeAt], fun old hold => Option.some.inj (hold.symm.trans hentry)⟩
    | @wrote _ content mode _ _ k m h =>
      obtain rfl : k = l := (h.location_eq hd).trans hl
      rw [get?_put (h.canPut _), if_pos rfl] at hentry
      obtain rfl := Option.some.inj hentry
      obtain ⟨bytes, hold⟩ := h.exists_old
      exact ⟨.file m bytes, writeAt_place m bytes hl, hold⟩
  · rw [writeAt_of_ne hl]
    refine ⟨e, by simp, fun old hold => ?_⟩
    have hkept := h.get?_of_present hd hold (Ne.symm hl)
    exact Option.some.inj (hkept.symm.trans hentry)

theorem Fulfils.rewritten (h : Fulfils e operation) (hw : e.Rewritten e') :
    Fulfils e' operation := by
  cases operation with
  | makeDir => exact hw.isDir.trans h
  | writeFile =>
    obtain ⟨m, content, rfl⟩ := h
    cases hw <;> exact ⟨_, _, rfl⟩

theorem Makes.fulfils (h : Makes d target e operation) : Fulfils e operation := by
  cases operation with
  | makeDir => exact h
  | writeFile =>
    obtain ⟨m, rfl, -⟩ := h
    exact ⟨m, _, rfl⟩

theorem writeFile_of_file_there {m : Mode} {old : ByteArray} {s : Spot}
    (hfind : d.find true target = .ok s) (hfound : s.found = some (.file m old))
    (content : ByteArray) :
    writeFile store ⟨true, false⟩ d target content =
      (d.put s.location (.file m content), .ok (.replacedFile none)) := by
  have hlookup : d.lookup target = .ok (s.location, .file m old) :=
    lookup_eq_ok_iff.mpr ⟨s, hfind, rfl, hfound⟩
  have hwrite := writeFile_of_file hfind hfound content
  simp [writeFile, hlookup, replaceFile, prepareBackup, store, hwrite, attempt, Except.mapError,
    settle]

theorem apply_repeated (h : d.lookup target = .ok (l, e)) (he : Fulfils e operation) :
    ∃ d', apply ⟨true, false⟩ d target operation = (d', .ok (repeated operation)) := by
  cases operation with
  | makeDir path =>
    cases e with
    | dir m => exact ⟨d, by simp [apply, makeDir, makeDir_of_lookup h, h, repeated]⟩
    | _ => cases he
  | writeFile path content mode =>
    obtain ⟨m, old, rfl⟩ := he
    obtain ⟨s, hfind, -, hfound⟩ := lookup_eq_ok_iff.mp h
    have hwrite := writeFile_of_file_there hfind hfound content.toUTF8
    have hready : Prepares ⟨true, false⟩ d target (.replacedFile none) d s.location m :=
      .overwritten rfl rfl hfind hfound
    cases mode with
    | none =>
      simp only [apply, hwrite]
      exact ⟨_, rfl⟩
    | some n =>
      have hmode := hready.setMode content.toUTF8 n
      simp only [apply, hwrite, hmode, attempt, Except.mapError, settle]
      exact ⟨_, rfl⟩

end Step

section Run

variable {p : Policy} {root : Path} {d d' : Disk} {outcomes : List Outcome} {l : Location}
  {e : Entry} {operations : List Operation}

theorem writesAt_congr (hcwd : d'.cwd = d.cwd) (root : Path) (l : Location)
    (operations : List Operation) :
    writesAt d' root l operations = writesAt d root l operations := by
  unfold writesAt
  congr 1
  funext o
  cases o <;> simp [writeAt, place_congr hcwd]

-- By induction on the run. Up to the operation that makes an entry nothing is written to it.
theorem Trace.exists_written (h : Trace p root d outcomes d') (hd : d.LinkFree)
    (hall : ∀ o ∈ outcomes, o.status.isApplied = true) (hentry : d'.get? l = some e) :
    ∃ e₀, e₀.written (writesAt d root l (outcomes.map Outcome.operation)) = e ∧
      ∀ old, d.get? l = some old → old = e₀ := by
  induction h with
  | @halted d outcomes h =>
    have hnil : outcomes = [] := by
      refine List.eq_nil_iff_forall_not_mem.mpr fun o ho => ?_
      have happlied := hall o ho
      rw [h o ho] at happlied
      cases happlied
    subst hnil
    refine ⟨e, by simp [writesAt], fun old hold => ?_⟩
    exact Option.some.inj (hold.symm.trans hentry)
  | @applied d d₁ d₂ operation change outcomes hstep hrest ih =>
    have hlater := ih (hstep.linkFree hd) (fun o ho => hall o (List.mem_cons_of_mem _ ho)) hentry
    obtain ⟨e₁, he, hbefore⟩ := hlater
    rw [writesAt_congr hstep.grows.cwd] at he
    have hwrites : writesAt d root l
        ((outcome root operation (.applied change) :: outcomes).map Outcome.operation) =
        (writeAt d l (root.join operation.path) operation).toList ++
          writesAt d root l (outcomes.map Outcome.operation) := by
      simp only [writesAt, List.map_cons, outcome, List.filterMap_cons]
      cases writeAt d l (root.join operation.path) operation <;> rfl
    rw [hwrites]
    cases hd₁ : d₁.get? l with
    | some old =>
      obtain rfl := hbefore old hd₁
      obtain ⟨e₀, hold, hfirst⟩ := hstep.exists_written hd hd₁
      exact ⟨e₀, by rw [Entry.written_append, hold, he], hfirst⟩
    | none =>
      rw [hstep.writeAt_of_absent hd hd₁]
      refine ⟨e₁, he, fun old hold => ?_⟩
      obtain ⟨old', hkept, -⟩ := hstep.grows.keeps hold
      simp [hd₁] at hkept

theorem Trace.fulfils (h : Trace p root d outcomes d') (hd : d.LinkFree) {o : Outcome}
    (ho : o ∈ outcomes) (happlied : o.status.isApplied = true) :
    ∃ l e, d'.lookup o.target = .ok (l, e) ∧ Fulfils e o.operation := by
  cases hstatus : o.status with
  | pending => simp [hstatus] at happlied
  | failed failure => simp [hstatus] at happlied
  | applied change =>
    obtain ⟨d₁, d₂, hbefore, happlies, hafter⟩ := h.applies_of_mem ho hstatus
    have hd₁ := linkFree_of_grows (h.linkFree hd) (happlies.grows.trans hafter)
    obtain ⟨e, hlookup, hmakes⟩ := happlies.makes hd₁
    obtain ⟨e', hw, hlookup'⟩ := lookup_of_grows hlookup hafter
    exact ⟨_, e', hlookup', hmakes.fulfils.rewritten hw⟩

theorem outcomes_repeated (hd : d.DeviceFree)
    (h : ∀ o ∈ operations, ∃ l e, d.lookup (root.join o.path) = .ok (l, e) ∧ Fulfils e o) :
    (runAll ⟨true, false⟩ root d operations).2 =
      operations.map fun o => outcome root o (.applied (repeated o)) := by
  induction operations generalizing d with
  | nil => rfl
  | cons operation rest ih =>
    obtain ⟨l, e, hlookup, he⟩ := h operation List.mem_cons_self
    obtain ⟨d₁, happly⟩ := apply_repeated hlookup he
    have hsound := apply_sound ⟨true, false⟩ (root.join operation.path) hd operation
    rw [happly] at hsound
    have hgrows : d.Grows d₁ := Applies.grows hsound
    have hrest := @ih d₁ (Applies.deviceFree hsound hd) fun o ho => by
      obtain ⟨k, old, hold, hkind⟩ := h o (List.mem_cons_of_mem _ ho)
      obtain ⟨new, hw, hnew⟩ := lookup_of_grows hold hgrows
      exact ⟨k, new, hnew, hkind.rewritten hw⟩
    simp only [runAll, happly, List.map_cons, hrest]

-- Writing everything again makes no difference.
theorem Trace.written_eq (h : Trace p root d outcomes d') (hd : d.LinkFree)
    (hall : ∀ o ∈ outcomes, o.status.isApplied = true) (hentry : d'.get? l = some e) :
    e.written (writesAt d' root l (outcomes.map Outcome.operation)) = e := by
  obtain ⟨e₀, rfl, -⟩ := h.exists_written hd hall hentry
  rw [writesAt_congr h.grows.cwd, Entry.written_written]

-- A run that writes what is there, and has all of its targets there, leaves the disk as it is.
theorem Trace.eq_of_written_eq (h : Trace p root d outcomes d') (hd : d.LinkFree)
    (hall : ∀ o ∈ outcomes, o.status = .applied (repeated o.operation))
    (hthere : ∀ o ∈ outcomes, ∃ l e, d.lookup o.target = .ok (l, e))
    (hsame : ∀ l e, d.get? l = some e →
      e.written (writesAt d root l (outcomes.map Outcome.operation)) = e) : d' = d := by
  refine ext_get? h.grows.cwd fun l => ?_
  cases hl : d.get? l with
  | some e =>
    obtain ⟨e', hl', -⟩ := h.grows.keeps hl
    have happlied : ∀ o ∈ outcomes, o.status.isApplied = true := fun o ho => by
      rw [hall o ho]
      rfl
    obtain ⟨e₀, he', hold⟩ := h.exists_written hd happlied hl'
    rw [hl', ← he', ← hold e hl, hsame l e hl]
  | none =>
    rw [← hl]
    refine h.get?_eq hd (fun o ho _ => ?_) fun o ho backup hstatus => ?_
    · obtain ⟨k, e, hlookup⟩ := hthere o ho
      rintro rfl
      rw [← lookup_location hd hlookup, get?_of_lookup hlookup] at hl
      cases hl
    · rw [hall o ho] at hstatus
      cases hoperation : o.operation <;> simp [hoperation, repeated] at hstatus

theorem runAll_again (hd : d.Plain)
    (hall : ∀ o ∈ (runAll ⟨true, false⟩ root d operations).2, o.status.isApplied = true) :
    let d' := (runAll ⟨true, false⟩ root d operations).1
    runAll ⟨true, false⟩ root d' operations =
      (d', operations.map fun o => outcome root o (.applied (repeated o))) := by
  intro d'
  have htrace := trace_runAll ⟨true, false⟩ root hd.deviceFree operations
  have hlinks : d'.LinkFree := htrace.linkFree hd.linkFree
  have hdevices : d'.DeviceFree := htrace.deviceFree hd.deviceFree
  have hthere : ∀ o ∈ operations,
      ∃ l e, d'.lookup (root.join o.path) = .ok (l, e) ∧ Fulfils e o := by
    intro o ho
    obtain ⟨result, hresult, rfl, htarget⟩ := exists_outcome ⟨true, false⟩ root d ho
    rw [← htarget]
    exact htrace.fulfils hd.linkFree hresult (hall result hresult)
  have houtcomes := outcomes_repeated hdevices hthere
  have htrace' := trace_runAll ⟨true, false⟩ root hdevices operations
  have hsame : (runAll ⟨true, false⟩ root d' operations).1 = d' := by
    apply htrace'.eq_of_written_eq hlinks
    · intro o ho
      rw [houtcomes] at ho
      obtain ⟨operation, -, rfl⟩ := List.mem_map.mp ho
      rfl
    · intro o ho
      rw [houtcomes] at ho
      obtain ⟨operation, hoperation, rfl⟩ := List.mem_map.mp ho
      obtain ⟨l, e, hlookup, -⟩ := hthere operation hoperation
      exact ⟨l, e, hlookup⟩
    · intro l e hentry
      have hwritten := htrace.written_eq hd.linkFree hall hentry
      rw [operations_runAll] at hwritten ⊢
      exact hwritten
  exact Prod.ext hsame houtcomes

end Run

-- A plan that was carried out without backups is carried out again: every directory and every file
-- is there, and the disk stays as it is.
theorem run_again (root : Path) (plan : Plan) {d : Disk} (hd : d.Plain)
    (hsuccess : (run ⟨true, false⟩ false root plan d).2.isSuccess = true) :
    let (d', _) := run ⟨true, false⟩ false root plan d
    let (d'', again) := run ⟨true, false⟩ false root plan d'
    again.isSuccess = true ∧
      again.outcomes = plan.operations.map (fun o => outcome root o (.applied (repeated o))) ∧
      d'' = d' := by
  have hagain := runAll_again hd (List.all_eq_true.mp hsuccess)
  simp only [run, Bool.false_eq_true, if_false] at hagain ⊢
  rw [hagain]
  refine ⟨?_, rfl, rfl⟩
  simp [Report.isSuccess, outcome]

-- A plan that writes some files more than once, with and without a mode.
def redraft : Plan :=
  ⟨[.makeDir (.ofName "b"), .writeFile ⟨["b", "c"]⟩ "first" (some 0o444),
    .writeFile (.ofName "a") "new" none, .writeFile ⟨["b", "c"]⟩ "second" none,
    .makeDir (.ofName "b"), .writeFile (.ofName "a") "newer" (some 0o640)]⟩

theorem run_again_redraft :
    let (d', report) := run ⟨true, false⟩ false .root redraft noted
    let (d'', again) := run ⟨true, false⟩ false .root redraft d'
    report.isSuccess = true ∧ again.isSuccess = true ∧
      again.outcomes =
        redraft.operations.map (fun o => outcome .root o (.applied (repeated o))) ∧
      d'' = d' := by
  have hsuccess : (run ⟨true, false⟩ false .root redraft noted).2.isSuccess = true := by cbv
  exact ⟨hsuccess, run_again .root redraft plain_noted hsuccess⟩

end Execution

end Skeleton
