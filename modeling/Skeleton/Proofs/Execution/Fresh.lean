import Skeleton.Proofs.Execution.Additions
import Skeleton.Proofs.Plan.Shape

-- Runs of whole plans in an empty directory. Every operation finds the directory that it needs, and
-- nothing in its way.

namespace Skeleton

namespace Disk

variable {d : Disk} {root p q : Path} {names : List String} {name : String} {l : Location} {m : Mode}

-- Segments behind a path that can be looked up make one that can be, unless it is too long.
theorem pathFault?_of_segments (hroot : pathFault? root = none)
    (hparts : p.parts = root.stem ++ names) (hnames : ∀ n ∈ names, IsSegment n)
    (hne : names ≠ []) (hsize : p.text.utf8ByteSize < maxPath) : pathFault? p = none := by
  obtain ⟨hnul, -, -⟩ := pathFault?_eq_none_iff.mp hroot
  obtain ⟨blank, -, hstem⟩ := Path.exists_parts_stem root
  refine pathFault?_eq_none_iff.mpr ⟨fun hmem => ?_, fun hempty => ?_, hsize⟩
  · obtain ⟨part, hpart, hin⟩ := (Path.mem_text_iff (by decide)).mp hmem
    rw [hparts] at hpart
    rcases List.mem_append.mp hpart with hpart | hpart
    · have habove : part ∈ root.parts := by
        rw [hstem]
        exact List.mem_append_left _ hpart
      exact hnul ((Path.mem_text_iff (by decide)).mpr ⟨part, habove, hin⟩)
    · exact (hnames part hpart).noNul hin
  · obtain ⟨name, hmem⟩ := List.exists_mem_of_ne_nil _ hne
    have hname := hnames name hmem
    obtain ⟨c, hc⟩ : ∃ c, c ∈ name.toList := by
      refine List.exists_mem_of_ne_nil _ fun hnil => hname.notEmpty ?_
      simpa using hnil
    have hslash : c ≠ '/' := fun heq => hname.noSlash (heq ▸ hc)
    have hin : c ∈ p.text.toList := by
      refine (Path.mem_text_iff hslash).mpr ⟨name, ?_, hc⟩
      rw [hparts]
      exact List.mem_append_right _ hmem
    simp [hempty] at hin

-- Where a path that is put behind a directory's leads, if what is above its last name is there.
theorem find_join (hroot : d.lookup root = .ok (l, .dir m)) (hq : q.parts = names ++ [name])
    (hsegments : ∀ n ∈ q.parts, IsSegment n) (hsizes : ∀ n ∈ q.parts, n.utf8ByteSize ≤ maxName)
    (hsize : (root.join q).text.utf8ByteSize < maxPath) (hdir : d.IsDirAt (l ++ names))
    (hfree : d.get? (l ++ q.parts) = none) (follow : Bool) :
    d.find follow (root.join q) = .ok ⟨l ++ q.parts, none, false⟩ := by
  obtain ⟨s, hfind, rfl, hfound⟩ := lookup_eq_ok_iff.mp hroot
  obtain ⟨hfault, hstart, hleads⟩ := find_eq_ok_iff.mp hfind
  obtain ⟨blank, hblank, hstem⟩ := Path.exists_parts_stem root
  rw [hstem] at hleads
  have hne : q.parts ≠ [] := by simp [hq]
  have hplain := isPlain_of_isSegment hsegments
  have hparts := Path.parts_join_of_plain root hplain hne
  have hsame : d.start (root.join q) = d.start root := by
    have habsolute := Path.isAbsolute_of_plain hparts hplain hne
    simp only [start, habsolute, ← Path.isAbsolute_eq_stem]
  have hnames : ∀ n ∈ q.parts, IsName n := fun n hn =>
    ⟨(hplain n hn).notIdle, (hplain n hn).notUp, hsizes n hn⟩
  refine find_eq_ok_iff.mpr ⟨?_, hsame ▸ hstart, ?_⟩
  · exact pathFault?_of_segments hfault hparts hsegments hne hsize
  · rw [hsame, hparts]
    refine hleads.descend hblank hfound hne fun links => ?_
    rw [hq, ← List.append_assoc] at hfree ⊢
    rw [hq] at hnames
    exact leads_of_names (fun n hn => hnames n (List.mem_append_left _ hn))
      (hnames name (by simp)) hdir hfree

end Disk

namespace Execution

open Disk

def creation : Operation → Change
  | .makeDir _ => .createdDir
  | .writeFile _ _ _ => .createdFile

-- That the names of an operation's path, and all of it from the root on, are not too long for a
-- disk.
structure Fits (root : Path) (o : Operation) : Prop where
  names : ∀ name ∈ o.path.parts, name.utf8ByteSize ≤ maxName
  path : (root.join o.path).text.utf8ByteSize < maxPath

section Step

variable {p : Policy} {d : Disk} {target : Path} {l : Location}

theorem makeDir_of_free (h : d.find false target = .ok ⟨l, none, false⟩)
    (hslash : target.withoutSlash = target) :
    makeDir d target = (d.put l .newDir, .ok .createdDir) := by
  have hfault := (find_eq_ok_iff.mp h).1
  simp [makeDir, Disk.makeDir, hfault, hslash, h, bind, Except.bind]

theorem writeFile_of_free (h : d.find false target = .ok ⟨l, none, false⟩) (content : ByteArray) :
    writeFile store p d target content = (d.put l (.newFile content), .ok .createdFile) := by
  have hfollowed := find_followed h (by simp)
  have hcreate : d.createFile target = .ok (d.put l (.newFile .empty)) :=
    createFile_eq_ok_iff.mpr ⟨_, h, rfl, rfl, rfl⟩
  have hnew : Prepares p d target .createdFile d l 0o644 := .created h rfl rfl
  have hwrite : (d.put l (.newFile .empty)).writeFile target content =
      .ok (d.put l (.newFile content)) := hnew.rewrite 0o644 .empty content
  simp [writeFile, lookup, hfollowed, hcreate, store, hwrite, attempt, Except.mapError, settle,
    bind, Except.bind]

theorem apply_of_free (h : d.find false target = .ok ⟨l, none, false⟩)
    (hslash : target.withoutSlash = target) (operation : Operation) :
    apply p d target operation = (d.put l (made operation), .ok (creation operation)) := by
  cases operation with
  | makeDir path => exact makeDir_of_free h hslash
  | writeFile path content mode =>
    have hwrite := @writeFile_of_free p _ _ _ h content.toUTF8
    cases mode with
    | none =>
      simp only [apply, hwrite]
      rfl
    | some n =>
      have hnew : Prepares p d target .createdFile d l 0o644 := .created h rfl rfl
      have hmode := hnew.setMode content.toUTF8 n
      simp only [apply, hwrite, Entry.newFile, hmode, attempt, Except.mapError, settle]
      rfl

end Step

section Run

variable {p : Policy} {root : Path} {d d' d₁ d₂ : Disk} {l : Location} {m : Mode}
  {operations : List Operation} {operation o : Operation} {outcomes : List Outcome} {change : Change}
  {names : List String} {name : String}

theorem runAll_concat (hrun : runAll p root d operations = (d₁, outcomes))
    (hall : ∀ o ∈ outcomes, o.status.isApplied = true)
    (happly : apply p d₁ (root.join operation.path) operation = (d₂, .ok change)) :
    runAll p root d (operations ++ [operation]) =
      (d₂, outcomes ++ [outcome root operation (.applied change)]) := by
  induction operations generalizing d outcomes with
  | nil =>
    obtain ⟨rfl, rfl⟩ := Prod.mk.inj hrun
    simp [runAll, happly]
  | cons first rest ih =>
    simp only [runAll, List.cons_append] at hrun ⊢
    cases hfirst : apply p d (root.join first.path) first with
    | mk d₀ result =>
      cases result with
      | error failure =>
        simp only [hfirst] at hrun
        obtain ⟨-, rfl⟩ := Prod.mk.inj hrun
        have hfailed := hall _ List.mem_cons_self
        simp [outcome] at hfailed
      | ok change' =>
        simp only [hfirst] at hrun ⊢
        obtain ⟨rfl, rfl⟩ := Prod.mk.inj hrun
        have hrest := ih rfl (fun o ho => hall o (List.mem_cons_of_mem _ ho))
        rw [hrest]
        rfl

-- What operations have done in a directory: what each of them makes stands where its path leads
-- from there, and nothing else is new.
structure Built (root : Path) (l : Location) (d d' : Disk) (operations : List Operation) : Prop where
  adds : d.Extends d'
  found : ∀ o ∈ operations,
    d'.find false (root.join o.path) = .ok ⟨l ++ o.path.parts, some (made o), false⟩
  others : ∀ k, (∀ o ∈ operations, k ≠ l ++ o.path.parts) → d'.get? k = d.get? k

theorem built_nil (root : Path) (l : Location) (d : Disk) : Built root l d d [] :=
  ⟨.refl d, by simp, fun _ _ => rfl⟩

theorem Built.get?_eq (h : Built root l d d' operations) (ho : o ∈ operations) :
    d'.get? (l ++ o.path.parts) = some (made o) :=
  (find_spot (h.found o ho)).1.symm

theorem Built.get?_below_iff (h : Built root l d d' operations) (hbare : d.isBare l = true)
    (hne : names ≠ []) {e : Entry} :
    d'.get? (l ++ names) = some e ↔ ∃ o ∈ operations, o.path.parts = names ∧ e = made o := by
  constructor
  · intro hentry
    by_cases hmade : ∃ o ∈ operations, o.path.parts = names
    · obtain ⟨o, ho, rfl⟩ := hmade
      exact ⟨o, ho, rfl, Option.some.inj (hentry.symm.trans (h.get?_eq ho))⟩
    · rw [h.others, absent_of_isBare hbare hne] at hentry
      · cases hentry
      · intro o ho heq
        exact hmade ⟨o, ho, (List.append_cancel_left heq).symm⟩
  · rintro ⟨o, ho, rfl, rfl⟩
    exact h.get?_eq ho

theorem Built.lookup_eq (h : Built root l d d' operations) (ho : o ∈ operations) :
    d'.lookup (root.join o.path) = .ok (l ++ o.path.parts, made o) := by
  have hfollowed := find_followed (h.found o ho) (by cases o <;> simp [made, Entry.newDir])
  exact lookup_eq_ok_iff.mpr ⟨_, hfollowed, rfl, rfl⟩

theorem Built.lookup_root (h : Built root l d d' operations)
    (hroot : d.lookup root = .ok (l, .dir m)) : d'.lookup root = .ok (l, .dir m) :=
  lookup_of_kept hroot h.adds.grows (h.adds.keeps (get?_of_lookup hroot))

theorem Built.concat (h : Built root l d d' operations)
    (hfind : d'.find false (root.join o.path) = .ok ⟨l ++ o.path.parts, none, false⟩) :
    Built root l d (d'.put (l ++ o.path.parts) (made o)) (operations ++ [o]) := by
  have hfree := (find_spot hfind).1.symm
  have hextends := extends_put hfree (made o)
  refine ⟨h.adds.trans hextends, fun o' ho' => ?_, fun k hk => ?_⟩
  · rcases List.mem_append.mp ho' with ho' | ho'
    · exact find_of_extends (h.found o' ho') hextends
    · obtain rfl := List.mem_singleton.mp ho'
      refine find_put hfind rfl ?_ (.inr rfl)
      cases o' <;> simp [made, Entry.newDir]
  · rw [get?_put_of_ne d' _ (hk o (by simp))]
    exact h.others k fun o' ho' => hk o' (List.mem_append_left _ ho')

def Builds (p : Policy) (root : Path) (l : Location) (d : Disk) (operations : List Operation) :
    Prop :=
  ∃ d', runAll p root d operations =
      (d', operations.map fun o => outcome root o (.applied (creation o))) ∧
    Built root l d d' operations

-- The next operation is carried out too, if what is to be above it is there and nothing is in its
-- place.
theorem builds_concat (hroot : d.lookup root = .ok (l, .dir m))
    (hrun : runAll p root d operations =
      (d', operations.map fun o => outcome root o (.applied (creation o))))
    (hbuilt : Built root l d d' operations) (hparts : o.path.parts = names ++ [name])
    (hsegments : ∀ n ∈ o.path.parts, IsSegment n) (hfits : Fits root o)
    (hdir : d'.IsDirAt (l ++ names)) (hfree : d'.get? (l ++ o.path.parts) = none) :
    Builds p root l d (operations ++ [o]) := by
  have hne : o.path.parts ≠ [] := by simp [hparts]
  have hjoin := Path.parts_join_of_plain root (isPlain_of_isSegment hsegments) hne
  have hslash : (root.join o.path).withoutSlash = root.join o.path := by
    have hname : IsSegment name := hsegments name (by simp [hparts])
    rw [hparts, ← List.append_assoc] at hjoin
    exact Path.withoutSlash_of_concat hjoin hname.notEmpty
  have hfind := find_join (hbuilt.lookup_root hroot) hparts hsegments hfits.names hfits.path hdir
    hfree false
  have happly := @apply_of_free p _ _ _ hfind hslash o
  refine ⟨_, ?_, hbuilt.concat hfind⟩
  rw [runAll_concat hrun (by simp [outcome]) happly, List.map_append]
  rfl

-- The paths of a plan without a base are the names of what is produced.
theorem parts_of_grown (h : Plan.Grown .empty operations) (ho : o ∈ operations) :
    o.path.parts ≠ [] ∧ ∀ n ∈ o.path.parts, IsSegment n := by
  obtain ⟨names, hne, hsegments, hpath⟩ := h.descends ho
  have hparts : o.path.parts = names := by
    rw [hpath, Path.parts_descend (isPlain_of_isSegment hsegments) hne]
    rfl
  rw [hparts]
  exact ⟨hne, hsegments⟩

theorem nodup_parts (h : Plan.Grown .empty operations) :
    (operations.map fun o => o.path.parts).Nodup := by
  have hinj : Function.Injective Path.parts := fun _ _ heq => congrArg Path.mk heq
  simpa [List.map_map, Function.comp_def] using h.nodup.map hinj

theorem builds_of_grown (p : Policy) (hroot : d.lookup root = .ok (l, .dir m))
    (hbare : d.isBare l = true) (h : Plan.Grown .empty operations)
    (hfits : ∀ o ∈ operations, Fits root o) : Builds p root l d operations := by
  induction h with
  | nil => exact ⟨d, rfl, built_nil root l d⟩
  | @first o name hname hpath =>
    have hgrown : Plan.Grown .empty [o] := .first hname hpath
    obtain ⟨hne, hsegments⟩ := parts_of_grown hgrown List.mem_cons_self
    have hparts : o.path.parts = [] ++ [name] := by
      rw [hpath, Path.parts_join_ofName]
      rfl
    have hdir : d.IsDirAt (l ++ []) := by
      rw [List.append_nil]
      exact ⟨m, get?_of_lookup hroot⟩
    exact builds_concat hroot rfl (built_nil root l d) hparts hsegments
      (hfits o List.mem_cons_self) hdir (absent_of_isBare hbare hne)
  | @next operations o dir name h hmake hname hpath hnew ih =>
    obtain ⟨d', hrun, hbuilt⟩ := ih fun o' ho' => hfits o' (List.mem_append_left _ ho')
    have hlast : o ∈ operations ++ [o] := by simp
    obtain ⟨hne, hsegments⟩ := parts_of_grown (h.next hmake hname hpath hnew) hlast
    obtain ⟨habove, hplain⟩ := parts_of_grown h hmake
    have hparts : o.path.parts = dir.parts ++ [name] := by
      obtain ⟨init, last, hdir⟩ := List.eq_nil_or_concat' dir.parts |>.resolve_left habove
      have hlast := hplain last (by simp [Operation.path, hdir])
      rw [hpath, Path.parts_join_ofName, Path.stem_of_concat hdir hlast.notEmpty]
    -- what is above it was made before, and its own place was not taken
    have hdir : d'.IsDirAt (l ++ dir.parts) := ⟨_, hbuilt.get?_eq hmake⟩
    have hfree : d'.get? (l ++ o.path.parts) = none := by
      rw [hbuilt.others]
      · exact absent_of_isBare hbare hne
      · intro o' ho' heq
        have hsame : o'.path = o.path := congrArg Path.mk (List.append_cancel_left heq).symm
        exact hnew (hsame ▸ List.mem_map_of_mem ho')
    exact builds_concat hroot hrun hbuilt hparts hsegments (hfits o hlast) hdir hfree

end Run

-- A plan without a base is carried out to its end in every directory in which nothing stands, if no
-- name and no path is too long. Everything is new, and afterwards there is one entry in the
-- directory for each operation, where its path leads, and nothing besides.
theorem run_in_empty_directory (p : Policy) {outline : Outline} {context : Context} {plan : Plan}
    (hplan : Plan.build .empty outline context = .ok plan) {root : Path} {d : Disk} {l : Location}
    {m : Mode} (hroot : d.lookup root = .ok (l, .dir m)) (hbare : d.isBare l = true)
    (hfits : ∀ o ∈ plan.operations, Fits root o) :
    let (d', report) := run p false root plan d
    report.isSuccess = true ∧
    report.outcomes = plan.operations.map (fun o => outcome root o (.applied (creation o))) ∧
    (plan.operations.map fun o => o.path.parts).Nodup ∧
    (∀ o ∈ plan.operations, d'.lookup (root.join o.path) = .ok (l ++ o.path.parts, made o)) ∧
    (∀ names e, names ≠ [] → (d'.get? (l ++ names) = some e ↔
      ∃ o ∈ plan.operations, o.path.parts = names ∧ e = made o)) ∧
    ∀ k, (∀ names, names ≠ [] → k ≠ l ++ names) → d'.get? k = d.get? k := by
  have hgrown := Plan.grown_of_build hplan
  obtain ⟨d', hall, hbuilt⟩ := builds_of_grown p hroot hbare hgrown hfits
  have hrun : run p false root plan d = (d', ⟨root, plan.operations.map fun o =>
      outcome root o (.applied (creation o))⟩) := by simp [run, hall]
  have hothers : ∀ k, (∀ names, names ≠ [] → k ≠ l ++ names) → d'.get? k = d.get? k :=
    fun k hk => hbuilt.others k fun o ho => hk _ (parts_of_grown hgrown ho).1
  rw [hrun]
  refine ⟨?_, rfl, nodup_parts hgrown, fun o ho => hbuilt.lookup_eq ho, fun names e hne => ?_,
    hothers⟩
  · simp [Report.isSuccess, outcome]
  · exact hbuilt.get?_below_iff hbare hne

-- An empty directory that a link leads to, and a plan for it.
def vacant : Disk :=
  ((blank.put ["srv"] .newDir).put ["srv", "out"] .newDir).put ["here"]
    (.link ⟨["srv", "out", ""]⟩)

def crateHere : List Operation :=
  [.makeDir ⟨["lyra"]⟩, .writeFile ⟨["lyra", "lyra.md"]⟩ "# lyra" none,
    .makeDir ⟨["lyra", "bin"]⟩, .writeFile ⟨["lyra", "bin", "run"]⟩ "{{ name }}" (some 0o755)]

theorem build_crateHere :
    Plan.build .empty Plan.crate (Plan.named "lyra") = .ok ⟨crateHere⟩ := by cbv

theorem fits_crateHere : ∀ o ∈ crateHere, Fits ⟨["here", ""]⟩ o := by
  have hnames : ∀ o ∈ crateHere, ∀ name ∈ o.path.parts, name.utf8ByteSize ≤ maxName := by decide
  have hpaths : ∀ o ∈ crateHere,
      (Path.join ⟨["here", ""]⟩ o.path).text.utf8ByteSize < maxPath := by decide
  exact fun o ho => ⟨hnames o ho, hpaths o ho⟩

theorem run_in_empty_directory_vacant :
    let (d', report) := run ⟨false, true⟩ false ⟨["here", ""]⟩ ⟨crateHere⟩ vacant
    report.isSuccess = true ∧
    report.outcomes = crateHere.map (fun o =>
      outcome ⟨["here", ""]⟩ o (.applied (creation o))) ∧
    (crateHere.map fun o => o.path.parts).Nodup ∧
    (∀ o ∈ crateHere, d'.lookup (Path.join ⟨["here", ""]⟩ o.path) =
      .ok (["srv", "out"] ++ o.path.parts, made o)) ∧
    (∀ names e, names ≠ [] → (d'.get? (["srv", "out"] ++ names) = some e ↔
      ∃ o ∈ crateHere, o.path.parts = names ∧ e = made o)) ∧
    ∀ k, (∀ names, names ≠ [] → k ≠ ["srv", "out"] ++ names) → d'.get? k = vacant.get? k := by
  have hroot : vacant.lookup ⟨["here", ""]⟩ = .ok (["srv", "out"], .dir 0o755) := by cbv
  have hbare : vacant.isBare ["srv", "out"] = true := by cbv
  exact run_in_empty_directory ⟨false, true⟩ build_crateHere hroot hbare fits_crateHere

end Execution

end Skeleton
