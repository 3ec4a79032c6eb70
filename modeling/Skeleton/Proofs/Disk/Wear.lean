import Skeleton.Proofs.Disk.Operations

-- Disks that hold the same entries but for what is in files, and for links that became files.
-- Where a path still leads somewhere, it leads to the same place.

namespace Skeleton

inductive Entry.Worn : Entry → Entry → Prop where
  | rewritten {e e' : Entry} (h : e.Rewritten e') : Worn e e'
  | unlinked (target : Path) (m : Mode) (content : ByteArray) :
      Worn (.link target) (.file m content)

namespace Entry.Worn

variable {e e' : Entry}

theorem eq_of_dir {m : Mode} (h : (Entry.dir m).Worn e) : e = .dir m := by
  cases h with
  | rewritten h => exact h.eq_of_dir

theorem file_of_file {m : Mode} {content : ByteArray} (h : (Entry.file m content).Worn e) :
    ∃ m' content', e = .file m' content' := by
  cases h with
  | rewritten h => cases h <;> exact ⟨_, _, rfl⟩

theorem isDir (h : e.Worn e') : e'.isDir = e.isDir := by
  cases h with
  | rewritten h => exact h.isDir
  | unlinked => rfl

theorem eq_of_link {target target' : Path} (h : (Entry.link target).Worn (.link target')) :
    target' = target := by
  cases h with
  | rewritten h => cases h.eq_of_link; rfl

end Entry.Worn

namespace Disk

structure Worn (d x : Disk) : Prop where
  cwd : x.cwd = d.cwd
  absent : ∀ {l}, d.get? l = none → x.get? l = none
  present : ∀ {l e}, d.get? l = some e → ∃ e', x.get? l = some e' ∧ e.Worn e'

variable {d x : Disk} {links : Nat} {l : Location} {parts : List String} {s s' : Spot}

theorem Worn.refl (d : Disk) : d.Worn d := ⟨rfl, id, fun h => ⟨_, h, .rewritten (.same _)⟩⟩

theorem Leads.location_of_last {follow : Bool} {part : String} (hpart : IsName part)
    (h : Leads x follow links l [part] s) (hfollow : follow = false) :
    s.location = l ++ [part] := by
  cases h with
  | idle hidle => simp [hpart.notIdle] at hidle
  | up => exact absurd rfl hpart.notUp
  | missing => rfl
  | down _ _ hrest => cases hrest; rfl
  | stop => rfl
  | jump _ _ hjump => simp [hfollow] at hjump
  | leaf => rfl

-- The walks part only where a link that is to be followed is a file, and there the second one ends.
theorem Leads.location_of_worn (h : Leads d false links l parts s)
    (h' : Leads x false links l parts s') (hworn : d.Worn x) : s'.location = s.location := by
  induction h with
  | here =>
    cases h'
    rfl
  | idle hidle _ ih =>
    cases h' with
    | idle _ hrest => exact ih hrest
    | up => simp [Path.isIdle] at hidle
    | missing hpart | down hpart | stop hpart | jump hpart | leaf hpart =>
      simp [hpart.notIdle] at hidle
  | up _ ih =>
    cases h' with
    | idle hidle => simp [Path.isIdle] at hidle
    | up hrest => exact ih hrest
    | missing hpart | down hpart | stop hpart | jump hpart | leaf hpart =>
      exact absurd rfl hpart.notUp
  | missing hpart hentry =>
    have habsent := hworn.absent hentry
    cases h' with
    | idle hidle => simp [hpart.notIdle] at hidle
    | up => exact absurd rfl hpart.notUp
    | missing => rfl
    | down _ hsome | stop _ hsome | jump _ hsome | leaf _ hsome => simp [habsent] at hsome
  | down hpart hentry _ ih =>
    obtain ⟨e, he, hw⟩ := hworn.present hentry
    obtain rfl := hw.eq_of_dir
    cases h' with
    | idle hidle => simp [hpart.notIdle] at hidle
    | up => exact absurd rfl hpart.notUp
    | missing _ hnone => simp [he] at hnone
    | down _ _ hrest => exact ih hrest
    | stop _ hlink | jump _ hlink => simp [he] at hlink
    | leaf _ hsome hdir =>
      cases he.symm.trans hsome
      cases hdir
  | stop hpart => exact h'.location_of_last hpart rfl
  | jump hpart hentry hfollow _ ih =>
    obtain ⟨e, he, hw⟩ := hworn.present hentry
    cases h' with
    | idle hidle => simp [hpart.notIdle] at hidle
    | up => exact absurd rfl hpart.notUp
    | missing _ hnone => simp [he] at hnone
    | down _ hdir =>
      cases he.symm.trans hdir
      have hkind := hw.isDir
      cases hkind
    | stop | leaf => simp at hfollow
    | jump _ hlink _ hrest =>
      cases he.symm.trans hlink
      obtain rfl := hw.eq_of_link
      exact ih hrest
  | leaf hpart => exact h'.location_of_last hpart rfl

theorem find_location_of_worn {p : Path} {found : Option Entry} {slash : Bool}
    (h : d.find false p = .ok ⟨l, found, slash⟩) (h' : x.find false p = .ok s)
    (hworn : d.Worn x) : s.location = l := by
  obtain ⟨-, -, hleads⟩ := find_eq_ok_iff.mp h
  obtain ⟨-, -, hleads'⟩ := find_eq_ok_iff.mp h'
  have hsame : x.start p = d.start p := by simp only [start, hworn.cwd]
  rw [hsame] at hleads'
  exact hleads.location_of_worn hleads' hworn

end Disk

end Skeleton
