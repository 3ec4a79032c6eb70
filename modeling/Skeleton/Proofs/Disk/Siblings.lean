import Skeleton.Proofs.Disk.Operations
import Skeleton.Proofs.Path.FileName

-- Where the paths lead that differ from the path of a file in the last name only.

namespace Skeleton.Disk

variable {d : Disk} {follow : Bool} {links : Nat} {l : Location} {parts stem idle : List String}
  {s : Spot} {e : Entry} {name part : String}

-- What the system refuses for its length: a path, or the name that it ends with.
def TooLong (p : Path) : Prop :=
  maxPath ≤ p.text.utf8ByteSize ∨ ∃ name ∈ p.fileName?, maxName < name.utf8ByteSize

instance (p : Path) : Decidable (TooLong p) := inferInstanceAs (Decidable (_ ∨ _))

theorem IsName.isPlain (h : IsName name) : Path.IsPlain name := ⟨h.notIdle, h.notUp⟩

-- A path ends with a name if it leads to what is no directory.
theorem Leads.exists_name (h : Leads d follow links l parts s) (hl : d.IsDirAt l)
    (hfound : s.found = some e) (hdir : e.isDir = false) :
    ∃ front name, IsName name ∧ parts = front ++ [name] := by
  have under : ∀ {part rest}, (∃ front name, IsName name ∧ rest = front ++ [name]) →
      ∃ front name, IsName name ∧ part :: rest = front ++ [name] := by
    rintro part _ ⟨front, name, hname, rfl⟩
    exact ⟨part :: front, name, hname, rfl⟩
  induction h with
  | here =>
    obtain ⟨m, hm⟩ := hl
    obtain rfl := Option.some.inj (hm.symm.trans hfound)
    cases hdir
  | idle _ _ ih => exact under (ih hl hfound)
  | up _ ih => exact under (ih hl.dropLast hfound)
  | missing => cases hfound
  | down _ hentry _ ih => exact under (ih ⟨_, hentry⟩ hfound)
  | stop hpart => exact ⟨[], _, hpart, rfl⟩
  | @jump _ _ part rest _ target hpart _ _ _ ih =>
    cases rest using List.reverseRecOn with
    | nil => exact ⟨[], part, hpart, rfl⟩
    | append_singleton rest last =>
      obtain ⟨front, name, hname, hparts⟩ := ih (hl.atLink target) hfound
      rw [← List.append_assoc] at hparts
      obtain ⟨-, hlast⟩ := List.append_inj' hparts rfl
      exact under ⟨rest, last, List.singleton_inj.mp hlast ▸ hname, rfl⟩
  | leaf hpart => exact ⟨[], _, hpart, rfl⟩

theorem leads_name (l : Location) (hname : IsName name) :
    Leads d false links l [name] ⟨l ++ [name], d.get? (l ++ [name]), false⟩ := by
  cases hentry : d.get? (l ++ [name]) with
  | none => exact .missing hname hentry (by simp)
  | some e =>
    cases e with
    | dir m => exact .down hname hentry (hentry ▸ .here)
    | link target => exact .stop hname hentry rfl
    | file m content => exact .leaf hname hentry rfl (by simp)
    | device m isFull => exact .leaf hname hentry rfl (by simp)

-- Before the last name, and what does not count in front of it, stand other names or nothing.
theorem IsName.exists_stem_idle (h : IsName part) {rest : List String}
    (hparts : stem ++ (idle ++ [name]) = part :: rest) (hidle : ∀ p ∈ idle, Path.isIdle p = true) :
    (stem = [] ∧ rest = []) ∨ ∃ stem', stem = part :: stem' ∧ rest = stem' ++ (idle ++ [name]) := by
  cases stem with
  | nil =>
    cases idle with
    | nil => exact .inl ⟨rfl, (List.cons.inj hparts).2.symm⟩
    | cons first idle =>
      obtain rfl := (List.cons.inj hparts).1
      have hcounts := hidle first List.mem_cons_self
      rw [h.notIdle] at hcounts
      cases hcounts
  | cons first stem =>
    obtain ⟨rfl, rfl⟩ := List.cons.inj hparts
    exact .inr ⟨stem, rfl, rfl⟩

-- With another name in the place of its last one a path leads into the same directory. A link
-- there is not followed, so that the other names are looked up next to it.
theorem Leads.sibling (h : Leads d true links l (stem ++ (idle ++ [name])) s) (hl : d.IsDirAt l)
    (hname : IsName name) (hidle : ∀ p ∈ idle, Path.isIdle p = true) (hfound : s.found = some e)
    (hdir : e.isDir = false) :
    ∃ k, d.IsDirAt k ∧ ∀ new, IsName new →
      Leads d false links l (stem ++ [new]) ⟨k ++ [new], d.get? (k ++ [new]), false⟩ := by
  generalize hparts : stem ++ (idle ++ [name]) = parts at h
  induction h generalizing stem idle with
  | here => simp at hparts
  | idle hpart _ ih =>
    cases stem with
    | nil =>
      cases idle with
      | nil =>
        obtain ⟨rfl, -⟩ := List.cons.inj hparts
        rw [hname.notIdle] at hpart
        cases hpart
      | cons first idle =>
        obtain ⟨-, rfl⟩ := List.cons.inj hparts
        exact @ih [] idle hl (fun p hp => hidle p (List.mem_cons_of_mem _ hp)) hfound rfl
    | cons first stem =>
      obtain ⟨rfl, rfl⟩ := List.cons.inj hparts
      obtain ⟨k, hk, hleads⟩ := ih hl hidle hfound rfl
      exact ⟨k, hk, fun new hnew => .idle hpart (hleads new hnew)⟩
  | up _ ih =>
    cases stem with
    | nil =>
      cases idle with
      | nil => exact absurd (List.cons.inj hparts).1 hname.notUp
      | cons first idle =>
        obtain ⟨rfl, -⟩ := List.cons.inj hparts
        exact absurd (hidle ".." List.mem_cons_self) (by decide)
    | cons first stem =>
      obtain ⟨rfl, rfl⟩ := List.cons.inj hparts
      obtain ⟨k, hk, hleads⟩ := ih hl.dropLast hidle hfound rfl
      exact ⟨k, hk, fun new hnew => .up (hleads new hnew)⟩
  | missing => cases hfound
  | down hpart hentry hrest ih =>
    rcases hpart.exists_stem_idle hparts hidle with ⟨rfl, rfl⟩ | ⟨stem, rfl, rfl⟩
    · -- the last name is no directory
      cases hrest
      obtain rfl := Option.some.inj (hentry.symm.trans hfound)
      cases hdir
    · obtain ⟨k, hk, hleads⟩ := ih ⟨_, hentry⟩ hidle hfound rfl
      exact ⟨k, hk, fun new hnew => .down hpart hentry (hleads new hnew)⟩
  | stop _ _ hfollow => cases hfollow
  | @jump _ l _ _ _ target hpart hentry _ _ ih =>
    rcases hpart.exists_stem_idle hparts hidle with ⟨rfl, rfl⟩ | ⟨stem, rfl, rfl⟩
    · exact ⟨l, hl, fun new hnew => leads_name l hnew⟩
    · obtain ⟨k, hk, hleads⟩ := @ih (target.parts ++ stem) idle (hl.atLink target) hidle hfound
        (List.append_assoc ..)
      refine ⟨k, hk, fun new hnew => ?_⟩
      have hbehind := hleads new hnew
      rw [List.append_assoc] at hbehind
      exact .jump hpart hentry (by simp) hbehind
  | @leaf _ l _ _ hpart =>
    rcases hpart.exists_stem_idle hparts hidle with ⟨rfl, -⟩ | ⟨stem, -, hrest⟩
    · exact ⟨l, hl, fun new hnew => leads_name l hnew⟩
    · simp at hrest

section File

variable {p : Path} {front : List String} {new : String}

theorem pathFault?_withFileName (h : pathFault? p = none) (hp : p.parts = front ++ [name])
    (hname : Path.IsPlain name) (hnew : Path.IsPlain new) (hnul : '\x00' ∉ new.toList)
    (hlong : ¬TooLong (p.withFileName new)) : pathFault? (p.withFileName new) = none := by
  obtain ⟨hclean, -, -⟩ := pathFault?_eq_none_iff.mp h
  obtain ⟨stem, idle, rfl, -, -, hparts⟩ := Path.exists_parts_withFileName hp hname
  refine pathFault?_eq_none_iff.mpr ⟨fun hmem => ?_, fun hempty => ?_, ?_⟩
  · obtain ⟨part, hpart, hc⟩ := (Path.mem_text_iff (by decide)).mp hmem
    rw [hparts, List.mem_append, List.mem_singleton] at hpart
    rcases hpart with hpart | rfl
    · refine hclean ((Path.mem_text_iff (by decide)).mpr ⟨part, ?_, hc⟩)
      rw [hp]
      exact List.mem_append_left _ (List.mem_append_left _ hpart)
    · exact hnul hc
  · rcases Path.parts_of_text_eq_empty hempty with hnil | hblank
    · simp [hparts] at hnil
    · rw [hparts] at hblank
      have hlast := congrArg List.getLast? hblank
      rw [List.getLast?_concat] at hlast
      exact hnew.ne_empty (Option.some.inj hlast)
  · exact Nat.lt_of_not_le fun hsize => hlong (.inl hsize)

-- The entries next to a file are found by their names, if those and their paths are short enough.
theorem find_sibling (h : d.lookup p = .ok (l, e)) (hdir : e.isDir = false) :
    ∃ dir name, p.fileName? = some name ∧ '\x00' ∉ name.toList ∧ d.IsDirAt dir ∧
      ∀ new, Path.IsPlain new → '\x00' ∉ new.toList → ¬TooLong (p.withFileName new) →
        d.find false (p.withFileName new) = .ok ⟨dir ++ [new], d.get? (dir ++ [new]), false⟩ := by
  obtain ⟨s, hfind, -, hfound⟩ := lookup_eq_ok_iff.mp h
  obtain ⟨hfault, hstart, hleads⟩ := find_eq_ok_iff.mp hfind
  obtain ⟨front, name, hname, hp⟩ := hleads.exists_name hstart hfound hdir
  obtain ⟨stem, idle, rfl, hidle, hhead, hparts⟩ := Path.exists_parts_withFileName hp hname.isPlain
  rw [hp, List.append_assoc] at hleads
  obtain ⟨dir, hat, hbeside⟩ := hleads.sibling hstart hname hidle hfound hdir
  have hclean : '\x00' ∉ name.toList := fun hmem =>
    (pathFault?_eq_none_iff.mp hfault).1
      ((Path.mem_text_iff (by decide)).mpr ⟨name, by simp [hp], hmem⟩)
  refine ⟨dir, name, Path.fileName?_of_concat hp hname.isPlain, hclean, hat, ?_⟩
  intro new hnew hnul hlong
  have hfits : IsName new := by
    refine ⟨hnew.notIdle, hnew.notUp, Nat.le_of_not_lt fun hsize => hlong (.inr ⟨new, ?_, hsize⟩)⟩
    exact Path.fileName?_of_concat (hparts new) hnew
  -- a path with another last name starts where it started
  have hsame : d.start (p.withFileName new) = d.start p := by
    have hold := Path.isAbsolute_of_plain hp (by simpa using hname.isPlain) (List.cons_ne_nil _ _)
    have hnow := Path.isAbsolute_of_plain (hparts new) (by simpa using hnew) (List.cons_ne_nil _ _)
    simp only [start, hold, hnow, hhead]
  refine find_eq_ok_iff.mpr ⟨?_, hsame ▸ hstart, ?_⟩
  · exact pathFault?_withFileName hfault hp hname.isPlain hnew hnul hlong
  · rw [hsame, hparts]
    exact hbeside new hfits

end File

end Skeleton.Disk
