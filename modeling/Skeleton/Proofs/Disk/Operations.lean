import Mathlib.Data.List.Induction
import Skeleton.Disk.Operations
import Skeleton.Proofs.Disk.Growth
import Skeleton.Proofs.Except
import Skeleton.Proofs.Path

-- What the operations on disks do, told by where their paths lead.

namespace Skeleton.Disk

variable {d d' : Disk} {p : Path} {s : Spot} {follow : Bool} {l : Location} {e : Entry}

theorem find_eq_ok_iff : d.find follow p = .ok s ↔
    pathFault? p = none ∧ d.IsDirAt (d.start p) ∧
      Leads d follow maxLinks (d.start p) p.parts s := by
  unfold find
  cases pathFault? p with
  | some fault => simp
  | none =>
    by_cases hdir : dirAt d.entries (d.start p) = true
    · simp only [hdir, if_true, dirAt_iff.mp hdir, true_and]
      exact ⟨leads_of_walk, walk_of_leads⟩
    · simp [hdir, ← dirAt_iff]

theorem find_spot (h : d.find follow p = .ok s) :
    s.found = d.get? s.location ∧ d.IsDirAt s.location.dropLast := by
  obtain ⟨-, hstart, hleads⟩ := find_eq_ok_iff.mp h
  exact hleads.spot hstart

theorem canPut_of_find (h : d.find follow p = .ok s) (hfound : s.found = none) (e : Entry) :
    d.canPut s.location e = true := by
  obtain ⟨hget, hdir⟩ := find_spot h
  exact canPut_of_absent (hget.symm.trans hfound) hdir e

theorem find_grow (h : d.find follow p = .ok s) (hgrow : d.Grows d')
    (hentry : d'.get? s.location = some e)
    (hnew : s.found = none → (∀ target, e ≠ .link target) ∧ (e.isDir = true ∨ s.wantsDir = false)) :
    d'.find follow p = .ok ⟨s.location, some e, false⟩ := by
  obtain ⟨hfault, hstart, hleads⟩ := find_eq_ok_iff.mp h
  have hsame : d'.start p = d.start p := by simp only [start, hgrow.cwd]
  refine find_eq_ok_iff.mpr ⟨hfault, ?_, ?_⟩
  · exact hsame ▸ hgrow.isDirAt hstart
  · exact hsame ▸ hleads.grow hgrow hentry hnew

-- What a path led to it still leads to.
theorem find_of_grows (h : d.find follow p = .ok s) (hfound : s.found = some e)
    (hgrow : d.Grows d') :
    ∃ e', e.Rewritten e' ∧ d'.find follow p = .ok ⟨s.location, some e', false⟩ := by
  obtain ⟨e', he', hw⟩ := hgrow.keeps ((find_spot h).1.symm.trans hfound)
  exact ⟨e', hw, find_grow h hgrow he' (by simp [hfound])⟩

theorem find_of_extends {slash : Bool} (h : d.find follow p = .ok ⟨l, some e, slash⟩)
    (hextends : d.Extends d') : d'.find follow p = .ok ⟨l, some e, false⟩ :=
  find_grow h hextends.grows (hextends.keeps (find_spot h).1.symm) (by simp)

-- What is put where a path leads is found there.
theorem find_put (h : d.find follow p = .ok s) (hnone : s.found = none)
    (hlink : ∀ target, e ≠ .link target) (hkind : e.isDir = true ∨ s.wantsDir = false) :
    (d.put s.location e).find follow p = .ok ⟨s.location, some e, false⟩ := by
  have habsent := (find_spot h).1.symm.trans hnone
  have hentry := get?_put (canPut_of_find h hnone e) s.location
  rw [if_pos rfl] at hentry
  exact find_grow h (grows_put habsent e) hentry fun _ => ⟨hlink, hkind⟩

theorem find_followed (h : d.find false p = .ok s)
    (hlink : ∀ target, s.found ≠ some (.link target)) : d.find true p = .ok s := by
  obtain ⟨hfault, hstart, hleads⟩ := find_eq_ok_iff.mp h
  exact find_eq_ok_iff.mpr ⟨hfault, hstart, hleads.followed hlink⟩

theorem find_unfollowed (h : d.find true p = .ok s) :
    d.find false p = .ok s ∨ ∃ k target, d.find false p = .ok ⟨k, some (.link target), false⟩ := by
  obtain ⟨hfault, hstart, hleads⟩ := find_eq_ok_iff.mp h
  rcases hleads.unfollowed with hleads | ⟨k, target, hleads⟩
  · exact .inl (find_eq_ok_iff.mpr ⟨hfault, hstart, hleads⟩)
  · exact .inr ⟨k, target, find_eq_ok_iff.mpr ⟨hfault, hstart, hleads⟩⟩

theorem lookup_eq_ok_iff :
    d.lookup p = .ok (l, e) ↔ ∃ s, d.find true p = .ok s ∧ s.location = l ∧ s.found = some e := by
  unfold lookup
  rw [bind_eq_ok_iff]
  refine exists_congr fun s => and_congr_right fun _ => ?_
  cases s.found <;> simp

-- What was looked up is still there, up to what a file holds.
theorem lookup_of_grows (h : d.lookup p = .ok (l, e)) (hgrow : d.Grows d') :
    ∃ e', e.Rewritten e' ∧ d'.lookup p = .ok (l, e') := by
  obtain ⟨s, hfind, rfl, hfound⟩ := lookup_eq_ok_iff.mp h
  obtain ⟨e', hw, hfind'⟩ := find_of_grows hfind hfound hgrow
  exact ⟨e', hw, lookup_eq_ok_iff.mpr ⟨_, hfind', rfl, rfl⟩⟩

theorem get?_of_lookup (h : d.lookup p = .ok (l, e)) : d.get? l = some e := by
  obtain ⟨s, hfind, rfl, hfound⟩ := lookup_eq_ok_iff.mp h
  exact (find_spot hfind).1.symm.trans hfound

theorem lookup_of_kept (h : d.lookup p = .ok (l, e)) (hgrow : d.Grows d')
    (hkept : d'.get? l = some e) : d'.lookup p = .ok (l, e) := by
  obtain ⟨e', -, hlookup⟩ := lookup_of_grows h hgrow
  obtain rfl := Option.some.inj ((get?_of_lookup hlookup).symm.trans hkept)
  exact hlookup

section Make

theorem find_of_withoutSlash (hfault : pathFault? p = none)
    (h : d.find false p.withoutSlash = .ok s) (hnone : s.found = none) :
    ∃ slash, d.find false p = .ok ⟨s.location, none, slash⟩ := by
  obtain ⟨-, hstart, hleads⟩ := find_eq_ok_iff.mp h
  obtain ⟨blank, hblank, hparts⟩ := Path.exists_parts_withoutSlash p
  have hsame : d.start p.withoutSlash = d.start p := by
    simp only [start, Path.isAbsolute_withoutSlash]
  rw [hsame] at hstart hleads
  obtain ⟨slash, hleads'⟩ := hleads.append_blank hstart hnone hblank
  rw [← hparts] at hleads'
  exact ⟨slash, find_eq_ok_iff.mpr ⟨hfault, hstart, hleads'⟩⟩

theorem pathFault?_eq_none_iff : pathFault? p = none ↔
    '\x00' ∉ p.text.toList ∧ p.text ≠ "" ∧ p.text.utf8ByteSize < maxPath := by
  by_cases hnul : '\x00' ∈ p.text.toList
  · simp [pathFault?, hnul]
  · by_cases hempty : p.text = "" <;> simp [pathFault?, hnul, hempty]

theorem pathFault?_withoutSlash (h : pathFault? p = none) : pathFault? p.withoutSlash = none := by
  obtain ⟨hnul, hempty, hsize⟩ := pathFault?_eq_none_iff.mp h
  obtain ⟨hne, tail, htext⟩ := Path.exists_text_withoutSlash hempty
  rw [htext] at hnul hsize
  simp only [String.toList_append, List.mem_append, not_or] at hnul
  rw [String.utf8ByteSize_append] at hsize
  exact pathFault?_eq_none_iff.mpr ⟨hnul.1, hne, by omega⟩

-- Where something is no directory is made.
theorem makeDir_of_lookup (h : d.lookup p = .ok (l, e)) : d.makeDir p = .error .alreadyExists := by
  obtain ⟨s, hfind, -, hfound⟩ := lookup_eq_ok_iff.mp h
  obtain ⟨hfault, hstart, hleads⟩ := find_eq_ok_iff.mp hfind
  obtain ⟨blank, hblank, hparts⟩ := Path.exists_parts_withoutSlash p
  rw [hparts] at hleads
  obtain ⟨s', hleads', hsome⟩ := hleads.of_append_blank hblank hstart (by simp [hfound])
  have hsame : d.start p.withoutSlash = d.start p := by
    simp only [start, Path.isAbsolute_withoutSlash]
  have hfind' : d.find false p.withoutSlash = .ok s' :=
    find_eq_ok_iff.mpr ⟨pathFault?_withoutSlash hfault, hsame ▸ hstart, hsame ▸ hleads'⟩
  simp [makeDir, hfault, hfind', hsome, bind, Except.bind]

-- A directory is made where nothing stands.
theorem makeDir_eq_ok (h : d.makeDir p = .ok d') :
    ∃ s, d.find false p = .ok s ∧ s.found = none ∧ d' = d.put s.location .newDir := by
  unfold makeDir at h
  cases hfault : pathFault? p with
  | some fault => simp [hfault] at h
  | none =>
    simp only [hfault] at h
    obtain ⟨s, hfind, h⟩ := bind_eq_ok_iff.mp h
    cases hfound : s.found with
    | some e => simp [hfound] at h
    | none =>
      simp only [hfound, Option.isSome_none, Bool.false_eq_true, if_false, Except.ok.injEq] at h
      obtain ⟨slash, hfind'⟩ := find_of_withoutSlash hfault hfind hfound
      exact ⟨_, hfind', rfl, h.symm⟩

theorem createFile_eq_ok_iff : d.createFile p = .ok d' ↔
    ∃ s, d.find false p = .ok s ∧ s.found = none ∧ s.wantsDir = false ∧
      d' = d.put s.location (.newFile .empty) := by
  unfold createFile
  rw [bind_eq_ok_iff]
  refine exists_congr fun s => and_congr_right fun _ => ?_
  cases s.found <;> cases s.wantsDir <;> simp [eq_comm]

end Make

section Content

variable {content : ByteArray} {m : Mode}

theorem openFile_eq_ok (hd : d.DeviceFree) (h : d.openFile p = .ok (content, m)) :
    ∃ s, d.find true p = .ok s ∧ s.found = some (.file m content) := by
  obtain ⟨⟨l, e⟩, hlookup, h⟩ := bind_eq_ok_iff.mp h
  obtain ⟨s, hfind, -, hfound⟩ := lookup_eq_ok_iff.mp hlookup
  refine ⟨s, hfind, ?_⟩
  cases e with
  | file m' content' => cases h; exact hfound
  | device m' isFull => exact absurd ((find_spot hfind).1.symm.trans hfound) (hd _ _ _)
  | dir m' => cases h
  | link target => cases h

theorem changeFile_of_file {m : Mode} {old : ByteArray} (h : d.find true p = .ok s)
    (hfound : s.found = some (.file m old)) (change : ByteArray → ByteArray) :
    d.changeFile p change = .ok (d.put s.location (.file m (change old))) := by
  simp [changeFile, h, hfound, bind, Except.bind]

theorem writeFile_of_file {m : Mode} {old : ByteArray} (h : d.find true p = .ok s)
    (hfound : s.found = some (.file m old)) (content : ByteArray) :
    d.writeFile p content = .ok (d.put s.location (.file m content)) :=
  changeFile_of_file h hfound _

theorem writeFile_eq_ok (hd : d.DeviceFree) (h : d.writeFile p content = .ok d') :
    ∃ s, d.find true p = .ok s ∧
      ((s.found = none ∧ s.wantsDir = false ∧ d' = d.put s.location (.newFile content)) ∨
        ∃ m old, s.found = some (.file m old) ∧ d' = d.put s.location (.file m content)) := by
  obtain ⟨s, hfind, h⟩ := bind_eq_ok_iff.mp h
  refine ⟨s, hfind, ?_⟩
  cases hfound : s.found with
  | none =>
    left
    cases hslash : s.wantsDir <;> simp only [hfound, hslash] at h
    · cases h
      exact ⟨rfl, rfl, rfl⟩
    · cases h
  | some e =>
    right
    simp only [hfound] at h
    cases e with
    | file m old => cases h; exact ⟨m, old, rfl, rfl⟩
    | device m isFull => exact absurd ((find_spot hfind).1.symm.trans hfound) (hd _ _ _)
    | dir m => cases h
    | link target => cases h

theorem setMode_of_find (h : d.find true p = .ok s) (hfound : s.found = some e) (n : Nat) :
    d.setMode p n = .ok (d.put s.location (e.withMode (Mode.ofNat n))) := by
  have hlookup : d.lookup p = .ok (s.location, e) := lookup_eq_ok_iff.mpr ⟨s, h, rfl, hfound⟩
  simp [setMode, hlookup, bind, Except.bind]

end Content

section Remove

theorem removeFile_of_find (h : d.find false p = .ok s) (hfound : s.found = some e)
    (hdir : e.isDir = false) : d.removeFile p = .ok (d.remove s.location) := by
  cases e <;> simp_all [removeFile, bind, Except.bind, Entry.isDir]

theorem removeDir_of_find {m : Mode} (h : d.find false p = .ok s) (hfound : s.found = some (.dir m))
    (hbare : d.isBare s.location = true) : d.removeDir p = .ok (d.remove s.location) := by
  simp [removeDir, h, hfound, hbare, bind, Except.bind]

theorem removeFile_eq_ok (h : d.removeFile p = .ok d') :
    ∃ s, d.find false p = .ok s ∧ d.isBare s.location = true ∧ d' = d.remove s.location := by
  obtain ⟨s, hfind, h⟩ := bind_eq_ok_iff.mp h
  refine ⟨s, hfind, ?_⟩
  have hget := (find_spot hfind).1
  cases hfound : s.found with
  | none => simp [hfound] at h
  | some e =>
    have hbare : e.isDir = false → d.isBare s.location = true := fun he => by
      refine isBare_of_not_isDirAt fun ⟨m, hm⟩ => ?_
      obtain rfl := Option.some.inj (hfound.symm.trans (hget.trans hm))
      cases he
    simp only [hfound] at h
    cases e with
    | dir => cases h
    | _ =>
      cases h
      exact ⟨hbare rfl, rfl⟩

theorem removeDir_eq_ok (h : d.removeDir p = .ok d') :
    ∃ s, d.find false p = .ok s ∧ d.isBare s.location = true ∧ d' = d.remove s.location := by
  obtain ⟨s, hfind, h⟩ := bind_eq_ok_iff.mp h
  refine ⟨s, hfind, ?_⟩
  cases hfound : s.found with
  | none => simp [hfound] at h
  | some e =>
    simp only [hfound] at h
    cases e with
    | dir =>
      by_cases hbare : d.isBare s.location = true
      · rw [if_pos hbare] at h
        cases h
        exact ⟨hbare, rfl⟩
      · rw [if_neg hbare] at h
        cases h
    | _ => cases h

end Remove

section Rename

theorem find_of_rename {source target : Path} (h : d.rename source target = .ok d') :
    ∃ s t, d.find false source = .ok s ∧ d.find false target = .ok t := by
  obtain ⟨s, hs, h⟩ := bind_eq_ok_iff.mp h
  obtain ⟨t, ht, -⟩ := bind_eq_ok_iff.mp h
  exact ⟨s, t, hs, ht⟩

theorem below_of_not_isDirAt (h : ¬d.IsDirAt l) : d.below l = [] := by
  refine List.filterMap_eq_nil_iff.mpr fun ⟨k, e⟩ hmem => ?_
  have hget : d.entries.get? k = some e := lookupEntry_of_mem d.entries.sorted hmem
  have hk : k ≠ [] := (d.rooted k (by simp [hget])).1
  refine if_neg fun hbelow => h ?_
  obtain ⟨habove, hne⟩ : l <+: k ∧ k ≠ l := by simpa using hbelow
  exact isDirAt_of_prefix ((get?_of_ne_nil d hk).trans hget) habove hne.symm

-- A file that takes the place of what is no directory.
theorem rename_file {source target : Path} {t : Spot} {m : Mode} {content : ByteArray} {old : Entry}
    (hs : d.find false source = .ok s) (hfile : s.found = some (.file m content))
    (ht : d.find false target = .ok t) (hold : t.found = some old) (hdir : old.isDir = false)
    (hne : s.location ≠ t.location) :
    ∃ d', d.rename source target = .ok d' ∧ d'.cwd = d.cwd ∧
      ∀ k, d'.get? k =
        if k = t.location then some (.file m content)
        else if k = s.location then none else d.get? k := by
  have hsGet := (find_spot hs).1.symm.trans hfile
  obtain ⟨htGet, htDir⟩ := find_spot ht
  have htGet := htGet.symm.trans hold
  have hsNot : ¬d.IsDirAt s.location := fun ⟨m, hm⟩ => by simp [hsGet] at hm
  have htNot : ¬d.IsDirAt t.location := fun ⟨m, hm⟩ => by
    obtain rfl : old = .dir m := by simpa [htGet] using hm
    cases hdir
  have hsNil : s.location ≠ [] := fun h => hsNot (h ▸ isDirAt_nil d)
  have htNil : t.location ≠ [] := fun h => htNot (h ▸ isDirAt_nil d)
  -- the source goes first, then what is at the target
  have hfirst := get?_remove (isBare_of_not_isDirAt hsNot) hsNil
  have hfirstNot : ¬(d.remove s.location).IsDirAt t.location := fun ⟨m, hm⟩ => by
    rw [hfirst, if_neg hne.symm] at hm
    exact htNot ⟨m, hm⟩
  have hsecond := get?_remove (isBare_of_not_isDirAt hfirstNot) htNil
  have hplace : ((d.remove s.location).remove t.location).IsDirAt t.location.dropLast := by
    obtain ⟨m, hm⟩ := htDir
    refine ⟨m, ?_⟩
    rw [hsecond, hfirst, if_neg, if_neg]
    · exact hm
    · exact fun h => hsNot (h ▸ ⟨m, hm⟩)
    · exact fun h => htNot (h ▸ ⟨m, hm⟩)
  have hput := canPut_of_absent (by rw [hsecond, if_pos rfl]) hplace (.file m content)
  refine ⟨((d.remove s.location).remove t.location).put t.location (.file m content), ?_, ?_,
    fun k => ?_⟩
  · have hbelow := below_of_not_isDirAt hsNot
    cases old <;>
      simp_all [rename, removeTree, putTree, bind, Except.bind, Entry.isDir]
  · simp
  · rw [get?_put hput, hsecond, hfirst]
    by_cases hk : k = t.location
    · rw [if_pos hk, if_pos hk]
    · rw [if_neg hk, if_neg hk, if_neg hk]

end Rename

end Skeleton.Disk
