import Mathlib.Data.List.Basic
import Mathlib.Data.List.Induction
import Skeleton.Disk.Basic

-- What `put` and `remove` do to the entries of a disk, read through `get?`.

namespace Skeleton

def Entry.isPlain : Entry → Bool
  | dir _ => true
  | file _ _ => true
  | _ => false

namespace Disk

variable {d : Disk} {l k : Location} {e : Entry}

def IsDirAt (d : Disk) (l : Location) : Prop := ∃ m, d.get? l = some (.dir m)

-- Directories and files only.
def Plain (d : Disk) : Prop := ∀ l e, d.get? l = some e → e.isPlain = true

def LinkFree (d : Disk) : Prop := ∀ l target, d.get? l ≠ some (.link target)

def DeviceFree (d : Disk) : Prop := ∀ l m isFull, d.get? l ≠ some (.device m isFull)

theorem Plain.linkFree (h : d.Plain) : d.LinkFree := fun l target hl => by
  cases h l _ hl

theorem Plain.deviceFree (h : d.Plain) : d.DeviceFree := fun l m isFull hl => by
  cases h l _ hl

theorem plain_blank : blank.Plain := fun l e hl => by
  by_cases h : l = []
  · subst h
    cases hl
    rfl
  · simp [get?, blank, h] at hl

@[simp]
theorem get?_nil (d : Disk) : d.get? [] = some .newDir := by simp [get?]

theorem get?_of_ne_nil (d : Disk) (h : l ≠ []) : d.get? l = d.entries.get? l := if_neg h

theorem ne_nil_of_absent (h : d.get? l = none) : l ≠ [] := by
  rintro rfl
  simp at h

theorem isDirAt_nil (d : Disk) : d.IsDirAt [] := ⟨_, get?_nil d⟩

theorem dirAt_iff : dirAt d.entries l = true ↔ d.IsDirAt l := by
  by_cases hl : l = []
  · subst hl
    exact ⟨fun _ => isDirAt_nil d, fun _ => rfl⟩
  · simp only [dirAt, hl, decide_false, Bool.false_or, IsDirAt, get?_of_ne_nil d hl]
    cases d.entries.get? l with
    | none => simp
    | some e => cases e <;> simp [Entry.isDir]

-- What stands somewhere stands in a directory.
theorem isDirAt_dropLast (h : d.get? l = some e) : d.IsDirAt l.dropLast := by
  by_cases hl : l = []
  · subst hl
    exact isDirAt_nil d
  · rw [get?_of_ne_nil d hl] at h
    exact dirAt_iff.mp (d.rooted l (by simp [h])).2

theorem IsDirAt.dropLast (h : d.IsDirAt l) : d.IsDirAt l.dropLast :=
  isDirAt_dropLast h.choose_spec

-- Everything above an entry is a directory.
theorem IsDirAt.of_prefix (h : d.IsDirAt k) (habove : l <+: k) : d.IsDirAt l := by
  induction k using List.reverseRecOn with
  | nil => exact List.prefix_nil.mp habove ▸ h
  | append_singleton k name ih =>
    rcases List.prefix_concat_iff.mp habove with rfl | habove
    · exact h
    · exact ih (by simpa using h.dropLast) habove

theorem isDirAt_of_prefix (h : d.get? k = some e) (habove : l <+: k) (hne : l ≠ k) :
    d.IsDirAt l := by
  have hdir := isDirAt_dropLast h
  cases k using List.reverseRecOn with
  | nil => exact absurd (List.prefix_nil.mp habove) hne
  | append_singleton k name =>
    rw [List.dropLast_concat] at hdir
    exact hdir.of_prefix ((List.prefix_concat_iff.mp habove).resolve_left hne)

-- Nothing stands in what is no directory.
theorem absent_of_not_isDirAt (h : ¬d.IsDirAt l) (hk : k.dropLast = l) : d.get? k = none := by
  cases he : d.get? k with
  | none => rfl
  | some e => exact absurd (hk ▸ isDirAt_dropLast he) h

-- Disks are the same where they look the same.
theorem ext_get? {d' : Disk} (hcwd : d.cwd = d'.cwd) (h : ∀ l, d.get? l = d'.get? l) :
    d = d' := by
  have hentries : d.entries = d'.entries := by
    apply Dictionary.ext_get?
    intro l
    by_cases hl : l = []
    · subst hl
      have hroot : ∀ d : Disk, d.entries.get? [] = none := by
        intro d
        cases he : d.entries.get? [] with
        | none => rfl
        | some e => exact absurd rfl (d.rooted [] (by simp [he])).1
      rw [hroot, hroot]
    · simpa only [get?_of_ne_nil _ hl] using h l
  cases d
  cases d'
  simp_all

section Put

@[simp]
theorem cwd_put (d : Disk) (l : Location) (e : Entry) : (d.put l e).cwd = d.cwd := by
  unfold put
  split <;> rfl

theorem get?_put (h : d.canPut l e = true) (k : Location) :
    (d.put l e).get? k = if k = l then some e else d.get? k := by
  have hl : l ≠ [] := by
    rintro rfl
    simp [canPut, isPlaced] at h
  rw [put, dif_pos h]
  by_cases hk : k = []
  · subst hk
    simp [get?, Ne.symm hl]
  · simp only [get?, hk, if_false, Dictionary.get?_insert, eq_comm]

theorem canPut_of_absent (h : d.get? l = none) (hdir : d.IsDirAt l.dropLast) (e : Entry) :
    d.canPut l e = true := by
  have hl := ne_nil_of_absent h
  rw [get?_of_ne_nil d hl] at h
  simp [canPut, isPlaced, hl, dirAt_iff.mpr hdir, h]

-- What is no directory can be replaced by anything but by nothing.
theorem canPut_of_present {old : Entry} (h : d.get? l = some old) (hold : old.isDir = false)
    (e : Entry) : d.canPut l e = true := by
  have hl : l ≠ [] := by
    rintro rfl
    rw [get?_nil] at h
    cases h
    cases hold
  have hdir := isDirAt_dropLast h
  rw [get?_of_ne_nil d hl] at h
  simp [canPut, isPlaced, hl, dirAt_iff.mpr hdir, h, hold]

theorem get?_put_of_ne (d : Disk) (e : Entry) (h : k ≠ l) :
    (d.put l e).get? k = d.get? k := by
  by_cases hput : d.canPut l e = true
  · rw [get?_put hput, if_neg h]
  · rw [put, dif_neg hput]

theorem eq_or_get?_of_put {e' : Entry} (h : (d.put l e).get? k = some e') :
    e' = e ∨ d.get? k = some e' := by
  by_cases hput : d.canPut l e = true
  · rw [get?_put hput] at h
    split at h
    · exact .inl (Option.some.inj h).symm
    · exact .inr h
  · rw [put, dif_neg hput] at h
    exact .inr h

theorem Plain.put (h : d.Plain) (he : e.isPlain = true) : (d.put l e).Plain := fun k e' hk => by
  rcases eq_or_get?_of_put hk with rfl | hk
  · exact he
  · exact h k e' hk

theorem DeviceFree.put (h : d.DeviceFree) (he : ∀ m isFull, e ≠ .device m isFull) :
    (d.put l e).DeviceFree := fun k m isFull hk => by
  rcases eq_or_get?_of_put hk with rfl | hk
  · exact he m isFull rfl
  · exact h k m isFull hk

-- Where a file can stand anything can.
theorem canPut_of_canPut (h : d.canPut l e = true) (he : e.isDir = false) (e' : Entry) :
    d.canPut l e' = true := by
  simp only [canPut, he, Bool.false_or, Bool.and_eq_true] at h ⊢
  exact ⟨h.1, by simp only [h.2, Bool.or_true]⟩

theorem put_put (h : d.canPut l e = true) (he : e.isDir = false) (e' : Entry) :
    (d.put l e).put l e' = d.put l e' := by
  have hold : (d.put l e).get? l = some e := by rw [get?_put h, if_pos rfl]
  refine ext_get? (by simp) fun k => ?_
  rw [get?_put (canPut_of_present hold he e'), get?_put h,
    get?_put (canPut_of_canPut h he e')]
  split <;> rfl

-- What is put where it stands already changes nothing.
theorem put_of_get? (h : d.get? l = some e) (he : e.isDir = false) : d.put l e = d := by
  refine ext_get? (by simp) fun k => ?_
  rw [get?_put (canPut_of_present h he e)]
  split
  · rename_i hk
    rw [hk, h]
  · rfl

end Put

section Remove

@[simp]
theorem cwd_remove (d : Disk) (l : Location) : (d.remove l).cwd = d.cwd := by
  unfold remove
  split <;> rfl

theorem isBare_iff : d.isBare l = true ↔ ∀ k, k ≠ [] → k.dropLast = l → d.get? k = none := by
  simp only [isBare, List.all_eq_true, Bool.or_eq_true, bne_iff_ne, decide_eq_true_eq]
  constructor
  · intro h k hk hkl
    rw [get?_of_ne_nil d hk]
    cases he : d.entries.get? k with
    | none => rfl
    | some e => exact ((h k (Dictionary.mem_keys_of_get? (by simp [he]))).elim (· hkl) hk).elim
  · intro h k hmem
    by_contra hcon
    obtain ⟨hkl, hk⟩ := not_or.mp hcon
    have hsome := Dictionary.get?_isSome_of_mem_keys hmem
    rw [← get?_of_ne_nil d hk, h k hk (not_not.mp hkl)] at hsome
    cases hsome

-- What is empty is empty all the way down.
theorem absent_of_isBare {names : List String} (h : d.isBare l = true) (hne : names ≠ []) :
    d.get? (l ++ names) = none := by
  obtain ⟨name, rest, rfl⟩ := List.exists_cons_of_ne_nil hne
  have hfirst : d.get? (l ++ [name]) = none := isBare_iff.mp h _ (by simp) (by simp)
  cases hentry : d.get? (l ++ name :: rest) with
  | none => rfl
  | some e =>
    have habove : l ++ [name] <+: l ++ name :: rest := ⟨rest, by simp⟩
    by_cases hrest : l ++ [name] = l ++ name :: rest
    · simp [← hrest, hfirst] at hentry
    · obtain ⟨m, hm⟩ := isDirAt_of_prefix hentry habove hrest
      simp [hfirst] at hm

theorem isBare_of_not_isDirAt (h : ¬d.IsDirAt l) : d.isBare l = true :=
  isBare_iff.mpr fun _ _ hk => absent_of_not_isDirAt h hk

theorem get?_remove (h : d.isBare l = true) (hl : l ≠ []) (k : Location) :
    (d.remove l).get? k = if k = l then none else d.get? k := by
  rw [remove, dif_pos h]
  by_cases hk : k = []
  · subst hk
    simp [get?, Ne.symm hl]
  · simp only [get?, hk, if_false, Dictionary.get?_erase, eq_comm]

-- Taking away what was put where nothing stood.
theorem isBare_put (h : d.get? l = none) (e : Entry) : (d.put l e).isBare l = true := by
  refine isBare_iff.mpr fun k hk hkl => ?_
  have hne : k ≠ l := by
    rintro rfl
    have hlen := congrArg List.length hkl
    rw [List.length_dropLast] at hlen
    exact hk (List.eq_nil_of_length_eq_zero (by omega))
  rw [get?_put_of_ne d e hne]
  exact absent_of_not_isDirAt (fun ⟨m, hm⟩ => by simp [h] at hm) hkl

theorem remove_put (h : d.get? l = none) (hdir : d.IsDirAt l.dropLast) (e : Entry) :
    (d.put l e).remove l = d := by
  refine ext_get? (by simp) fun k => ?_
  rw [get?_remove (isBare_put h e) (ne_nil_of_absent h), get?_put (canPut_of_absent h hdir e)]
  by_cases hk : k = l
  · rw [if_pos hk, hk, h]
  · rw [if_neg hk, if_neg hk]

end Remove

end Disk

end Skeleton
