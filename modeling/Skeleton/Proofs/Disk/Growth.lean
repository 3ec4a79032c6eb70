import Skeleton.Proofs.Disk.Walk

-- Disks that only gain entries. What a path led to it still leads to.

namespace Skeleton

-- The same entry, up to what a file holds and who may use it.
inductive Entry.Rewritten : Entry → Entry → Prop where
  | same (e : Entry) : Rewritten e e
  | file (m : Mode) (content : ByteArray) (m' : Mode) (content' : ByteArray) :
      Rewritten (.file m content) (.file m' content')

namespace Entry.Rewritten

variable {e e' e'' : Entry}

theorem trans (h : e.Rewritten e') (h' : e'.Rewritten e'') : e.Rewritten e'' := by
  cases h with
  | same => exact h'
  | file => cases h' <;> exact .file ..

theorem eq_of_dir {m : Mode} (h : (Entry.dir m).Rewritten e) : e = .dir m := by
  cases h
  rfl

theorem eq_of_link {target : Path} (h : (Entry.link target).Rewritten e) : e = .link target := by
  cases h
  rfl

theorem eq_link {target : Path} (h : e.Rewritten (.link target)) : e = .link target := by
  cases h
  rfl

theorem isDir (h : e.Rewritten e') : e'.isDir = e.isDir := by
  cases h <;> rfl

end Entry.Rewritten

namespace Disk

structure Grows (d d' : Disk) : Prop where
  cwd : d'.cwd = d.cwd
  keeps : ∀ {l e}, d.get? l = some e → ∃ e', d'.get? l = some e' ∧ e.Rewritten e'

variable {d d' : Disk} {l : Location} {e : Entry}

namespace Grows

theorem refl (d : Disk) : d.Grows d := ⟨rfl, fun h => ⟨_, h, .same _⟩⟩

theorem trans {d'' : Disk} (h : d.Grows d') (h' : d'.Grows d'') : d.Grows d'' := by
  refine ⟨h'.cwd.trans h.cwd, fun hentry => ?_⟩
  obtain ⟨e', he', hw⟩ := h.keeps hentry
  obtain ⟨e'', he'', hw'⟩ := h'.keeps he'
  exact ⟨e'', he'', hw.trans hw'⟩

theorem dir (h : d.Grows d') {m : Mode} (hl : d.get? l = some (.dir m)) :
    d'.get? l = some (.dir m) := by
  obtain ⟨e', he', hw⟩ := h.keeps hl
  rw [he', hw.eq_of_dir]

theorem link (h : d.Grows d') {target : Path} (hl : d.get? l = some (.link target)) :
    d'.get? l = some (.link target) := by
  obtain ⟨e', he', hw⟩ := h.keeps hl
  rw [he', hw.eq_of_link]

theorem isDirAt (h : d.Grows d') (hl : d.IsDirAt l) : d'.IsDirAt l :=
  ⟨_, h.dir hl.choose_spec⟩

end Grows

-- Disks that gain entries, and keep all others as they are.
structure Extends (d d' : Disk) : Prop where
  cwd : d'.cwd = d.cwd
  keeps : ∀ {l e}, d.get? l = some e → d'.get? l = some e

namespace Extends

theorem refl (d : Disk) : d.Extends d := ⟨rfl, id⟩

theorem trans {d'' : Disk} (h : d.Extends d') (h' : d'.Extends d'') : d.Extends d'' :=
  ⟨h'.cwd.trans h.cwd, fun hl => h'.keeps (h.keeps hl)⟩

theorem grows (h : d.Extends d') : d.Grows d' :=
  ⟨h.cwd, fun hl => ⟨_, h.keeps hl, .same _⟩⟩

end Extends

theorem extends_put (h : d.get? l = none) (e : Entry) : d.Extends (d.put l e) := by
  refine ⟨cwd_put d l e, @fun k old hk => ?_⟩
  have hne : k ≠ l := by
    rintro rfl
    simp [h] at hk
  rw [get?_put_of_ne d e hne, hk]

theorem grows_put (h : d.get? l = none) (e : Entry) : d.Grows (d.put l e) :=
  (extends_put h e).grows

theorem grows_rewrite {m m' : Mode} {content content' : ByteArray}
    (h : d.get? l = some (.file m content)) : d.Grows (d.put l (.file m' content')) := by
  refine ⟨cwd_put d l _, @fun k old hold => ?_⟩
  rw [get?_put (canPut_of_present h rfl _)]
  by_cases hk : k = l
  · subst hk
    obtain rfl : Entry.file m content = old := Option.some.inj (h.symm.trans hold)
    exact ⟨_, if_pos rfl, .file ..⟩
  · exact ⟨old, by rw [if_neg hk, hold], .same old⟩

-- Parts behind a directory's last slash lead nowhere else.
theorem leads_of_blank {follow : Bool} {links : Nat} {parts : List String}
    (h : ∀ p ∈ parts, p = "") : Leads d follow links l parts ⟨l, d.get? l, false⟩ := by
  induction parts with
  | nil => exact .here
  | cons part rest ih =>
    refine .idle ?_ (ih fun p hp => h p (List.mem_cons_of_mem _ hp))
    rw [h part List.mem_cons_self]
    rfl

-- What is new may stand at the end of the way only, and a path that ends with a slash must find a
-- directory there.
theorem Leads.grow {follow : Bool} {links : Nat} {parts : List String} {s : Spot}
    (h : Leads d follow links l parts s) (hgrow : d.Grows d') (hentry : d'.get? s.location = some e)
    (hnew : s.found = none → (∀ target, e ≠ .link target) ∧ (e.isDir = true ∨ s.wantsDir = false)) :
    Leads d' follow links l parts ⟨s.location, some e, false⟩ := by
  induction h with
  | here =>
    rw [← hentry]
    exact .here
  | idle hpart _ ih => exact .idle hpart (ih hentry hnew)
  | up _ ih => exact .up (ih hentry hnew)
  | missing hpart _ hrest =>
    obtain ⟨hlink, hkind⟩ := hnew rfl
    cases e with
    | dir m =>
      refine .down hpart hentry ?_
      rw [← hentry]
      exact leads_of_blank hrest
    | link target => exact absurd rfl (hlink target)
    | file m content =>
      obtain rfl : _ = [] := by simpa [Entry.isDir] using hkind
      exact .leaf hpart hentry rfl (by simp)
    | device m isFull =>
      obtain rfl : _ = [] := by simpa [Entry.isDir] using hkind
      exact .leaf hpart hentry rfl (by simp)
  | down hpart hdir _ ih => exact .down hpart (hgrow.dir hdir) (ih hentry hnew)
  | stop hpart hlink hfollow =>
    obtain rfl := Option.some.inj (hentry.symm.trans (hgrow.link hlink))
    exact .stop hpart hentry hfollow
  | jump hpart hlink hfollow _ ih =>
    exact .jump hpart (hgrow.link hlink) hfollow (ih hentry hnew)
  | leaf hpart hold hdir hlink =>
    obtain ⟨e', he', hw⟩ := hgrow.keeps hold
    obtain rfl := Option.some.inj (hentry.symm.trans he')
    refine .leaf hpart hentry (hw.isDir.trans hdir) ?_
    rintro target rfl
    exact hlink target hw.eq_link

end Disk

end Skeleton
