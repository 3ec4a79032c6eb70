import Skeleton.Disk.Lookup
import Skeleton.Proofs.Disk.Entries

-- The ways that a walk can succeed, and what they have in common.

namespace Skeleton.Disk

structure IsName (part : String) : Prop where
  notIdle : Path.isIdle part = false
  notUp : part ≠ ".."
  fits : part.utf8ByteSize ≤ maxName

theorem IsName.ne_empty {part : String} (h : IsName part) : part ≠ "" := by
  rintro rfl
  have hidle := h.notIdle
  simp [Path.isIdle] at hidle

-- A name stands before the last slashes of a path.
theorem IsName.exists_stem {part : String} (h : IsName part) {stem blank rest : List String}
    (hparts : stem ++ blank = part :: rest) (hblank : ∀ p ∈ blank, p = "") :
    ∃ stem', stem = part :: stem' ∧ rest = stem' ++ blank := by
  rcases List.append_eq_cons_iff.mp hparts with ⟨-, rfl⟩ | hstem
  · exact absurd (hblank part List.mem_cons_self) h.ne_empty
  · exact hstem

-- One rule for each way in which `walk` goes on or ends with a spot.
inductive Leads (d : Disk) (follow : Bool) : Nat → Location → List String → Spot → Prop where
  | here {links l} : Leads d follow links l [] ⟨l, d.get? l, false⟩
  | idle {links l part rest s} (hpart : Path.isIdle part = true)
      (hrest : Leads d follow links l rest s) : Leads d follow links l (part :: rest) s
  | up {links l rest s} (hrest : Leads d follow links l.dropLast rest s) :
      Leads d follow links l (".." :: rest) s
  | missing {links l part rest} (hpart : IsName part) (hentry : d.get? (l ++ [part]) = none)
      (hrest : ∀ p ∈ rest, p = "") :
      Leads d follow links l (part :: rest) ⟨l ++ [part], none, !rest.isEmpty⟩
  | down {links l part rest s m} (hpart : IsName part)
      (hentry : d.get? (l ++ [part]) = some (.dir m))
      (hrest : Leads d follow links (l ++ [part]) rest s) :
      Leads d follow links l (part :: rest) s
  | stop {links l part target} (hpart : IsName part)
      (hentry : d.get? (l ++ [part]) = some (.link target)) (hfollow : follow = false) :
      Leads d follow links l [part] ⟨l ++ [part], some (.link target), false⟩
  | jump {links l part rest s target} (hpart : IsName part)
      (hentry : d.get? (l ++ [part]) = some (.link target))
      (hfollow : rest = [] → follow = true)
      (hrest : Leads d follow links (if target.isAbsolute then [] else l)
        (target.parts ++ rest) s) :
      Leads d follow (links + 1) l (part :: rest) s
  | leaf {links l part e} (hpart : IsName part) (hentry : d.get? (l ++ [part]) = some e)
      (hdir : e.isDir = false) (hlink : ∀ target, e ≠ .link target) :
      Leads d follow links l [part] ⟨l ++ [part], some e, false⟩

section

variable {d : Disk} {follow : Bool} {links : Nat} {l : Location} {parts : List String} {s : Spot}

-- The path of a link starts in a directory too.
theorem IsDirAt.atLink (h : d.IsDirAt l) (target : Path) :
    d.IsDirAt (if target.isAbsolute then [] else l) := by
  split
  · exact isDirAt_nil d
  · exact h

theorem leads_of_walk (h : walk d follow links l parts = .ok s) :
    Leads d follow links l parts s := by
  fun_induction walk d follow links l parts with
  | case1 =>
    cases h
    exact .here
  | case2 links l part rest hidle ih => exact .idle hidle (ih h)
  | case3 links l rest _ ih => exact .up (ih h)
  | case4 => cases h
  | case5 links l part rest hidle hup hlong here hentry hrest =>
    cases h
    refine .missing ⟨by simpa using hidle, hup, by omega⟩ hentry ?_
    simpa using hrest
  | case6 => cases h
  | case7 links l part rest hidle hup hlong here m hentry ih =>
    exact .down ⟨by simpa using hidle, hup, by omega⟩ hentry (ih h)
  | case8 links l part rest hidle hup hlong here target hentry hend =>
    cases h
    obtain ⟨hrest, hfollow⟩ : rest = [] ∧ follow = false := by simpa using hend
    subst hrest
    exact .stop ⟨by simpa using hidle, hup, by omega⟩ hentry hfollow
  | case9 => cases h
  | case10 l part rest hidle hup hlong here target hentry hend links ih =>
    refine .jump ⟨by simpa using hidle, hup, by omega⟩ hentry ?_ (ih h)
    simpa using hend
  | case11 links l part rest hidle hup hlong here e hdir hlink hentry hend =>
    cases h
    obtain rfl : rest = [] := by simpa using hend
    refine .leaf ⟨by simpa using hidle, hup, by omega⟩ hentry ?_ hlink
    cases e <;> simp_all [Entry.isDir]
  | case12 => cases h

theorem walk_of_leads (h : Leads d follow links l parts s) :
    walk d follow links l parts = .ok s := by
  induction h with
  | here => simp [walk]
  | idle hpart hrest ih => simp [walk, hpart, ih]
  | up hrest ih => simp [walk, ih, Path.isIdle]
  | missing hpart hentry hrest =>
    simp [walk, hpart.notIdle, hpart.notUp, hentry, Nat.not_lt.mpr hpart.fits]
    exact hrest
  | down hpart hentry hrest ih =>
    simp [walk, hpart.notIdle, hpart.notUp, hentry, Nat.not_lt.mpr hpart.fits, ih]
  | stop hpart hentry hfollow =>
    simp [walk, hpart.notIdle, hpart.notUp, hentry, Nat.not_lt.mpr hpart.fits, hfollow]
  | jump hpart hentry hfollow hrest ih =>
    simp [walk, hpart.notIdle, hpart.notUp, hentry, Nat.not_lt.mpr hpart.fits, ih]
    intro hend hstop
    simp [hfollow hend] at hstop
  | @leaf links l part e hpart hentry hdir hlink =>
    cases e with
    | dir m => cases hdir
    | link target => exact absurd rfl (hlink target)
    | file m content => simp [walk, hpart.notIdle, hpart.notUp, hentry, Nat.not_lt.mpr hpart.fits]
    | device m isFull => simp [walk, hpart.notIdle, hpart.notUp, hentry, Nat.not_lt.mpr hpart.fits]

-- A spot says what stands at its location, which is in a directory.
theorem Leads.spot (h : Leads d follow links l parts s) (hl : d.IsDirAt l) :
    s.found = d.get? s.location ∧ d.IsDirAt s.location.dropLast := by
  induction h with
  | here => exact ⟨rfl, hl.dropLast⟩
  | idle _ _ ih => exact ih hl
  | up _ ih => exact ih hl.dropLast
  | missing _ hentry _ => exact ⟨hentry.symm, by simpa using hl⟩
  | down _ hentry _ ih => exact ih ⟨_, hentry⟩
  | stop _ hentry _ => exact ⟨hentry.symm, by simpa using hl⟩
  | jump _ _ _ _ ih => exact ih (hl.atLink _)
  | leaf _ hentry _ _ => exact ⟨hentry.symm, by simpa using hl⟩

-- Without a link at the end it does not matter whether it would be followed.
theorem Leads.followed (h : Leads d false links l parts s)
    (hlink : ∀ target, s.found ≠ some (.link target)) : Leads d true links l parts s := by
  induction h with
  | here => exact .here
  | idle hpart _ ih => exact .idle hpart (ih hlink)
  | up _ ih => exact .up (ih hlink)
  | missing hpart hentry hrest => exact .missing hpart hentry hrest
  | down hpart hentry _ ih => exact .down hpart hentry (ih hlink)
  | stop => exact absurd rfl (hlink _)
  | jump hpart hentry _ _ ih => exact .jump hpart hentry (fun _ => rfl) (ih hlink)
  | leaf hpart hentry hdir hnone => exact .leaf hpart hentry hdir hnone

theorem Leads.unfollowed (h : Leads d true links l parts s) :
    Leads d false links l parts s ∨
      ∃ k target, Leads d false links l parts ⟨k, some (.link target), false⟩ := by
  induction h with
  | here => exact .inl .here
  | idle hpart _ ih =>
    rcases ih with h | ⟨k, target, h⟩
    · exact .inl (.idle hpart h)
    · exact .inr ⟨k, target, .idle hpart h⟩
  | up _ ih =>
    rcases ih with h | ⟨k, target, h⟩
    · exact .inl (.up h)
    · exact .inr ⟨k, target, .up h⟩
  | missing hpart hentry hrest => exact .inl (.missing hpart hentry hrest)
  | down hpart hentry _ ih =>
    rcases ih with h | ⟨k, target, h⟩
    · exact .inl (.down hpart hentry h)
    · exact .inr ⟨k, target, .down hpart hentry h⟩
  | stop _ _ hstop => cases hstop
  | @jump links l part rest s target hpart hentry _ _ ih =>
    by_cases hrest : rest = []
    · subst hrest
      exact .inr ⟨l ++ [part], target, .stop hpart hentry rfl⟩
    · rcases ih with h | ⟨k, target', h⟩
      · exact .inl (.jump hpart hentry (absurd · hrest) h)
      · exact .inr ⟨k, target', .jump hpart hentry (absurd · hrest) h⟩
  | leaf hpart hentry hdir hlink => exact .inl (.leaf hpart hentry hdir hlink)

-- Slashes behind what is missing make no difference.
theorem Leads.append_blank {blank : List String} (h : Leads d false links l parts s)
    (hl : d.IsDirAt l) (hnone : s.found = none) (hblank : ∀ p ∈ blank, p = "") :
    ∃ slash, Leads d false links l (parts ++ blank) ⟨s.location, none, slash⟩ := by
  induction h with
  | here =>
    obtain ⟨m, hm⟩ := hl
    simp [hm] at hnone
  | idle hpart _ ih =>
    obtain ⟨slash, hrest⟩ := ih hl hnone
    exact ⟨slash, .idle hpart hrest⟩
  | up _ ih =>
    obtain ⟨slash, hrest⟩ := ih hl.dropLast hnone
    exact ⟨slash, .up hrest⟩
  | missing hpart hentry hrest =>
    refine ⟨_, .missing hpart hentry fun p hp => ?_⟩
    rcases List.mem_append.mp hp with hp | hp
    · exact hrest p hp
    · exact hblank p hp
  | down hpart hentry _ ih =>
    obtain ⟨slash, hrest⟩ := ih ⟨_, hentry⟩ hnone
    exact ⟨slash, .down hpart hentry hrest⟩
  | stop => cases hnone
  | @jump links l part rest s target hpart hentry hfollow _ ih =>
    obtain ⟨slash, hrest⟩ := ih (hl.atLink target) hnone
    rw [List.append_assoc] at hrest
    refine ⟨slash, .jump hpart hentry (fun hnil => hfollow ?_) hrest⟩
    exact (List.append_eq_nil_iff.mp hnil).1
  | leaf => cases hnone

-- Without its last slashes a path still leads to something.
theorem Leads.of_append_blank {stem blank : List String}
    (h : Leads d follow links l (stem ++ blank) s) (hblank : ∀ p ∈ blank, p = "")
    (hl : d.IsDirAt l) (hsome : s.found.isSome = true) :
    ∃ s', Leads d false links l stem s' ∧ s'.found.isSome = true := by
  generalize hparts : stem ++ blank = parts at h
  induction h generalizing stem with
  | here =>
    obtain ⟨rfl, -⟩ := List.append_eq_nil_iff.mp hparts
    exact ⟨_, .here, hsome⟩
  | @idle _ l _ _ _ hpart _ ih =>
    cases stem with
    | nil =>
      obtain ⟨m, hm⟩ := hl
      exact ⟨_, .here, by simp [hm]⟩
    | cons first stem =>
      obtain ⟨rfl, rfl⟩ := List.cons.inj hparts
      obtain ⟨s', hleads, hfound⟩ := ih hl hsome rfl
      exact ⟨s', .idle hpart hleads, hfound⟩
  | up _ ih =>
    cases stem with
    | nil =>
      obtain ⟨m, hm⟩ := hl
      exact ⟨_, .here, by simp [hm]⟩
    | cons first stem =>
      obtain ⟨rfl, rfl⟩ := List.cons.inj hparts
      obtain ⟨s', hleads, hfound⟩ := ih hl.dropLast hsome rfl
      exact ⟨s', .up hleads, hfound⟩
  | missing => cases hsome
  | down hpart hentry _ ih =>
    obtain ⟨stem, rfl, rfl⟩ := hpart.exists_stem hparts hblank
    obtain ⟨s', hleads, hfound⟩ := ih ⟨_, hentry⟩ hsome rfl
    exact ⟨s', .down hpart hentry hleads, hfound⟩
  | stop hpart hentry _ =>
    obtain ⟨stem, rfl, hnil⟩ := hpart.exists_stem hparts hblank
    obtain ⟨rfl, -⟩ := List.append_eq_nil_iff.mp hnil.symm
    exact ⟨_, .stop hpart hentry rfl, rfl⟩
  | @jump _ l _ _ _ target hpart hentry _ _ ih =>
    obtain ⟨stem, rfl, rfl⟩ := hpart.exists_stem hparts hblank
    by_cases hstem : stem = []
    · subst hstem
      exact ⟨_, .stop hpart hentry rfl, rfl⟩
    · obtain ⟨s', hleads, hfound⟩ :=
        @ih (target.parts ++ stem) (hl.atLink target) hsome (List.append_assoc ..)
      exact ⟨s', .jump hpart hentry (absurd · hstem) hleads, hfound⟩
  | leaf hpart hentry hdir hlink =>
    obtain ⟨stem, rfl, hnil⟩ := hpart.exists_stem hparts hblank
    obtain ⟨rfl, -⟩ := List.append_eq_nil_iff.mp hnil.symm
    exact ⟨_, .leaf hpart hentry hdir hlink, rfl⟩

-- Where a path leads to a directory, what stands behind it but for its last slashes goes on there.
theorem Leads.descend {stem blank rest : List String} {s' : Spot} {m : Mode}
    (h : Leads d true links l (stem ++ blank) s) (hblank : ∀ p ∈ blank, p = "")
    (hdir : s.found = some (.dir m)) (hne : rest ≠ [])
    (hrest : ∀ links, Leads d follow links s.location rest s') :
    Leads d follow links l (stem ++ rest) s' := by
  generalize hparts : stem ++ blank = parts at h
  induction h generalizing stem blank with
  | here =>
    obtain ⟨rfl, -⟩ := List.append_eq_nil_iff.mp hparts
    exact hrest _
  | idle hpart _ ih =>
    cases stem with
    | nil =>
      subst hparts
      exact @ih [] _ (fun p hp => hblank p (List.mem_cons_of_mem _ hp)) hdir hrest rfl
    | cons first stem =>
      obtain ⟨rfl, rfl⟩ := List.cons.inj hparts
      exact .idle hpart (ih hblank hdir hrest rfl)
  | up _ ih =>
    cases stem with
    | nil =>
      obtain rfl : blank = ".." :: _ := hparts
      exact absurd (hblank ".." List.mem_cons_self) (by decide)
    | cons first stem =>
      obtain ⟨rfl, rfl⟩ := List.cons.inj hparts
      exact .up (ih hblank hdir hrest rfl)
  | missing => cases hdir
  | down hpart hentry _ ih =>
    obtain ⟨stem, rfl, rfl⟩ := hpart.exists_stem hparts hblank
    exact .down hpart hentry (ih hblank hdir hrest rfl)
  | stop => cases hdir
  | jump hpart hentry _ _ ih =>
    obtain ⟨stem, rfl, rfl⟩ := hpart.exists_stem hparts hblank
    have hbehind := @ih (_ ++ stem) _ hblank hdir hrest (List.append_assoc ..)
    rw [List.append_assoc] at hbehind
    refine .jump hpart hentry (fun hnil => absurd ?_ hne) hbehind
    exact (List.append_eq_nil_iff.mp hnil).2
  | leaf _ _ hkind =>
    cases hdir
    cases hkind

-- Names lead down through directories to where nothing stands.
theorem leads_of_names {names : List String} {name : String} (hnames : ∀ n ∈ names, IsName n)
    (hname : IsName name) (hdir : d.IsDirAt (l ++ names))
    (hfree : d.get? (l ++ names ++ [name]) = none) :
    Leads d follow links l (names ++ [name]) ⟨l ++ names ++ [name], none, false⟩ := by
  induction names generalizing l with
  | nil =>
    rw [List.append_nil] at hfree ⊢
    exact .missing hname hfree (by simp)
  | cons first rest ih =>
    rw [List.append_cons l first rest] at hdir hfree ⊢
    obtain ⟨m, hm⟩ := hdir.of_prefix (List.prefix_append ..)
    have hrest := ih (fun n hn => hnames n (List.mem_cons_of_mem _ hn)) hdir hfree
    exact .down (hnames first List.mem_cons_self) hm hrest

end

end Skeleton.Disk
