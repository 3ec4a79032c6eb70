import Skeleton.Proofs.Path

-- Paths with another name at their end.

namespace Skeleton.Path

variable {p : Path} {name : String} {front : List String}

theorem join_ofName_of_concat (hp : p.parts = front ++ [name]) :
    (Path.mk (front ++ [""])).join (.ofName name) = p := by
  have hparts := parts_join_ofName ⟨front ++ [""]⟩ name
  have hstem : (Path.mk (front ++ [""])).stem = front := by simp [stem]
  rw [hstem, ← hp] at hparts
  exact congrArg Path.mk hparts

theorem fileName?_of_concat (hp : p.parts = front ++ [name]) (hname : IsPlain name) :
    p.fileName? = some name := by
  rw [fileName?, ← join_ofName_of_concat hp, components_join _ hname, List.getLast?_concat]

-- What stands in front of the name, but for what does not count right before it, is what the
-- other name is put behind.
theorem exists_parent_stem (hp : p.parts = front ++ [name]) (hname : IsPlain name) :
    ∃ dir idle, p.parent? = some dir ∧ front = dir.stem ++ idle ∧
      (∀ part ∈ idle, isIdle part = true) ∧ dir.stem.head? = front.head? := by
  obtain ⟨parts⟩ := p
  obtain rfl : parts = front ++ [name] := hp
  cases front with
  | nil =>
    have hparent : (Path.mk [name]).parent? = some empty := by
      simp [parent?, cutLast, Text.dropEndWhile, hname.ne_empty]
    exact ⟨empty, [], hparent, rfl, List.forall_mem_nil _, rfl⟩
  | cons first mid =>
    obtain ⟨idle, hidle, hmid⟩ := Text.exists_dropEndWhile_append isIdle mid
    have hcut := cutLast_concat mid hname.notIdle
    cases hkept : Text.dropEndWhile isIdle mid with
    | nil =>
      rw [hkept, List.nil_append] at hmid
      subst hmid
      by_cases hfirst : first = ""
      · subst hfirst
        refine ⟨root, mid, ?_, rfl, hidle, rfl⟩
        simp [parent?, hcut, hkept, isAbsolute]
      · have hstem : (Path.mk [first]).stem = [first] := by simp [stem, hfirst]
        refine ⟨⟨[first]⟩, mid, ?_, ?_, hidle, ?_⟩
        · simp [parent?, hcut, hkept, isAbsolute, hfirst]
        · rw [hstem, List.singleton_append]
        · rw [hstem]
          rfl
    | cons second kept =>
      -- the last part that was kept is not a slash
      have hstem : (Path.mk (first :: second :: kept)).stem = first :: second :: kept := by
        refine if_neg fun hlast => ?_
        rw [List.getLast?_cons_cons, ← hkept] at hlast
        have hcounts := Text.of_getLast?_dropEndWhile hlast
        simp [isIdle] at hcounts
      refine ⟨⟨first :: second :: kept⟩, idle, ?_, ?_, hidle, ?_⟩
      · simp [parent?, hcut, hkept]
      · rw [hstem, hmid, hkept]
        rfl
      · rw [hstem]
        rfl

theorem exists_parts_withFileName (hp : p.parts = front ++ [name]) (hname : IsPlain name) :
    ∃ stem idle, front = stem ++ idle ∧ (∀ part ∈ idle, isIdle part = true) ∧
      stem.head? = front.head? ∧ ∀ new, (p.withFileName new).parts = stem ++ [new] := by
  have hfile : p.fileName?.isSome = true := by
    rw [fileName?_of_concat hp hname]
    rfl
  obtain ⟨dir, idle, hdir, hfront, hidle, hhead⟩ := exists_parent_stem hp hname
  refine ⟨dir.stem, idle, hfront, hidle, hhead, fun new => ?_⟩
  rw [withFileName, if_pos hfile, hdir, Option.getD_some, parts_join_ofName]

end Skeleton.Path
