import Mathlib.Data.List.Basic
import Mathlib.Tactic.SplitIfs
import Skeleton.Proofs.Path

-- Paths that stay inside where they start, and what they lead to behind other paths.

namespace Skeleton.Path

variable {p q : Path} {part : String} {c : Component}

theorem component?_eq_some_iff : component? part = some c ↔
    (part = ".." ∧ c = .up) ∨ (IsPlain part ∧ c = .name part) := by
  constructor
  · intro h
    unfold component? at h
    split_ifs at h with hidle hup
    · exact .inl ⟨hup, (Option.some.inj h).symm⟩
    · exact .inr ⟨⟨by simpa using hidle, hup⟩, (Option.some.inj h).symm⟩
  · rintro (⟨rfl, rfl⟩ | ⟨hpart, rfl⟩)
    · rfl
    · exact component?_of_isPlain hpart

theorem components_cons (first : String) (rest : List String) :
    components ⟨first :: rest⟩ =
      (if isAbsolute ⟨first :: rest⟩ then [.root] else if first = "." then [.here]
        else (component? first).toList) ++ rest.filterMap component? := by
  simp only [components]
  split_ifs <;> rfl

-- What a relative path says besides a point in front is in its parts.
theorem mem_components_of_relative (h : p.isAbsolute = false) (hc : c ∈ p.components) :
    c = .here ∨ ∃ part ∈ p.parts, component? part = some c := by
  obtain ⟨parts⟩ := p
  cases parts with
  | nil => simp [components] at hc
  | cons first rest =>
    rw [components_cons, h, if_neg (by simp), List.mem_append] at hc
    rcases hc with hc | hc
    · split at hc
      · exact .inl (List.mem_singleton.mp hc)
      · exact .inr ⟨first, List.mem_cons_self, Option.mem_toList.mp hc⟩
    · obtain ⟨part, hpart, hc⟩ := List.mem_filterMap.mp hc
      exact .inr ⟨part, List.mem_cons_of_mem _ hpart, hc⟩

theorem up_mem_components (h : p.isAbsolute = false) (hup : ".." ∈ p.parts) :
    .up ∈ p.components := by
  obtain ⟨parts⟩ := p
  cases parts with
  | nil => cases hup
  | cons first rest =>
    rw [components_cons, h, if_neg (by simp), List.mem_append]
    rcases List.mem_cons.mp hup with rfl | hup
    · exact .inl (by decide)
    · exact .inr (List.mem_filterMap.mpr ⟨_, hup, rfl⟩)

theorem root_mem_components (h : p.isAbsolute = true) : .root ∈ p.components := by
  obtain ⟨parts⟩ := p
  cases parts with
  | nil => cases h
  | cons first rest => simp [components, h]

-- A path stays inside where no part of it leads up, and it does not start at the root.
theorem staysInside_iff : p.staysInside = true ↔ p.isAbsolute = false ∧ ".." ∉ p.parts := by
  have hall : p.staysInside = true ↔ ∀ c ∈ p.components, c ≠ .root ∧ c ≠ .up := by
    rw [staysInside, List.all_eq_true]
    refine forall₂_congr fun c hc => ?_
    cases c <;> simp
  rw [hall]
  constructor
  · intro h
    have hrelative : p.isAbsolute = false :=
      Bool.eq_false_iff.mpr fun habs => (h _ (root_mem_components habs)).1 rfl
    exact ⟨hrelative, fun hup => (h _ (up_mem_components hrelative hup)).2 rfl⟩
  · rintro ⟨hrelative, hup⟩ c hc
    rcases mem_components_of_relative hrelative hc with rfl | ⟨part, hpart, hc⟩
    · simp
    · rcases component?_eq_some_iff.mp hc with ⟨rfl, rfl⟩ | ⟨-, rfl⟩
      · exact absurd hpart hup
      · simp

theorem components_of_stem_eq_nil (h : p.stem = []) : p.components = [] := by
  obtain ⟨parts⟩ := p
  cases parts using List.reverseRecOn with
  | nil => rfl
  | append_singleton init last =>
    simp only [stem, List.getLast?_concat, List.dropLast_concat] at h
    split_ifs at h with hlast
    · obtain rfl := Option.some.inj hlast
      subst h
      rfl
    · simp at h

-- Behind a path another one says what it says alone, but for a point in front.
theorem components_join_of_relative (p : Path) (hq : q.isAbsolute = false) (hne : q.parts ≠ []) :
    (p.join q).components = p.components ++
      if p.stem = [] then q.components else q.parts.filterMap component? := by
  have hparts := parts_join p q
  rw [hq, if_neg (by simp)] at hparts
  cases hstem : p.stem with
  | nil =>
    rw [hstem, List.nil_append] at hparts
    have hjoin : p.join q = q := congrArg Path.mk hparts
    rw [hjoin, components_of_stem_eq_nil hstem]
    rfl
  | cons first rest =>
    obtain ⟨blank, hblank, hsplit⟩ := exists_parts_stem p
    have habs := isAbsolute_eq_stem p
    rw [hstem, List.cons_append] at hparts hsplit
    rw [hstem] at habs
    have hblanks : blank.filterMap component? = [] := by
      rw [List.filterMap_eq_nil_iff]
      intro part hpart
      rw [hblank part hpart]
      rfl
    have hjoin : p.join q = ⟨first :: (rest ++ q.parts)⟩ := congrArg Path.mk hparts
    have hp : p = ⟨first :: (rest ++ blank)⟩ := congrArg Path.mk hsplit
    have habs' : isAbsolute ⟨first :: (rest ++ q.parts)⟩ = p.isAbsolute := by
      have hlength := List.length_pos_iff.mpr hne
      have hlong : 1 < rest.length + q.parts.length + 1 := by omega
      rw [habs]
      simp [isAbsolute, hlong]
    rw [hjoin, components_cons, habs', hp, components_cons]
    simp [List.filterMap_append, hblanks]

theorem exists_components_join (p : Path) (hinside : q.staysInside = true) (hne : q.parts ≠ []) :
    ∃ below, (p.join q).components = p.components ++ below ∧
      ∀ c ∈ below, c = .here ∨ ∃ name ∈ q.parts, IsPlain name ∧ c = .name name := by
  obtain ⟨hrelative, hup⟩ := staysInside_iff.mp hinside
  have hname : ∀ part ∈ q.parts, ∀ c, component? part = some c →
      ∃ name ∈ q.parts, IsPlain name ∧ c = .name name := by
    intro part hpart c hc
    rcases component?_eq_some_iff.mp hc with ⟨rfl, rfl⟩ | ⟨hplain, rfl⟩
    · exact absurd hpart hup
    · exact ⟨part, hpart, hplain, rfl⟩
  refine ⟨_, components_join_of_relative p hrelative hne, fun c hc => ?_⟩
  split at hc
  · rcases mem_components_of_relative hrelative hc with hhere | ⟨part, hpart, hc⟩
    · exact .inl hhere
    · exact .inr (hname part hpart c hc)
  · obtain ⟨part, hpart, hc⟩ := List.mem_filterMap.mp hc
    exact .inr (hname part hpart c hc)

end Skeleton.Path
