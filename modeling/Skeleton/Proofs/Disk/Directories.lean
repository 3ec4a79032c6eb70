import Mathlib.Logic.Relation
import Skeleton.Proofs.Disk.Operations

-- Directories that are made together with those on the way to them.

namespace Skeleton

open Relation (ReflTransGen)

-- A path itself, or one that it goes through.
def Path.LeadsUpTo (p q : Path) : Prop := ReflTransGen (fun a b => a.parent? = some b) p q

namespace Disk

-- Disks that differ by new directories on the way to a path.
structure Opens (d d' : Disk) (p : Path) : Prop where
  old : d.Extends d'
  new : ∀ l e, d'.get? l = some e → d.get? l = none →
    e = .newDir ∧ ∃ q, p.LeadsUpTo q ∧ d'.lookup q = .ok (l, .newDir)

section Opens

variable {d d' d'' : Disk} {p q : Path}

theorem Opens.refl (d : Disk) (p : Path) : d.Opens d p where
  old := .refl d
  new l e hl hnone := by
    rw [hl] at hnone
    cases hnone

theorem Opens.trans (h : d.Opens d' p) (h' : d'.Opens d'' p) : d.Opens d'' p where
  old := h.old.trans h'.old
  new l e hl hnone := by
    cases hmiddle : d'.get? l with
    | none => exact h'.new l e hl hmiddle
    | some e' =>
      obtain ⟨rfl, q, hq, hlookup⟩ := h.new l e' hmiddle hnone
      have hkept := h'.old.keeps hmiddle
      obtain rfl := Option.some.inj (hkept.symm.trans hl)
      exact ⟨rfl, q, hq, lookup_of_kept hlookup h'.old.grows hkept⟩

theorem Opens.below (h : d.Opens d' q) (hq : p.LeadsUpTo q) : d.Opens d' p where
  old := h.old
  new l e hl hnone := by
    obtain ⟨he, q', hq', hlookup⟩ := h.new l e hl hnone
    exact ⟨he, q', hq.trans hq', hlookup⟩

theorem Opens.plain (h : d.Opens d' p) (hd : d.Plain) : d'.Plain := by
  intro l e hl
  cases hold : d.get? l with
  | none =>
    obtain ⟨rfl, -⟩ := h.new l e hl hold
    rfl
  | some e' =>
    obtain rfl := Option.some.inj ((h.old.keeps hold).symm.trans hl)
    exact hd l e' hold

end Opens

end Disk

end Skeleton
