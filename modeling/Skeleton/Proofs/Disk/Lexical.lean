import Skeleton.Proofs.Disk.Operations
import Skeleton.Proofs.Path

-- Where paths lead on disks without links. The path and the working directory tell it.

namespace Skeleton.Disk

-- Goes along the parts of a path as if there were no links and nothing was missing.
def locate (l : Location) : List String → Location
  | [] => l
  | part :: rest =>
    if Path.isIdle part then locate l rest
    else if part = ".." then locate l.dropLast rest
    else locate (l ++ [part]) rest

def place (d : Disk) (p : Path) : Location := locate (d.start p) p.parts

variable {d d' : Disk} {p : Path} {l : Location} {s : Spot}

theorem locate_append (l : Location) (parts rest : List String) :
    locate l (parts ++ rest) = locate (locate l parts) rest := by
  induction parts generalizing l with
  | nil => rfl
  | cons part parts ih =>
    simp only [List.cons_append, locate]
    split
    · exact ih l
    · split
      · exact ih l.dropLast
      · exact ih (l ++ [part])

theorem locate_of_plain {names : List String} (h : ∀ n ∈ names, Path.IsPlain n) (l : Location) :
    locate l names = l ++ names := by
  induction names generalizing l with
  | nil => simp [locate]
  | cons name rest ih =>
    have hname := h name List.mem_cons_self
    have hrest := ih fun n hn => h n (List.mem_cons_of_mem _ hn)
    rw [locate, hname.notIdle, if_neg Bool.false_ne_true, if_neg hname.notUp, hrest,
      List.append_assoc, List.singleton_append]

theorem locate_of_blank {parts : List String} (h : ∀ p ∈ parts, p = "") (l : Location) :
    locate l parts = l := by
  induction parts with
  | nil => rfl
  | cons part rest ih =>
    obtain rfl := h part List.mem_cons_self
    exact ih fun p hp => h p (List.mem_cons_of_mem _ hp)

theorem IsName.locate_cons {part : String} (h : IsName part) (l : Location) (rest : List String) :
    locate l (part :: rest) = locate (l ++ [part]) rest := by
  rw [locate, h.notIdle, if_neg Bool.false_ne_true, if_neg h.notUp]

theorem Leads.location_of_linkFree {follow : Bool} {links : Nat} {parts : List String}
    (h : Leads d follow links l parts s) (hd : d.LinkFree) : s.location = locate l parts := by
  induction h with
  | here => rfl
  | idle hpart _ ih => rw [ih, locate, if_pos hpart]
  | up _ ih => rw [ih, locate, if_neg (by simp [Path.isIdle]), if_pos rfl]
  | missing hpart _ hrest => rw [hpart.locate_cons, locate_of_blank hrest]
  | down hpart _ _ ih => rw [ih, hpart.locate_cons]
  | stop _ hentry => exact absurd hentry (hd _ _)
  | jump _ hentry => exact absurd hentry (hd _ _)
  | leaf hpart => exact (hpart.locate_cons _ []).symm

theorem find_location {follow : Bool} (hd : d.LinkFree) (h : d.find follow p = .ok s) :
    s.location = d.place p := by
  obtain ⟨-, -, hleads⟩ := find_eq_ok_iff.mp h
  exact hleads.location_of_linkFree hd

theorem lookup_location {e : Entry} (hd : d.LinkFree) (h : d.lookup p = .ok (l, e)) :
    l = d.place p := by
  obtain ⟨s, hfind, rfl, -⟩ := lookup_eq_ok_iff.mp h
  exact find_location hd hfind

theorem place_congr (hcwd : d'.cwd = d.cwd) (p : Path) : d'.place p = d.place p := by
  simp only [place, start, hcwd]

-- Below one path different names lead to different places.
theorem exists_place_descend (d : Disk) (root base : Path) :
    ∃ l, ∀ names, names ≠ [] → (∀ n ∈ names, Path.IsPlain n) →
      d.place (root.join (base.descend names)) = l ++ names := by
  obtain ⟨above, hparts⟩ := Path.exists_parts_join_descend root base
  refine ⟨locate (if above.head? = some "" then [] else d.cwd) above, fun names hne h => ?_⟩
  have habsolute := Path.isAbsolute_of_plain (hparts names hne h) h hne
  simp only [place, start, habsolute, hparts names hne h, decide_eq_true_eq]
  rw [locate_append, locate_of_plain h]

end Skeleton.Disk
