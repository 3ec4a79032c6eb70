import Skeleton.Proofs.Except
import Skeleton.Yaml.Untyped

-- What stands in documents. The keys of every mapping in a document that is read differ from each
-- other.

namespace Skeleton.Yaml

namespace Data

variable {items : List Data} {entries : List (Data × Data)}

-- A part of a document, at any depth. What has a tag is one part, and so is a key.
inductive Contains : Data → Data → Prop
  | self (d : Data) : Contains d d
  | item {items : List Data} {item part : Data} (hmem : item ∈ items) (h : Contains item part) :
      Contains (.sequence items) part
  | value {entries : List (Data × Data)} {key value part : Data} (hmem : (key, value) ∈ entries)
      (h : Contains value part) : Contains (.mapping entries) part

def Distinct (d : Data) : Prop :=
  ∀ entries, d.Contains (.mapping entries) → entries.Pairwise fun x y => y.1.same x.1 = false

theorem distinct_sequence (h : ∀ item ∈ items, item.Distinct) : (sequence items).Distinct := by
  intro entries hpart
  cases hpart with
  | item hmem hpart => exact h _ hmem entries hpart

theorem distinct_mapping (hkeys : entries.Pairwise fun x y => y.1.same x.1 = false)
    (h : ∀ entry ∈ entries, entry.2.Distinct) : (mapping entries).Distinct := by
  intro inner hpart
  cases hpart with
  | self => exact hkeys
  | value hmem hpart => exact h _ hmem inner hpart

theorem distinct_tagged (tag : String) (content : Data) : (tagged tag content).Distinct := by
  intro entries hpart
  cases hpart

end Data

section Loading

variable {tagged : Bool} {tag : Option String} {d : Data}

theorem distinct_of_withTag {content : Option String → Except DecodeError Data}
    (hcontent : ∀ tag d, content tag = .ok d → d.Distinct)
    (h : withTag tagged tag content = .ok d) :
    d.Distinct := by
  unfold withTag at h
  split at h
  · exact hcontent _ _ h
  · split at h
    · exact hcontent _ _ h
    · split at h
      · cases h
      · obtain ⟨inner, -, rfl⟩ := map_eq_ok_iff.mp h
        exact Data.distinct_tagged _ _

theorem distinct_of_dataOfScalar {style : ScalarStyle} {s : String}
    (h : dataOfScalar tag style s = .ok d) : d.Distinct := by
  obtain ⟨found, -, h⟩ := bind_eq_ok_iff.mp h
  cases found with
  | mapping =>
    obtain rfl := Except.ok.inj h
    exact Data.distinct_mapping .nil (List.forall_mem_nil _)
  | sequence =>
    obtain rfl := Except.ok.inj h
    exact Data.distinct_sequence (List.forall_mem_nil _)
  | integer n =>
    simp only at h
    split at h
    · obtain rfl := Except.ok.inj h
      intro entries hpart
      cases hpart
    · cases h
  | _ =>
    obtain rfl := Except.ok.inj h
    intro entries hpart
    cases hpart

mutual

theorem distinct_of_dataOfTree {path : DocumentPath} {tagged : Bool} {d : Data} :
    ∀ tree : Tree, dataOfTree path tagged tree = .ok d → d.Distinct
  | .alias _ target, h => distinct_of_dataOfTree target h
  | .scalar _ _ _ _, h => by
    rw [dataOfTree] at h
    exact distinct_of_withTag (fun _ _ => distinct_of_dataOfScalar) (mapError_eq_ok_iff.mp h)
  | .sequence _ _ items, h => by
    rw [dataOfTree] at h
    refine distinct_of_withTag (fun _ d hd => ?_) (mapError_eq_ok_iff.mp h)
    obtain ⟨ds, hds, rfl⟩ := map_eq_ok_iff.mp hd
    exact Data.distinct_sequence (distinct_of_dataOfItems items hds)
  | .mapping _ _ entries, h => by
    rw [dataOfTree] at h
    refine distinct_of_withTag (fun _ d hd => ?_) (mapError_eq_ok_iff.mp h)
    obtain ⟨ds, hds, rfl⟩ := map_eq_ok_iff.mp hd
    obtain ⟨hkeys, hvalues⟩ :=
      distinct_of_dataOfEntries entries .nil (List.forall_mem_nil _) hds
    exact Data.distinct_mapping hkeys hvalues

theorem distinct_of_dataOfItems {path : DocumentPath} {index : Nat} {ds : List Data} :
    ∀ items : List Tree, dataOfItems path index items = .ok ds → ∀ d ∈ ds, d.Distinct
  | [], h => by
    obtain rfl := Except.ok.inj h
    exact List.forall_mem_nil _
  | item :: rest, h => by
    rw [dataOfItems] at h
    obtain ⟨x, hx, h⟩ := bind_eq_ok_iff.mp h
    obtain ⟨xs, hxs, h⟩ := bind_eq_ok_iff.mp h
    obtain rfl := Except.ok.inj h
    exact List.forall_mem_cons.mpr
      ⟨distinct_of_dataOfTree item hx, distinct_of_dataOfItems rest hxs⟩

-- A key that is there already is refused.
theorem distinct_of_dataOfEntries {path : DocumentPath} {tagged : Bool}
    {done ds : List (Data × Data)} : ∀ entries : List (Tree × Tree),
    done.Pairwise (fun x y => y.1.same x.1 = false) → (∀ entry ∈ done, entry.2.Distinct) →
    dataOfEntries path tagged done entries = .ok ds →
      ds.Pairwise (fun x y => y.1.same x.1 = false) ∧ ∀ entry ∈ ds, entry.2.Distinct
  | [], hkeys, hvalues, h => by
    obtain rfl := Except.ok.inj h
    exact ⟨hkeys, hvalues⟩
  | (key, value) :: rest, hkeys, hvalues, h => by
    rw [dataOfEntries] at h
    obtain ⟨k, -, h⟩ := bind_eq_ok_iff.mp h
    split at h
    · cases h
    · rename_i hnew
      obtain ⟨v, hv, h⟩ := bind_eq_ok_iff.mp h
      refine distinct_of_dataOfEntries rest ?_ ?_ h
      · refine List.pairwise_append.mpr ⟨hkeys, List.pairwise_singleton _ _, ?_⟩
        intro x hx y hy
        obtain rfl := List.mem_singleton.mp hy
        simpa using fun hsame => hnew (List.any_eq_true.mpr ⟨x, hx, hsame⟩)
      · intro entry hentry
        rcases List.mem_append.mp hentry with hentry | hentry
        · exact hvalues entry hentry
        · obtain rfl := List.mem_singleton.mp hentry
          exact distinct_of_dataOfTree value hv

end

theorem distinct_of_dataOf {s : String} (h : dataOf s = .ok d) : d.Distinct := by
  unfold dataOf at h
  split at h
  · cases h
  · exact distinct_of_dataOfTree _ (mapError_eq_ok_iff.mp h)

end Loading

end Skeleton.Yaml
