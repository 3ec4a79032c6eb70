import Skeleton.Blueprint.Basic
import Skeleton.Proofs.Yaml.RereadNodes

-- What the document of a value is read as. With the break at its end it is read as the value, and
-- without it as the value but for the breaks at the end of its last string.

namespace Skeleton

namespace Yaml

section Documents

variable {s : String} {v w : Value} {last : String → String}

-- What a text is read as whose node shows a value.
theorem ofText_eq_ok_iff_of_shows (hnumeric : v.Numeric) (hordered : v.Ordered)
    (hlast : ∀ s, styleOf s ≠ .literal → last s = s) (h : ∃ n, nodeOf s = .ok n ∧ Shows last v n) :
    Value.ofText s = .ok w ↔ v.depth ≤ maxDepth ∧ v.mapLast last = w := by
  obtain ⟨n, hnode, hshows⟩ := h
  have htree : treeOf s = ((Node.tree n (100 * n.size) maxDepth n).run 0).map Prod.fst := by
    rw [treeOf, hnode]
    rfl
  by_cases hdepth : v.depth ≤ maxDepth
  · obtain ⟨t, hgives, d, hdata, hvalue⟩ :=
      @becomesRead_of_shows n n (100 * n.size) _ _ _ hnumeric hordered hdepth hlast hshows
    have hread : Value.ofText s = .ok (v.mapLast last) := by
      rw [Value.ofText, dataOf, htree, hgives 0]
      show ((dataOfTree .root false t).mapError LoadError.notDecoded).mapError _ >>= _ = _
      rw [hdata]
      show (Value.ofData d).mapError _ = _
      rw [hvalue]
      rfl
    rw [hread, Except.ok.injEq, and_iff_right hdepth]
  · obtain ⟨e, he⟩ :=
      @refuses_of_shows n n (100 * n.size) maxDepth _ _ (Nat.lt_of_not_le hdepth) hshows 0
    have hread : Value.ofText s = .error (.unreadable (.notDocument e)) := by
      rw [Value.ofText, dataOf, htree, he]
      rfl
    rw [hread]
    simp [hdepth]

-- With the break at its end the document of a value is read as the value.
theorem ofText_write_eq_ok_iff (hnumeric : v.Numeric) (hordered : v.Ordered) :
    Value.ofText (write v) = .ok w ↔ v.depth ≤ maxDepth ∧ v = w := by
  have hnode := nodeOf_of_tokensOf (tokensOf_write v)
  rw [@ofText_eq_ok_iff_of_shows _ _ _ id hnumeric hordered (fun _ _ => rfl) hnode,
    Value.mapLast_id]

-- Without it the last string may be read as a shorter one.
theorem ofText_trimNewlines_eq_ok_iff (hnumeric : v.Numeric) (hordered : v.Ordered) :
    Value.ofText (Template.Filter.trimNewlines (write v)) = .ok w ↔
      v.depth ≤ maxDepth ∧ v.mapLast Follow.cut.kept = w := by
  refine ofText_eq_ok_iff_of_shows hnumeric hordered (fun s hs => ?_)
    (nodeOf_of_tokensOf (tokensOf_trimNewlines v))
  rw [Follow.kept, if_neg hs]

-- Strings that are shown as they are, over several lines, the last of which is empty.
def EndsOpen (s : String) : Prop := styleOf s = .literal ∧ s.toList.getLast? = some '\n'

theorem kept_cut_eq_self_iff : Follow.cut.kept s = s ↔ ¬ EndsOpen s := by
  rw [Follow.kept, EndsOpen, not_and]
  split
  · rename_i hstyle
    rw [← String.toList_inj, String.toList_ofList]
    constructor
    · intro hsame _ hlast
      rw [← hsame] at hlast
      exact absurd (Text.of_getLast?_dropEndWhile hlast) (by decide)
    · intro hlast
      refine Text.dropEndWhile_of_getLast? fun x hx => beq_false_of_ne ?_
      rintro rfl
      exact hlast hstyle hx
  · rename_i hstyle
    simp [hstyle]

end Documents

end Yaml

namespace Value

variable {v : Value}

-- The yaml filter gives a document that is read as the value if and only if the value does not end
-- with a string whose last break was cut off.
theorem ofText_serialize_iff (hnumeric : v.Numeric) (hordered : v.Ordered) :
    ∃ text, Template.Filter.yaml.serialize? v = some text ∧
      (ofText (Yaml.write v) = .ok v ↔ v.depth ≤ Yaml.maxDepth) ∧
      (∀ w, ofText text = .ok w ↔
        v.depth ≤ Yaml.maxDepth ∧ v.mapLast Yaml.Follow.cut.kept = w) ∧
      (ofText text = .ok v ↔
        v.depth ≤ Yaml.maxDepth ∧ ∀ s, v.lastString? = some s → ¬ Yaml.EndsOpen s) := by
  refine ⟨_, rfl, ?_, fun w => Yaml.ofText_trimNewlines_eq_ok_iff hnumeric hordered, ?_⟩
  · rw [Yaml.ofText_write_eq_ok_iff hnumeric hordered, and_iff_left rfl]
  · rw [Yaml.ofText_trimNewlines_eq_ok_iff hnumeric hordered, mapLast_eq_self_iff]
    simp only [Yaml.kept_cut_eq_self_iff]

-- A text of two lines before a text that reads like a truth value.
def memo : Value :=
  .mapping [("body", .string "one\ntwo\n"), ("tags", .sequence [.float (.zero true), .string "no"])]

theorem ofText_serialize_iff_memo : memo.Numeric ∧ memo.Ordered ∧
    ∃ text, Template.Filter.yaml.serialize? memo = some text ∧ ofText text = .ok memo := by
  have hnumeric : memo.Numeric := by
    simp only [memo, numeric_mapping_iff, numeric_sequence_iff, List.forall_mem_cons,
      numeric_float_iff]
    exact ⟨numeric_string _, ⟨by decide, numeric_string _, List.forall_mem_nil _⟩,
      List.forall_mem_nil _⟩
  have hordered : memo.Ordered := by
    simp only [memo, ordered_mapping_iff, ordered_sequence_iff, List.forall_mem_cons]
    refine ⟨?_, ordered_string _, ⟨ordered_float _, ordered_string _, List.forall_mem_nil _⟩,
      List.forall_mem_nil _⟩
    exact List.pairwise_pair.mpr (by decide +kernel)
  refine ⟨hnumeric, hordered, ?_⟩
  obtain ⟨text, htext, -, -, hread⟩ := ofText_serialize_iff hnumeric hordered
  refine ⟨text, htext, hread.mpr ⟨by decide, fun s hs => ?_⟩⟩
  obtain rfl : "no" = s := Option.some.inj hs
  exact fun hopen => absurd hopen.2 (by decide +kernel)

-- A scaffold whose directory has a name with a break at its end.
def crate : Value :=
  .mapping [("name", .string "t"), ("root", .mapping [("dir", .string "d\n")])]

theorem break_lost : crate.Numeric ∧
    Template.Filter.yaml.serialize? crate = some "name: t\nroot:\n  dir: |\n    d" ∧
    ofText "name: t\nroot:\n  dir: |\n    d" ≠ .ok crate := by
  refine ⟨?_, by cbv, fun hread => ?_⟩
  · simp only [crate, numeric_mapping_iff, List.forall_mem_cons]
    exact ⟨numeric_string _, ⟨numeric_string _, List.forall_mem_nil _⟩, List.forall_mem_nil _⟩
  · have hdiffer :
        (ofText "name: t\nroot:\n  dir: |\n    d").toOption.any (·.same crate) = false := by
      decide +kernel
    rw [hread] at hdiffer
    exact absurd hdiffer (by decide +kernel)

end Value

end Skeleton
