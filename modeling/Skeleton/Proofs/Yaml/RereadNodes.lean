import Skeleton.Proofs.Value.Conversion
import Skeleton.Proofs.Value.LastString
import Skeleton.Proofs.Yaml.NumberMeanings
import Skeleton.Proofs.Yaml.WrittenNodes

-- What the nodes of a written document are read as.

namespace Skeleton.Yaml

section Trees

variable {α β : Type} {root : Node} {limit depth : Nat} {xs : List α} {ys : List β}

-- That a step gives a result, or none, with any number of aliases before it.
def Expanding.Gives (x : Expanding α) (a : α) : Prop := ∀ k, x.run k = .ok (a, k)

def Expanding.Refuses (x : Expanding α) : Prop := ∀ k, ∃ e, x.run k = .error e

theorem Expanding.Gives.bind {x : Expanding α} {f : α → Expanding β} {a : α} {b : β}
    (hx : x.Gives a) (hf : (f a).Gives b) : Expanding.Gives (x >>= f) b := by
  intro k
  rw [StateT.run_bind, hx k]
  exact hf k

theorem Expanding.gives_pure (a : α) : Expanding.Gives (pure a) a := fun _ => rfl

theorem Expanding.Refuses.bind {x : Expanding α} {f : α → Expanding β} (hx : x.Refuses) :
    Expanding.Refuses (x >>= f) := by
  intro k
  obtain ⟨e, he⟩ := hx k
  exact ⟨e, by rw [StateT.run_bind, he]; rfl⟩

-- A step refuses if what it goes on with does.
theorem Expanding.refuses_bind {x : Expanding α} {f : α → Expanding β}
    (hf : ∀ a, (f a).Refuses) : Expanding.Refuses (x >>= f) := by
  intro k
  rw [StateT.run_bind]
  cases x.run k with
  | error e => exact ⟨e, rfl⟩
  | ok result => exact hf result.1 result.2

theorem Expanding.gives_mapM {f : α → Expanding β}
    (h : List.Forall₂ (fun x y => (f x).Gives y) xs ys) : Expanding.Gives (xs.mapM f) ys := by
  induction h with
  | nil => exact gives_pure []
  | cons hx _ ih =>
    rw [List.mapM_cons]
    exact hx.bind (ih.bind (gives_pure _))

theorem Expanding.refuses_mapM {f : α → Expanding β} (h : ∃ x ∈ xs, (f x).Refuses) :
    Expanding.Refuses (xs.mapM f) := by
  obtain ⟨x, hx, hrefuses⟩ := h
  induction xs with
  | nil => cases hx
  | cons y rest ih =>
    rw [List.mapM_cons]
    rcases List.mem_cons.mp hx with rfl | hx
    · exact hrefuses.bind
    · exact refuses_bind fun _ => (ih hx).bind

end Trees

section Nodes

variable {root n : Node} {limit depth : Nat} {last : String → String} {v : Value}

def IsRead (t : Tree) (v : Value) : Prop :=
  ∃ d, (∀ path, dataOfTree path false t = .ok d) ∧ Value.ofData d = .ok v

theorem dataOfTree_scalar {path : DocumentPath} {m : Mark} {style : ScalarStyle} {text : String} :
    dataOfTree path false (.scalar m none style text) =
      locate path m (dataOfScalar none style text) := rfl

theorem dataOfTree_plain {path : DocumentPath} {m : Mark} {text : String} {d : Data}
    (h : dataOfScalar none .plain text = .ok d) :
    dataOfTree path false (.scalar m none .plain text) = .ok d := by
  rw [dataOfTree_scalar, h]
  rfl

-- A string is read as itself, in the style that it was written in.
theorem dataOfTree_string {path : DocumentPath} {m : Mark} {s : String}
    (hlast : styleOf s ≠ .literal → last s = s) :
    dataOfTree path false (.scalar m none (styleOf s).token (last s)) = .ok (.string (last s)) := by
  rw [dataOfTree_scalar]
  cases hstyle : styleOf s with
  | plain =>
    have hmeaning := (plain_of_styleOf hstyle).1
    rw [hlast (by rw [hstyle]; decide)]
    simp only [Style.token, dataOfScalar, foundOfScalar, foundOfPlain, hmeaning]
    rfl
  | _ => rfl

theorem word?_toInt (n : Int64) : Text.word? n.toInt = some n := by
  rw [Text.word?, if_pos ⟨n.minValue_le_toInt, n.toInt_le⟩, Int64.ofInt_toInt]

theorem isRead_plain {m : Mark} {text : String} {d : Data} {v : Value}
    (hfound : dataOfScalar none .plain text = .ok d) (hvalue : Value.ofData d = .ok v) :
    IsRead (.scalar m none .plain text) v :=
  ⟨d, fun _ => dataOfTree_plain hfound, hvalue⟩

theorem dataOfScalar_bool (b : Bool) :
    dataOfScalar none .plain (if b then "true" else "false") = .ok (.bool b) := by
  cases b <;> cbv

theorem dataOfScalar_integer (n : Int64) :
    dataOfScalar none .plain (Text.decimalInt n.toInt) = .ok (.integer n.toInt) := by
  have hlow := n.le_toInt
  have hhigh := n.toInt_lt
  have hword : fitsWord n.toInt = true := by
    rw [fitsWord_iff]
    omega
  have hlong : fitsLong n.toInt = true := by
    rw [fitsLong_iff]
    omega
  simp only [dataOfScalar, foundOfScalar, if_true, foundOfPlain, meaning_decimalInt hlong, bind,
    Except.bind, hword]

theorem dataOfScalar_float {d : Double} (h : d.isNaN = false) :
    dataOfScalar none .plain (floatLayout.write d) = .ok (.float d) := by
  simp only [dataOfScalar, foundOfScalar, if_true, foundOfPlain, meaning_write h]
  rfl

-- The items of a sequence are read one after the other.
theorem dataOfItems_of_forall₂ {ts : List Tree} {ds : List Data} {path : DocumentPath} {index : Nat}
    (h : List.Forall₂ (fun t d => ∀ path, dataOfTree path false t = .ok d) ts ds) :
    dataOfItems path index ts = .ok ds := by
  induction h generalizing index with
  | nil => rfl
  | cons ht _ ih =>
    rw [dataOfItems, ht, ih]
    rfl

-- So are the entries of a mapping with keys that differ.
theorem dataOfEntries_of_forall₂ {ts : List (Tree × Tree)} {ds done : List (Data × Data)}
    {path : DocumentPath}
    (h : List.Forall₂ (fun t d => (∀ path, dataOfTree path false t.1 = .ok d.1) ∧
      ∀ path, dataOfTree path false t.2 = .ok d.2) ts ds)
    (hkeys : (done ++ ds).Pairwise fun x y => y.1.same x.1 = false) :
    dataOfEntries path false done ts = .ok (done ++ ds) := by
  induction h generalizing done with
  | nil => rw [dataOfEntries, List.append_nil]
  | @cons t d ts ds ht _ ih =>
    obtain ⟨-, -, hnew⟩ := List.pairwise_append.mp hkeys
    have hnone : (done.any fun entry => d.1.same entry.1) = false := by
      rw [List.any_eq_false]
      intro entry hentry
      rw [hnew entry hentry d List.mem_cons_self]
      exact Bool.false_ne_true
    have hsplit : done ++ d :: ds = (done ++ [(d.1, d.2)]) ++ ds := by simp
    rw [dataOfEntries, ht.1, ht.2, hsplit, ← ih (hsplit ▸ hkeys)]
    show (if done.any fun entry => d.1.same entry.1 then _ else _) = _
    rw [hnone]
    rfl

def BecomesRead (root : Node) (limit depth : Nat) (n : Node) (v : Value) : Prop :=
  ∃ t, (Node.tree root limit depth n).Gives t ∧ IsRead t v

theorem becomesRead_scalar {m : Mark} {style : ScalarStyle} {text : String} {v : Value}
    (h : IsRead (.scalar m none style text) v) :
    BecomesRead root limit depth (.scalar m .none style text) v := by
  refine ⟨_, ?_, h⟩
  rw [Node.tree]
  exact Expanding.gives_pure _

theorem becomesRead_sequence {m : Mark} {nodes : List Node} {vs : List Value}
    (h : List.Forall₂ (fun n v => BecomesRead root limit depth n v) nodes vs) :
    BecomesRead root limit (depth + 1) (.sequence m .none nodes) (.sequence vs) := by
  obtain ⟨ts, htrees, hread⟩ := exists_forall₂ h.flip fun v _ n hn => hn
  obtain ⟨ds, hdata, hvalues⟩ := exists_forall₂ hread.flip fun t _ v ht => ht.imp fun d hd => hd.symm
  refine ⟨.sequence m none ts, ?_, .sequence ds, fun path => ?_, ?_⟩
  · rw [Node.tree, Node.sequenceTree]
    exact (Expanding.gives_mapM htrees).bind (Expanding.gives_pure _)
  · have hitems := @dataOfItems_of_forall₂ ts ds path 0 hvalues
    simp only [dataOfTree, hitems]
    rfl
  · exact Value.ofData_sequence_eq_ok_iff.mpr ⟨vs, hdata.flip, rfl⟩

-- The entry of a key that was written.
theorem entry_becomesRead {entry : Node × Node} {field : String × Value}
    (hkey : IsScalar (styleOf field.1).token field.1 entry.1)
    (hvalue : BecomesRead root limit depth entry.2 field.2) :
    ∃ t : Tree × Tree, Expanding.Gives (do
        return (← Node.tree root limit depth entry.1, ← Node.tree root limit depth entry.2)) t ∧
      ∃ d : Data × Data, ((∀ path, dataOfTree path false t.1 = .ok d.1) ∧
        ∀ path, dataOfTree path false t.2 = .ok d.2) ∧
          d.1 = .string field.1 ∧ Value.ofData d.2 = .ok field.2 := by
  obtain ⟨m, hkey⟩ := hkey
  obtain ⟨t, htree, d, hdata, hd⟩ := hvalue
  refine ⟨(.scalar m none (styleOf field.1).token field.1, t), ?_,
    (.string field.1, d), ⟨fun path => @dataOfTree_string id _ _ _ fun _ => rfl, hdata⟩, rfl, hd⟩
  have hscalar : (Node.tree root limit depth entry.1).Gives
      (.scalar m none (styleOf field.1).token field.1) := by
    rw [hkey, Node.tree]
    exact Expanding.gives_pure _
  exact hscalar.bind (htree.bind (Expanding.gives_pure _))

theorem becomesRead_mapping {m : Mark} {nodes : List (Node × Node)}
    {fields : List (String × Value)} (hsorted : SortedEntries fields)
    (h : List.Forall₂ (fun (n : Node × Node) f => IsScalar (styleOf f.1).token f.1 n.1 ∧
      BecomesRead root limit depth n.2 f.2) nodes fields) :
    BecomesRead root limit (depth + 1) (.mapping m .none nodes) (.mapping fields) := by
  obtain ⟨ts, htrees, hread⟩ := exists_forall₂ h.flip fun f _ n hn => entry_becomesRead hn.1 hn.2
  obtain ⟨ds, hdata, hvalues⟩ := exists_forall₂ hread.flip fun t _ f ht => ht.imp fun d hd => hd.symm
  have hkeys : ds.Pairwise fun x y => y.1.same x.1 = false := by
    refine pairwise_of_forall₂ hdata hsorted fun f f' d d' hd hd' hlt => ?_
    rw [hd.1, hd'.1, Data.same, beq_eq_false_iff_ne]
    intro heq
    rw [heq] at hlt
    simp at hlt
  refine ⟨.mapping m none ts, ?_, .mapping ds, fun path => ?_, ?_⟩
  · rw [Node.tree, Node.mappingTree]
    exact (Expanding.gives_mapM htrees).bind (Expanding.gives_pure _)
  · have hentries := @dataOfEntries_of_forall₂ ts ds [] path hvalues hkeys
    simp only [dataOfTree, localTag?, Option.bind_none, Option.isSome_none, Bool.or_self, hentries]
    rfl
  · refine Value.ofData_mapping_eq_ok_iff.mpr ⟨fields, hdata.flip.imp fun d f hd => ?_, ?_⟩
    · exact ⟨by rw [hd.1]; rfl, hd.2⟩
    · rw [Dictionary.ofList_entries ⟨fields, hsorted⟩]

theorem mapLastItem_withLast (last : String → String) (items : List Value) :
    Value.mapLastItem last items = (withLast last items).map fun item => item.1.mapLast item.2 := by
  induction items with
  | nil => rfl
  | cons item rest ih =>
    cases rest with
    | nil => rw [Value.mapLastItem, withLast, List.map_singleton]
    | cons item' rest =>
      rw [Value.mapLastItem, ih, withLast_cons, List.map_cons, Value.mapLast_id]
      exact List.cons_ne_nil _ _

theorem mapLastField_withLast (last : String → String) (fields : List (String × Value)) :
    Value.mapLastField last fields =
      (withLast last fields).map fun field => (field.1.1, field.1.2.mapLast field.2) := by
  induction fields with
  | nil => rfl
  | cons field rest ih =>
    cases rest with
    | nil => rw [Value.mapLastField, withLast, List.map_singleton]
    | cons field' rest =>
      rw [Value.mapLastField, ih, withLast_cons, List.map_cons, Value.mapLast_id]
      exact fun _ _ _ => List.cons_ne_nil _ _

theorem unchanged_of_mem_withLast {α : Type} {xs : List α} {x : α × (String → String)}
    (hlast : ∀ s, styleOf s ≠ .literal → last s = s) (h : x ∈ withLast last xs) :
    ∀ s, styleOf s ≠ .literal → x.2 s = s := by
  induction xs with
  | nil => cases h
  | cons y rest ih =>
    cases rest with
    | nil =>
      rw [withLast, List.mem_singleton] at h
      exact h ▸ hlast
    | cons z rest =>
      rw [withLast_cons, List.mem_cons] at h
      rcases h with rfl | h
      · exact fun _ _ => rfl
      · exact ih h

-- A node that shows a value is read as that value, with its last string as it is shown.
theorem becomesRead_of_shows (hnumeric : v.Numeric) (hordered : v.Ordered) (hdepth : v.depth ≤ depth)
    (hlast : ∀ s, styleOf s ≠ .literal → last s = s) (h : Shows last v n) :
    BecomesRead root limit depth n (v.mapLast last) := by
  induction v using Value.induct generalizing last depth n with
  | bool b =>
    cases h with
    | bool h =>
      obtain ⟨m, rfl⟩ := h
      exact becomesRead_scalar (isRead_plain (dataOfScalar_bool b) rfl)
  | integer k =>
    cases h with
    | integer h =>
      obtain ⟨m, rfl⟩ := h
      refine becomesRead_scalar (isRead_plain (dataOfScalar_integer k) ?_)
      rw [Value.ofData, Value.ofInteger, word?_toInt]
      rfl
  | float d =>
    cases h with
    | float h =>
      obtain ⟨m, rfl⟩ := h
      exact becomesRead_scalar
        (isRead_plain (dataOfScalar_float (Value.numeric_float_iff.mp hnumeric)) rfl)
  | string s =>
    cases h with
    | string h =>
      obtain ⟨m, rfl⟩ := h
      exact becomesRead_scalar ⟨_, fun path => dataOfTree_string (hlast s), rfl⟩
  | sequence items ih =>
    cases h with
    | sequence h =>
      obtain ⟨depth, rfl⟩ := Nat.exists_eq_add_of_le' (Nat.le_of_add_left_le hdepth)
      rw [Value.depth, add_le_add_iff_right, Value.depthOfItems_le_iff] at hdepth
      rw [Value.numeric_sequence_iff] at hnumeric
      rw [Value.ordered_sequence_iff] at hordered
      rw [Value.mapLast, mapLastItem_withLast]
      refine becomesRead_sequence (List.forall₂_map_right_iff.mpr ?_)
      refine (forall₂_of_mem h fun item hitem node _ hnode => ?_).flip
      have hmem := mem_of_mem_withLast hitem
      exact ih item.1 hmem (hnumeric _ hmem) (hordered _ hmem) (hdepth _ hmem)
        (unchanged_of_mem_withLast hlast hitem) hnode
  | mapping fields ih =>
    cases h with
    | mapping hkeys h =>
      obtain ⟨depth, rfl⟩ := Nat.exists_eq_add_of_le' (Nat.le_of_add_left_le hdepth)
      rw [Value.depth, add_le_add_iff_right, Value.depthOfFields_le_iff] at hdepth
      rw [Value.numeric_mapping_iff] at hnumeric
      obtain ⟨hsorted, hordered⟩ := Value.ordered_mapping_iff.mp hordered
      rw [Value.mapLast]
      refine becomesRead_mapping (Value.sorted_mapLastField hsorted) ?_
      rw [mapLastField_withLast, List.forall₂_map_right_iff]
      have hboth := List.Forall₂.mp (fun _ _ => And.intro) hkeys h
      refine (forall₂_of_mem hboth fun field hfield entry _ hentry => ⟨hentry.1, ?_⟩).flip
      have hmem := mem_of_mem_withLast hfield
      exact ih field.1 hmem (hnumeric _ hmem) (hordered _ hmem) (hdepth _ hmem)
        (unchanged_of_mem_withLast hlast hfield) hentry.2

theorem map_fst_withLast {α : Type} (last : String → String) (xs : List α) :
    (withLast last xs).map Prod.fst = xs := by
  induction xs with
  | nil => rfl
  | cons x rest ih =>
    cases rest with
    | nil => rfl
    | cons y rest => rw [withLast_cons, List.map_cons, ih]

-- A node of a value that nests too deep has no tree.
theorem refuses_of_shows (hdepth : depth < v.depth) (h : Shows last v n) :
    (Node.tree root limit depth n).Refuses := by
  have hthrow (e : SyntaxError) : Expanding.Refuses (throw e : Expanding Tree) := fun k => ⟨e, rfl⟩
  induction v using Value.induct generalizing last depth n with
  | bool | integer | float | string => cases hdepth
  | sequence items ih =>
    cases h with
    | sequence h =>
      rw [Node.tree, Node.sequenceTree.eq_def]
      cases depth with
      | zero => exact hthrow _
      | succ depth =>
        rw [Value.depth, add_lt_add_iff_right, ← not_le, Value.depthOfItems_le_iff] at hdepth
        push Not at hdepth
        obtain ⟨item, hmem, hdeep⟩ := hdepth
        obtain ⟨part, hpart, rfl⟩ := List.mem_map.mp ((map_fst_withLast last items).symm ▸ hmem)
        obtain ⟨node, hnode, hshows⟩ := exists_of_forall₂ h part hpart
        exact (Expanding.refuses_mapM ⟨node, hnode, ih _ hmem hdeep hshows⟩).bind
  | mapping fields ih =>
    cases h with
    | mapping hkeys h =>
      rw [Node.tree, Node.mappingTree.eq_def]
      cases depth with
      | zero => exact hthrow _
      | succ depth =>
        rw [Value.depth, add_lt_add_iff_right, ← not_le, Value.depthOfFields_le_iff] at hdepth
        push Not at hdepth
        obtain ⟨field, hmem, hdeep⟩ := hdepth
        obtain ⟨part, hpart, rfl⟩ := List.mem_map.mp ((map_fst_withLast last fields).symm ▸ hmem)
        obtain ⟨entry, hentry, hshows⟩ := exists_of_forall₂ h part hpart
        refine (Expanding.refuses_mapM ⟨entry, hentry, ?_⟩).bind
        exact Expanding.refuses_bind fun _ => (ih _ hmem hdeep hshows).bind

end Nodes

end Skeleton.Yaml
