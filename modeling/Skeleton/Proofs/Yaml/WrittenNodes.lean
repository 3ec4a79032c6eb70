import Skeleton.Proofs.Yaml.Parsing
import Skeleton.Proofs.Yaml.WrittenDocument

-- The nodes of a written document.

namespace Skeleton.Yaml

section Last

variable {α β : Type} {last : String → String}

-- The parts of a collection with what the last string of each is read as.
def withLast (last : String → String) : List α → List (α × (String → String))
  | [] => []
  | [x] => [(x, last)]
  | x :: rest => (x, id) :: withLast last rest

theorem mem_of_mem_withLast {xs : List α} {x : α × (String → String)} (h : x ∈ withLast last xs) :
    x.1 ∈ xs := by
  induction xs with
  | nil => cases h
  | cons y rest ih =>
    cases rest with
    | nil =>
      rw [withLast, List.mem_singleton] at h
      simp [h]
    | cons z rest =>
      rw [withLast, List.mem_cons] at h
      · rcases h with rfl | h
        · exact List.mem_cons_self
        · exact List.mem_cons_of_mem _ (ih h)
      · exact nofun

theorem withLast_eq_nil_iff {xs : List α} : withLast last xs = [] ↔ xs = [] := by
  unfold withLast
  split <;> simp

theorem withLast_cons (x y : α) (rest : List α) :
    withLast last (x :: y :: rest) = (x, id) :: withLast last (y :: rest) := rfl

theorem itemKinds_withLast (last : String → String) (items : List Value) :
    itemKinds last items =
      (withLast last items).flatMap fun item => .blockEntry :: kindsOf item.2 false item.1 := by
  induction items with
  | nil => rw [itemKinds, withLast, List.flatMap_nil]
  | cons item rest ih =>
    cases rest with
    | nil => rw [itemKinds, withLast, List.flatMap_singleton]
    | cons item' rest =>
      rw [itemKinds, ih, withLast_cons, List.flatMap_cons]
      · rfl
      · exact List.cons_ne_nil _ _

theorem entryKinds_withLast (last : String → String) (fields : List (String × Value)) :
    entryKinds last fields = (withLast last fields).flatMap fun field =>
      .key :: .scalar (styleOf field.1.1).token field.1.1 :: .value ::
        kindsOf field.2 (isSimpleKey field.1.1) field.1.2 := by
  induction fields with
  | nil => rw [entryKinds, withLast, List.flatMap_nil]
  | cons field rest ih =>
    cases rest with
    | nil => rw [entryKinds, withLast, List.flatMap_singleton]
    | cons field' rest =>
      rw [entryKinds, ih, withLast_cons, List.flatMap_cons]
      · rfl
      · exact List.cons_ne_nil _ _

end Last

def IsScalar (style : ScalarStyle) (text : String) (n : Node) : Prop :=
  ∃ m, n = .scalar m .none style text

-- That a node shows a value, where the last string is read as another one.
inductive Shows : (String → String) → Value → Node → Prop
  | bool {last b n} (h : IsScalar .plain (if b then "true" else "false") n) :
      Shows last (.bool b) n
  | integer {last k n} (h : IsScalar .plain (Text.decimalInt k.toInt) n) :
      Shows last (.integer k) n
  | float {last d n} (h : IsScalar .plain (floatLayout.write d) n) : Shows last (.float d) n
  | string {last s n} (h : IsScalar (styleOf s).token (last s) n) : Shows last (.string s) n
  | sequence {last items m nodes}
      (h : List.Forall₂ (fun item n => Shows item.2 item.1 n) (withLast last items) nodes) :
      Shows last (.sequence items) (.sequence m .none nodes)
  | mapping {last fields m nodes}
      (hkeys : List.Forall₂ (fun field entry => IsScalar (styleOf field.1.1).token field.1.1 entry.1)
        (withLast last fields) nodes)
      (h : List.Forall₂ (fun field entry => Shows field.2 field.1.2 entry.2)
        (withLast last fields) nodes) :
      Shows last (.mapping fields) (.mapping m .none nodes)

open NodeReader

section Values

variable {handles : List (String × String)} {indentless behindKey : Bool} {last : String → String}
  {items : List Value} {fields : List (String × Value)}

def IsShown (handles : List (String × String)) (v : Value) : Prop :=
  ∀ (last : String → String) (indentless behindKey : Bool),
    (behindKey = true → indentless = true) →
      IsNode handles indentless (kindsOf last behindKey v) (Shows last v)

def itemPart (item : Value × (String → String)) : Part :=
  (kindsOf item.2 false item.1, Shows item.2 item.1)

theorem itemTokens_withLast : itemTokens ((withLast last items).map itemPart) =
    itemKinds last items := by
  rw [itemKinds_withLast, itemTokens, List.flatMap_map]
  rfl

theorem isShown_sequence (hne : items ≠ []) (h : ∀ item ∈ items, IsShown handles item) :
    IsShown handles (.sequence items) := by
  intro last indentless behindKey hbehind
  obtain ⟨item, rest, rfl⟩ := List.exists_cons_of_ne_nil hne
  have hparts : ∀ part ∈ (withLast last (item :: rest)).map itemPart,
      IsNode handles false part.1 part.2 := by
    rw [List.forall_mem_map]
    exact fun item' hitem => h item'.1 (mem_of_mem_withLast hitem) _ _ _ nofun
  have hshows : ∀ n, (∃ m nodes, n = Node.sequence m .none nodes ∧
      AreItems ((withLast last (item :: rest)).map itemPart) nodes) →
        Shows last (.sequence (item :: rest)) n := by
    rintro _ ⟨m, nodes, rfl, hnodes⟩
    rw [AreItems, List.forall₂_map_left_iff] at hnodes
    exact .sequence hnodes
  rw [kindsOf, ← itemTokens_withLast]
  split
  · rename_i hkey
    rw [hbehind hkey]
    refine (isNode_indentless hparts ?_).mono hshows
    rw [Ne, List.map_eq_nil_iff, withLast_eq_nil_iff]
    exact hne
  · exact (isNode_sequence hparts).mono hshows

def fieldPart (field : (String × Value) × (String → String)) : Part × Part :=
  (([.scalar (styleOf field.1.1).token field.1.1], IsScalar (styleOf field.1.1).token field.1.1),
    (kindsOf field.2 (isSimpleKey field.1.1) field.1.2, Shows field.2 field.1.2))

theorem entryTokens_withLast : entryTokens ((withLast last fields).map fieldPart) =
    entryKinds last fields := by
  rw [entryKinds_withLast, entryTokens, List.flatMap_map]
  rfl

theorem isShown_mapping (hne : fields ≠ []) (h : ∀ field ∈ fields, IsShown handles field.2) :
    IsShown handles (.mapping fields) := by
  intro last indentless behindKey hbehind
  obtain ⟨field, rest, rfl⟩ := List.exists_cons_of_ne_nil hne
  rw [kindsOf, ← entryTokens_withLast]
  refine (isNode_mapping ?_).mono ?_
  · rw [List.forall_mem_map]
    exact fun field' hfield =>
      ⟨isNode_scalar, h field'.1 (mem_of_mem_withLast hfield) _ _ _ fun _ => rfl⟩
  · rintro _ ⟨m, nodes, rfl, hnodes⟩
    rw [AreEntries, List.forall₂_map_left_iff] at hnodes
    exact .mapping (hnodes.imp fun _ _ h => h.1) (hnodes.imp fun _ _ h => h.2)

-- The tokens of every value are those of a node that shows it.
theorem isShown (handles : List (String × String)) : ∀ v, IsShown handles v
  | .bool b => fun _ _ _ _ => by
    rw [kindsOf]
    exact isNode_scalar.mono fun _ => .bool
  | .integer k => fun _ _ _ _ => by
    rw [kindsOf]
    exact isNode_scalar.mono fun _ => .integer
  | .float d => fun _ _ _ _ => by
    rw [kindsOf]
    exact isNode_scalar.mono fun _ => .float
  | .string s => fun _ _ _ _ => by
    rw [kindsOf]
    exact isNode_scalar.mono fun _ => .string
  | .sequence [] => fun _ _ _ _ => by
    rw [kindsOf]
    refine isNode_emptySequence.mono ?_
    rintro _ ⟨m, rfl⟩
    exact .sequence .nil
  | .mapping [] => fun _ _ _ _ => by
    rw [kindsOf]
    refine isNode_emptyMapping.mono ?_
    rintro _ ⟨m, rfl⟩
    exact .mapping .nil .nil
  | .sequence (item :: rest) =>
    isShown_sequence (List.cons_ne_nil _ _) fun item' _ => isShown handles item'
  | .mapping (field :: rest) =>
    isShown_mapping (List.cons_ne_nil _ _) fun field' _ => isShown handles field'.2
termination_by v => sizeOf v
decreasing_by
  · rename_i hmem
    have := List.sizeOf_lt_of_mem hmem
    simp only [Value.sequence.sizeOf_spec]
    omega
  · rename_i hmem
    have hless := List.sizeOf_lt_of_mem hmem
    have hpart : sizeOf field' = 1 + sizeOf field'.1 + sizeOf field'.2 := by
      cases field'
      rfl
    simp only [Value.mapping.sizeOf_spec]
    omega

end Values

-- A text with the tokens of a node holds that node.
theorem nodeOf_of_isNode {s : String} {ks : List TokenKind} {P : Node → Prop}
    (hnode : IsNode defaultHandles false ks P)
    (h : ∃ tokens, tokensOf s = .ok tokens ∧ tokens.map (·.kind) = ks ++ [.streamEnd]) :
    ∃ n, nodeOf s = .ok n ∧ P n := by
  obtain ⟨tokens, htokens, hkinds⟩ := h
  obtain ⟨n, r, hrun, -, hn⟩ := reads_document hnode ⟨tokens, []⟩ hkinds
  refine ⟨n, ?_, hn⟩
  rw [nodeOf, htokens]
  show (document.run ⟨tokens, []⟩ >>= fun result => Except.ok result.1) = _
  rw [hrun]
  rfl

-- So a text with the tokens of a value holds a node that shows it.
theorem nodeOf_of_tokensOf {s : String} {v : Value} {last : String → String}
    (h : ∃ tokens, tokensOf s = .ok tokens ∧
      tokens.map (·.kind) = kindsOf last false v ++ [.streamEnd]) :
    ∃ n, nodeOf s = .ok n ∧ Shows last v n :=
  nodeOf_of_isNode (isShown _ v last false false nofun) h

end Skeleton.Yaml
