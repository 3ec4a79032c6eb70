import Skeleton.Outline.Basic
import Skeleton.Proofs.Except

-- What the check of a tree accepts, and which fault it reports of a tree with several.

namespace Skeleton

namespace Node

-- Induction over a tree.
@[elab_as_elim]
theorem induct {motive : Node → Prop} (step : ∀ n : Node, (∀ c ∈ n.children, motive c) → motive n)
    (n : Node) : motive n :=
  step n fun c _ => induct step c
termination_by sizeOf n
decreasing_by
  rename_i hmem
  cases n with
  | directory name condition children =>
    have hless := List.sizeOf_lt_of_mem hmem
    simp only [directory.sizeOf_spec, Node.children] at hless ⊢
    omega
  | file => exact absurd hmem List.not_mem_nil

inductive Within : Node → Node → Prop where
  | self (n : Node) : Within n n
  | child {n m c : Node} (hmem : c ∈ n.children) (h : Within m c) : Within m n

-- What is required of a node: a name that is not blank, a condition that is accepted, and children
-- with names of their own.
structure Sound (schema : Schema) (n : Node) : Prop where
  name : ∃ c ∈ n.name.toList, Text.isBlank c = false
  condition : ∀ c, n.condition = some c → c.check schema = .ok ()
  children : (n.children.map Node.name).Nodup

-- A node of a tree, the directories that it is in, the outermost first, and the names of the nodes
-- before it in its directory.
structure Place where
  above : List Node
  earlier : List String
  node : Node

mutual

def places (above : List Node) (earlier : List String) : Node → List Place
  | directory name condition children =>
    ⟨above, earlier, directory name condition children⟩ ::
      placesAll (above ++ [directory name condition children]) [] children
  | file name condition kind content mode =>
    [⟨above, earlier, file name condition kind content mode⟩]

def placesAll (above : List Node) (earlier : List String) : List Node → List Place
  | [] => []
  | n :: rest => n.places above earlier ++ placesAll above (n.name :: earlier) rest

end

def pattern (nodes : List Node) : String := "/".intercalate (nodes.map Node.name)

-- What is wrong at a place. That the name is used already is found before anything else.
inductive Place.Wrong (schema : Schema) (p : Place) : BuildFault → Prop where
  | duplicate (hold : p.node.name ∈ p.earlier) :
      p.Wrong schema (.duplicateName p.node.name (pattern p.above))
  | blank (hnew : p.node.name ∉ p.earlier)
      (hblank : ∀ c ∈ p.node.name.toList, Text.isBlank c = true) :
      p.Wrong schema (.invalidSegment p.node.name (pattern (p.above ++ [p.node])) .blankPattern)
  | condition {c : Condition} {fault : Condition.TypeFault} (hnew : p.node.name ∉ p.earlier)
      (hname : ∃ c ∈ p.node.name.toList, Text.isBlank c = false)
      (hc : p.node.condition = some c) (hcheck : c.check schema = .error fault) :
      p.Wrong schema (.conditionType (pattern (p.above ++ [p.node])) fault)

def FirstWrong (schema : Schema) (places : List Place) (fault : BuildFault) : Prop :=
  ∃ before p after, places = before ++ p :: after ∧
    (∀ q ∈ before, ∀ other, ¬ q.Wrong schema other) ∧ p.Wrong schema fault

section Sound

variable {schema : Schema} {parent path name : String} {condition : Option Condition}
  {seen : List String} {n m : Node} {children : List Node}

theorem isAllBlank_eq_true_iff :
    Text.isAllBlank name = true ↔ ∀ c ∈ name.toList, Text.isBlank c = true :=
  List.all_eq_true

theorem isAllBlank_eq_false_iff :
    Text.isAllBlank name = false ↔ ∃ c ∈ name.toList, Text.isBlank c = false :=
  List.all_eq_false.trans (by simp)

theorem within_iff : m.Within n ↔ m = n ∨ ∃ c ∈ n.children, m.Within c := by
  constructor
  · rintro (_ | ⟨hmem, h⟩)
    · exact .inl rfl
    · exact .inr ⟨_, hmem, h⟩
  · rintro (rfl | ⟨c, hmem, h⟩)
    · exact .self _
    · exact .child hmem h

theorem forall_within_iff {P : Node → Prop} :
    (∀ m, m.Within n → P m) ↔ P n ∧ ∀ c ∈ n.children, ∀ m, m.Within c → P m := by
  simp only [within_iff (n := n)]
  constructor
  · exact fun h => ⟨h n (.inl rfl), fun c hmem m hm => h m (.inr ⟨c, hmem, hm⟩)⟩
  · rintro ⟨hn, hchildren⟩ m (rfl | ⟨c, hmem, hm⟩)
    · exact hn
    · exact hchildren c hmem m hm

theorem checkSelf_eq_ok_iff : checkSelf schema path name condition = .ok () ↔
    (∃ c ∈ name.toList, Text.isBlank c = false) ∧
      ∀ c, condition = some c → c.check schema = .ok () := by
  unfold checkSelf
  rw [← isAllBlank_eq_false_iff]
  cases Text.isAllBlank name with
  | true => simp
  | false => cases condition <;> simp [mapError_eq_ok_iff]

theorem checkChildren_eq_ok_iff : checkChildren schema parent seen children = .ok () ↔
    (∀ c ∈ children, c.check schema parent = .ok ()) ∧ (children.map Node.name).Nodup ∧
      ∀ c ∈ children, c.name ∉ seen := by
  induction children generalizing seen with
  | nil => simp [checkChildren]
  | cons c rest ih =>
    rw [checkChildren, List.forall_mem_cons, List.forall_mem_cons, List.map_cons, List.nodup_cons]
    by_cases hold : c.name ∈ seen
    · simp [hold]
    · simp only [if_neg hold, andThen_eq_ok_iff, ih, List.mem_map, List.mem_cons, not_or]
      constructor
      · rintro ⟨hc, hrest, hnodup, hnew⟩
        refine ⟨⟨hc, hrest⟩, ⟨?_, hnodup⟩, hold, fun d hd => (hnew d hd).2⟩
        rintro ⟨d, hd, hname⟩
        exact (hnew d hd).1 hname
      · rintro ⟨⟨hc, hrest⟩, ⟨hfirst, hnodup⟩, -, hnew⟩
        exact ⟨hc, hrest, hnodup, fun d hd => ⟨fun hname => hfirst ⟨d, hd, hname⟩, hnew d hd⟩⟩

theorem check_eq : n.check schema parent = (do
    checkSelf schema (childPath parent n.name) n.name n.condition
    checkChildren schema (childPath parent n.name) [] n.children) := by
  cases n with
  | directory name condition children => rw [check]; rfl
  | file name condition kind content mode =>
    rw [check]
    simp only [Node.name, Node.condition, Node.children, checkChildren]
    cases checkSelf schema (childPath parent name) name condition <;> rfl

theorem check_eq_ok_iff_sound : n.check schema parent = .ok () ↔
    n.Sound schema ∧ ∀ c ∈ n.children, c.check schema (childPath parent n.name) = .ok () := by
  rw [check_eq, andThen_eq_ok_iff, checkSelf_eq_ok_iff, checkChildren_eq_ok_iff]
  constructor
  · rintro ⟨⟨hname, hcondition⟩, hchildren, hnodup, -⟩
    exact ⟨⟨hname, hcondition, hnodup⟩, hchildren⟩
  · rintro ⟨⟨hname, hcondition, hnodup⟩, hchildren⟩
    exact ⟨⟨hname, hcondition⟩, hchildren, hnodup, fun _ _ => List.not_mem_nil⟩

-- A tree is accepted if and only if everything in it is sound.
theorem check_eq_ok_iff : n.check schema parent = .ok () ↔
    ∀ m : Node, m.Within n → m.Sound schema := by
  induction n using induct generalizing parent with
  | step n ih =>
    rw [check_eq_ok_iff_sound, forall_within_iff]
    exact and_congr_right fun _ => forall₂_congr fun c hmem => ih c hmem

end Sound

section Wrong

variable {schema : Schema} {parent : String} {seen earlier : List String} {n : Node}
  {above children : List Node} {p : Place} {fault : BuildFault}

theorem intercalate_concat (a x : String) (xs : List String) :
    "/".intercalate (a :: xs ++ [x]) = "/".intercalate (a :: xs) ++ "/" ++ x := by
  induction xs generalizing a with
  | nil =>
    rw [List.singleton_append, String.intercalate_cons_cons, String.intercalate_singleton,
      String.intercalate_singleton]
  | cons b xs ih =>
    rw [List.cons_append, List.cons_append, String.intercalate_cons_cons, ← List.cons_append, ih,
      String.intercalate_cons_cons]
    simp only [String.append_assoc]

-- The path of a directory as the check builds it. It is empty above the tree only.
structure Leads (above : List Node) (parent : String) : Prop where
  eq : parent = pattern above
  ne_empty : above ≠ [] → parent ≠ ""

theorem leads_nil : Leads [] "" := ⟨rfl, fun h => absurd rfl h⟩

theorem Leads.childPath (h : Leads above parent) (n : Node) :
    childPath parent n.name = pattern (above ++ [n]) := by
  cases above with
  | nil =>
    obtain rfl : parent = "" := h.eq
    rw [Skeleton.childPath, if_pos (by decide)]
    exact String.intercalate_singleton.symm
  | cons first above =>
    have hne : parent.isEmpty = false := by
      simpa using h.ne_empty (List.cons_ne_nil _ _)
    rw [Skeleton.childPath, hne, h.eq, pattern, pattern, List.map_append]
    exact (intercalate_concat _ _ _).symm

theorem Leads.concat (h : Leads above parent) (hname : n.name ≠ "") :
    Leads (above ++ [n]) (Skeleton.childPath parent n.name) := by
  refine ⟨h.childPath n, fun _ => ?_⟩
  rw [Skeleton.childPath]
  split
  · exact hname
  · simp

theorem places_eq (above : List Node) (earlier : List String) (n : Node) :
    n.places above earlier = ⟨above, earlier, n⟩ :: placesAll (above ++ [n]) [] n.children := by
  cases n <;> rfl

-- The places in a directory are those of its children, each behind the ones before it.
theorem mem_placesAll_iff : p ∈ placesAll above seen children ↔
    ∃ before c after, children = before ++ c :: after ∧
      p ∈ c.places above ((before.map Node.name).reverse ++ seen) := by
  induction children generalizing seen with
  | nil => simp [placesAll]
  | cons first rest ih =>
    rw [placesAll, List.mem_append, ih]
    constructor
    · rintro (hp | ⟨before, c, after, rfl, hp⟩)
      · exact ⟨[], first, rest, rfl, hp⟩
      · exact ⟨first :: before, c, after, rfl, by simpa using hp⟩
    · rintro ⟨before, c, after, hsplit, hp⟩
      cases before with
      | nil =>
        obtain ⟨rfl, rfl⟩ := List.cons.inj hsplit
        exact .inl hp
      | cons head before =>
        obtain ⟨rfl, rfl⟩ := List.cons.inj hsplit
        exact .inr ⟨before, c, after, rfl, by simpa using hp⟩

-- Every node of a tree has a place in it.
theorem exists_place_iff {m : Node} :
    (∃ p ∈ n.places above earlier, p.node = m) ↔ m.Within n := by
  induction n using induct generalizing above earlier with
  | step n ih =>
    rw [places_eq, List.exists_mem_cons_iff, within_iff, eq_comm]
    refine or_congr_right ?_
    constructor
    · rintro ⟨p, hp, hnode⟩
      obtain ⟨before, c, after, hsplit, hp⟩ := mem_placesAll_iff.mp hp
      have hmem : c ∈ n.children := by simp [hsplit]
      exact ⟨c, hmem, (ih c hmem).mp ⟨p, hp, hnode⟩⟩
    · rintro ⟨c, hmem, hwithin⟩
      obtain ⟨before, after, hsplit⟩ := List.append_of_mem hmem
      obtain ⟨p, hp, hnode⟩ := (ih c hmem).mpr hwithin
      exact ⟨p, mem_placesAll_iff.mpr ⟨before, c, after, hsplit, hp⟩, hnode⟩

def Place.inspect (schema : Schema) (p : Place) : Except BuildFault Unit :=
  if p.node.name ∈ p.earlier then .error (.duplicateName p.node.name (pattern p.above))
  else checkSelf schema (pattern (p.above ++ [p.node])) p.node.name p.node.condition

theorem checkSelf_eq_error_iff {path name : String} {condition : Option Condition} :
    checkSelf schema path name condition = .error fault ↔
      (∀ c ∈ name.toList, Text.isBlank c = true) ∧
          .invalidSegment name path .blankPattern = fault ∨
      (∃ c ∈ name.toList, Text.isBlank c = false) ∧
        ∃ c e, condition = some c ∧ c.check schema = .error e ∧ .conditionType path e = fault := by
  unfold checkSelf
  rw [← isAllBlank_eq_false_iff, ← isAllBlank_eq_true_iff]
  cases Text.isAllBlank name with
  | true => simp
  | false => cases condition <;> simp [mapError_eq_error_iff]

theorem inspect_eq_error_iff : p.inspect schema = .error fault ↔ p.Wrong schema fault := by
  rw [Place.inspect]
  split
  · rename_i hold
    constructor
    · intro h
      obtain rfl := Except.error.inj h
      exact .duplicate hold
    · rintro (_ | ⟨hnew, -⟩ | ⟨hnew, -⟩)
      · rfl
      · exact absurd hold hnew
      · exact absurd hold hnew
  · rename_i hnew
    rw [checkSelf_eq_error_iff]
    constructor
    · rintro (⟨hblank, rfl⟩ | ⟨hname, c, e, hc, hcheck, rfl⟩)
      · exact .blank hnew hblank
      · exact .condition hnew hname hc hcheck
    · rintro (hold | ⟨-, hblank⟩ | ⟨-, hname, hc, hcheck⟩)
      · exact absurd hold hnew
      · exact .inl ⟨hblank, rfl⟩
      · exact .inr ⟨hname, _, _, hc, hcheck, rfl⟩

theorem checkChildren_eq_forM
    (ih : ∀ c ∈ children, ∀ earlier, c.name ∉ earlier →
      c.check schema parent = forM (c.places above earlier) (Place.inspect schema))
    (hparent : parent = pattern above) :
    checkChildren schema parent seen children =
      forM (placesAll above seen children) (Place.inspect schema) := by
  induction children generalizing seen with
  | nil => rfl
  | cons c rest ihrest =>
    obtain ⟨hc, hrest⟩ := List.forall_mem_cons.mp ih
    rw [checkChildren, placesAll, List.forM_append]
    by_cases hold : c.name ∈ seen
    · rw [if_pos hold, places_eq, List.forM_cons, Place.inspect, if_pos hold, hparent]
      rfl
    · rw [if_neg hold, hc seen hold, ihrest hrest]

-- The check goes from place to place. It gets to the children of a node only if its name is not
-- blank, so that the path of their directory is not empty.
theorem check_eq_forM (hleads : Leads above parent) (hnew : n.name ∉ earlier) :
    n.check schema parent = forM (n.places above earlier) (Place.inspect schema) := by
  induction n using induct generalizing above parent earlier with
  | step n ih =>
    rw [check_eq, places_eq, List.forM_cons, Place.inspect, if_neg hnew, hleads.childPath]
    refine bind_congr_ok fun _ hself => ?_
    obtain ⟨⟨c, hc, -⟩, -⟩ := checkSelf_eq_ok_iff.mp hself
    have hname : n.name ≠ "" := by
      intro hempty
      rw [hempty] at hc
      cases hc
    refine checkChildren_eq_forM (fun c hmem earlier hnew => ?_) rfl
    exact ih c hmem (hleads.childPath n ▸ hleads.concat hname) hnew

theorem check_eq_error_iff (hleads : Leads above parent) (hnew : n.name ∉ earlier) :
    n.check schema parent = .error fault ↔ FirstWrong schema (n.places above earlier) fault := by
  have hfine (q : Place) : q.inspect schema = .ok () ↔ ∀ other, ¬ q.Wrong schema other := by
    simp only [← inspect_eq_error_iff]
    cases q.inspect schema <;> simp
  simp only [check_eq_forM hleads hnew, forM_eq_error_iff, FirstWrong, hfine, inspect_eq_error_iff]

end Wrong

end Node

namespace Outline

variable {schema : Schema} {root : Node} {outline : Outline} {fault : BuildFault}

theorem ofNode_eq_ok_iff : ofNode schema root = .ok outline ↔
    root.check schema "" = .ok () ∧ outline.root = root ∧ outline.schema = schema := by
  obtain ⟨root', schema', hchecked⟩ := outline
  unfold ofNode
  split
  · rename_i h
    simp [h, eq_comm]
  · rename_i h
    simp [h]

theorem ofNode_eq_error_iff : ofNode schema root = .error fault ↔
    root.check schema "" = .error fault := by
  unfold ofNode
  split
  · rename_i h
    simp [h]
  · rename_i h
    simp [h]

-- A tree is accepted, as it is, if and only if everything in it is sound. Otherwise the first fault
-- in pre-order is reported, with the names on the way to it.
theorem ofNode_exact (schema : Schema) (root : Node) :
    (∀ outline, ofNode schema root = .ok outline ↔
      (∀ n : Node, n.Within root → n.Sound schema) ∧
        outline.root = root ∧ outline.schema = schema) ∧
    ∀ fault, ofNode schema root = .error fault ↔
      Node.FirstWrong schema (root.places [] []) fault := by
  constructor
  · intro outline
    rw [ofNode_eq_ok_iff, Node.check_eq_ok_iff]
  · intro fault
    rw [ofNode_eq_error_iff, Node.check_eq_error_iff Node.leads_nil List.not_mem_nil]

-- The second of two files is met before what is wrong with it, but behind what is wrong in between.
example : (Node.directory "d" none [.file "f" none .literal "" none,
    .directory "e" none [.file " " none .literal "" none], .file "f" none .literal "" none]).check
      .empty "" = .error (.invalidSegment " " "d/e/ " .blankPattern) := by rfl

end Outline

end Skeleton
