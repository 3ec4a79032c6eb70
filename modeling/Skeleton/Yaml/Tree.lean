import Skeleton.Yaml.Node

-- Documents with their aliases followed. What an alias stands for is part of the tree, so that a
-- tree is finite and may be walked without a look at anchors.

namespace Skeleton.Yaml

inductive Tree where
  | alias (mark : Mark) (target : Tree)
  | scalar (mark : Mark) (tag : Option String) (style : ScalarStyle) (text : String)
  | sequence (mark : Mark) (tag : Option String) (items : List Tree)
  | mapping (mark : Mark) (tag : Option String) (entries : List (Tree × Tree))
  deriving Inhabited

def Tree.mark : Tree → Mark
  | .alias m _ => m
  | .scalar m _ _ _ => m
  | .sequence m _ _ => m
  | .mapping m _ _ => m

def maxDepth : Nat := 128

mutual

-- The number of events of a node: a collection has a start and an end.
def Node.size : Node → Nat
  | .alias _ _ => 1
  | .scalar _ _ _ _ => 1
  | .sequence _ _ items => 2 + Node.sizeOfItems items
  | .mapping _ _ entries => 2 + Node.sizeOfEntries entries

def Node.sizeOfItems : List Node → Nat
  | [] => 0
  | item :: rest => item.size + Node.sizeOfItems rest

def Node.sizeOfEntries : List (Node × Node) → Nat
  | [] => 0
  | (key, value) :: rest => key.size + value.size + Node.sizeOfEntries rest

end

mutual

-- The node whose anchor has a number. Of more than one the last counts.
def Node.anchored? (n : Nat) : Node → Option Node
  | .alias _ _ => none
  | .scalar m props style text =>
    if props.anchor = some n then some (.scalar m props style text) else none
  | .sequence m props items =>
    (Node.anchoredItem? n items).or
      (if props.anchor = some n then some (.sequence m props items) else none)
  | .mapping m props entries =>
    (Node.anchoredEntry? n entries).or
      (if props.anchor = some n then some (.mapping m props entries) else none)

def Node.anchoredItem? (n : Nat) : List Node → Option Node
  | [] => none
  | item :: rest => (Node.anchoredItem? n rest).or (item.anchored? n)

def Node.anchoredEntry? (n : Nat) : List (Node × Node) → Option Node
  | [] => none
  | (key, value) :: rest =>
    (Node.anchoredEntry? n rest).or ((value.anchored? n).or (key.anchored? n))

end

abbrev Expanding := StateT Nat (Except SyntaxError)

-- Follows one more alias. A document may have a hundred times as many as it has events.
def countAlias (limit : Nat) : Expanding Unit := do
  let count := (← get) + 1
  if limit < count then throw ⟨⟨0, 0⟩, .tooManyAliases⟩ else set count

mutual

-- The tree of a node in the document `root`, where collections may nest `depth` deep. An anchor is
-- never in front of an alias.
def Node.tree (root : Node) (limit : Nat) (depth : Nat) (node : Node) : Expanding Tree := do
  match node with
  | .alias m n =>
    countAlias limit
    match root.anchored? n with
    | some (.scalar m' props style text) => return .alias m (.scalar m' props.tag style text)
    | some (.sequence m' props items) =>
      return .alias m (← Node.sequenceTree root limit depth m' props items)
    | some (.mapping m' props entries) =>
      return .alias m (← Node.mappingTree root limit depth m' props entries)
    | _ => throw ⟨m, .unknownAnchor⟩
  | .scalar m props style text => return .scalar m props.tag style text
  | .sequence m props items => Node.sequenceTree root limit depth m props items
  | .mapping m props entries => Node.mappingTree root limit depth m props entries
termination_by 2 * depth + 1

def Node.sequenceTree (root : Node) (limit : Nat) (depth : Nat) (m : Mark) (props : Properties)
    (items : List Node) : Expanding Tree := do
  match depth with
  | 0 => throw ⟨m, .nestedTooDeep⟩
  | depth + 1 => return .sequence m props.tag (← items.mapM (Node.tree root limit depth))
termination_by 2 * depth

def Node.mappingTree (root : Node) (limit : Nat) (depth : Nat) (m : Mark) (props : Properties)
    (entries : List (Node × Node)) : Expanding Tree := do
  match depth with
  | 0 => throw ⟨m, .nestedTooDeep⟩
  | depth + 1 =>
    let entries ← entries.mapM fun (key, value) => do
      return (← Node.tree root limit depth key, ← Node.tree root limit depth value)
    return .mapping m props.tag entries
termination_by 2 * depth

end

def treeOf (s : String) : Except SyntaxError Tree := do
  let root ← nodeOf s
  let (tree, _) ← (Node.tree root (100 * root.size) maxDepth root).run 0
  .ok tree

end Skeleton.Yaml
