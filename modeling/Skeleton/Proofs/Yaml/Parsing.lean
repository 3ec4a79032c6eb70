import Mathlib
import Skeleton.Yaml.Node

-- What the reader of nodes makes of tokens. The places of tokens do not matter here.

namespace Skeleton.Yaml.NodeReader

def kinds (r : NodeReader) : List TokenKind := r.tokens.map (·.kind)

-- That tokens of some kinds give a result with `P`, up to the tokens that are left then.
def Reads {α : Type} (ks : List TokenKind) (x : Reading α) (rest : List TokenKind) (P : α → Prop) :
    Prop :=
  ∀ r : NodeReader, r.kinds = ks → ∃ a r', x.run r = .ok (a, r') ∧ r'.kinds = rest ∧ P a

section Judgments

variable {α β : Type} {ks mid rest : List TokenKind} {k k' : TokenKind} {x : Reading α}
  {f : α → Reading β} {P P' : α → Prop} {Q : β → Prop} {a : α}

theorem Reads.bind (hx : Reads ks x mid P) (hf : ∀ a, P a → Reads mid (f a) rest Q) :
    Reads ks (x >>= f) rest Q := by
  intro r hr
  obtain ⟨a, r', hrun, hr', ha⟩ := hx r hr
  obtain ⟨b, r'', hrun', hr'', hb⟩ := hf a ha r' hr'
  refine ⟨b, r'', ?_, hr'', hb⟩
  rw [StateT.run_bind, hrun]
  exact hrun'

theorem Reads.pure (ha : P a) : Reads ks (pure a) ks P := fun r hr => ⟨a, r, rfl, hr, ha⟩

theorem Reads.mono (hx : Reads ks x rest P) (h : ∀ a, P a → P' a) : Reads ks x rest P' := by
  intro r hr
  obtain ⟨a, r', hrun, hr', ha⟩ := hx r hr
  exact ⟨a, r', hrun, hr', h a ha⟩

theorem reads_mark : Reads ks mark ks fun _ => True := fun r hr => ⟨_, r, rfl, hr, trivial⟩

theorem reads_markBehind : Reads ks markBehind ks fun _ => True :=
  reads_mark.bind fun _ _ => .pure trivial

theorem reads_peek : Reads (k :: ks) peek (k :: ks) (· = k) := by
  intro r hr
  refine ⟨_, r, rfl, hr, ?_⟩
  obtain ⟨t, ts, htokens, hkind, -⟩ := List.map_eq_cons_iff.mp hr
  rw [next, htokens]
  exact hkind

theorem reads_skip : Reads (k :: ks) skip ks fun _ => True := by
  intro r hr
  obtain ⟨t, ts, htokens, -, hkinds⟩ := List.map_eq_cons_iff.mp hr
  exact ⟨(), _, rfl, by simp [kinds, htokens, hkinds], trivial⟩

theorem reads_accept : Reads (k :: ks) (accept k) ks (· = true) := by
  refine reads_peek.bind fun k' hk' => ?_
  obtain rfl := hk'
  rw [if_pos rfl]
  exact reads_skip.bind fun _ _ => .pure rfl

theorem reads_accept_other (h : k ≠ k') : Reads (k :: ks) (accept k') (k :: ks) (· = false) := by
  refine reads_peek.bind fun _ hpeek => ?_
  obtain rfl := hpeek
  rw [if_neg h]
  exact .pure rfl

-- The kinds of tokens that stand for an alias or come before a node.
def isProperty : TokenKind → Bool
  | .alias _ => true
  | .anchor _ => true
  | .tag _ _ => true
  | _ => false

theorem reads_properties (handles : List (String × String)) (h : isProperty k = false) :
    Reads (k :: ks) (properties handles) (k :: ks) (· = .none) := by
  have hanchor : Reads (k :: ks) acceptAnchor (k :: ks) (· = none) := by
    refine reads_peek.bind fun _ hpeek => ?_
    obtain rfl := hpeek
    split
    · cases h
    · exact .pure rfl
  have htag : Reads (k :: ks) (acceptTag handles) (k :: ks) (· = none) := by
    refine reads_peek.bind fun _ hpeek => ?_
    obtain rfl := hpeek
    split
    · cases h
    · exact .pure rfl
  refine hanchor.bind ?_
  rintro _ rfl
  refine htag.bind ?_
  rintro _ rfl
  exact .pure rfl

end Judgments

section Nodes

variable {handles : List (String × String)} {fuel : Nat} {inBlock indentless : Bool}
  {ks rest : List TokenKind} {k : TokenKind} {style : ScalarStyle} {text : String}
  {P : Node → Prop} {Ps : List (Node → Prop)}

def content (handles : List (String × String)) (fuel : Nat) (indentless : Bool) (m : Mark) :
    TokenKind → Reading Node
  | .scalar style text => do
    skip
    return scalarNode m .none style text
  | .flowSequenceStart => do
    skip
    return .sequence m .none (← flowItems handles fuel true)
  | .flowMappingStart => do
    skip
    return .mapping m .none (← flowEntries handles fuel true)
  | .blockEntry =>
    if indentless then do return .sequence m .none (← indentlessItems handles fuel)
    else fail .nodeContent
  | .blockSequenceStart => do
    skip
    return .sequence m .none (← blockItems handles fuel)
  | .blockMappingStart => do
    skip
    return .mapping m .none (← blockEntries handles fuel)
  | _ => fail .nodeContent

theorem reads_node (hproperty : isProperty k = false)
    (h : ∀ m, Reads (k :: ks) (content handles fuel indentless m k) rest P) :
    Reads (k :: ks) (node handles (fuel + 1) true indentless) rest P := by
  rw [node]
  refine reads_mark.bind fun m _ => reads_peek.bind fun first hfirst => ?_
  subst hfirst
  cases first
  case «alias» => cases hproperty
  case anchor => cases hproperty
  case tag => cases hproperty
  all_goals
    refine (reads_properties handles hproperty).bind ?_
    rintro _ rfl
    refine reads_peek.bind ?_
    rintro _ rfl
    exact h m

theorem reads_scalar : Reads (.scalar style text :: ks) (node handles (fuel + 1) true indentless)
    ks fun n => ∃ m, n = .scalar m .none style text :=
  reads_node rfl fun m => reads_skip.bind fun _ _ => .pure ⟨m, rfl⟩

theorem reads_emptySequence : Reads (.flowSequenceStart :: .flowSequenceEnd :: ks)
    (node handles (fuel + 2) true indentless) ks fun n => ∃ m, n = .sequence m .none [] := by
  refine reads_node rfl fun m => reads_skip.bind fun _ _ => ?_
  have hitems : Reads (.flowSequenceEnd :: ks) (flowItems handles (fuel + 1) true) ks (· = []) := by
    rw [flowItems]
    refine reads_accept.bind ?_
    rintro _ rfl
    exact .pure rfl
  refine hitems.bind ?_
  rintro _ rfl
  exact .pure ⟨m, rfl⟩

theorem reads_emptyMapping : Reads (.flowMappingStart :: .flowMappingEnd :: ks)
    (node handles (fuel + 2) true indentless) ks fun n => ∃ m, n = .mapping m .none [] := by
  refine reads_node rfl fun m => reads_skip.bind fun _ _ => ?_
  have hentries : Reads (.flowMappingEnd :: ks) (flowEntries handles (fuel + 1) true) ks
      (· = []) := by
    rw [flowEntries]
    refine reads_accept.bind ?_
    rintro _ rfl
    exact .pure rfl
  refine hentries.bind ?_
  rintro _ rfl
  exact .pure ⟨m, rfl⟩

end Nodes

section Collections

-- That tokens are those of one node with `P`. A node that may be a sequence without a start ends
-- before a token that is no entry.
structure IsNode (handles : List (String × String)) (indentless : Bool) (ks : List TokenKind)
    (P : Node → Prop) : Prop where
  starts : ∃ k tail, ks = k :: tail ∧ endsDocument k = false ∧ endsBlockPart k = false ∧
    (indentless = false → endsBlockItem k = false)
  reads : ∀ {fuel : Nat} {rest : List TokenKind}, rest ≠ [] →
    (indentless = true → rest.head? ≠ some .blockEntry) → 4 * (ks ++ rest).length ≤ fuel →
    Reads (ks ++ rest) (node handles fuel true indentless) rest P

variable {handles : List (String × String)} {fuel : Nat} {indentless : Bool} {m : Mark}
  {ks rest : List TokenKind} {P : Node → Prop} {ends : TokenKind → Bool}

theorem IsNode.optional (h : IsNode handles indentless ks P)
    (hends : ∀ k, endsBlockPart k = false → (indentless = false → endsBlockItem k = false) →
      ends k = false)
    (hrest : rest ≠ []) (hnext : indentless = true → rest.head? ≠ some .blockEntry)
    (hfuel : 4 * (ks ++ rest).length < fuel) :
    Reads (ks ++ rest) (optionalNode handles fuel m ends true indentless) rest P := by
  obtain ⟨fuel, rfl⟩ : ∃ f, fuel = f + 1 := ⟨fuel - 1, by omega⟩
  obtain ⟨k, tail, hks, -, hpart, hitem⟩ := h.starts
  have hnode := h.reads hrest hnext (Nat.le_of_lt_succ hfuel)
  rw [hks, List.cons_append] at hnode ⊢
  rw [optionalNode]
  refine reads_peek.bind fun first hfirst => ?_
  rw [if_neg (by simp [hfirst, hends k hpart hitem])]
  exact hnode

abbrev Part := List TokenKind × (Node → Prop)

def itemTokens (parts : List Part) : List TokenKind :=
  parts.flatMap fun part => .blockEntry :: part.1

def AreItems (parts : List Part) (items : List Node) : Prop :=
  List.Forall₂ (fun part item => part.2 item) parts items

variable {parts : List Part} {pairs : List (Part × Part)}

theorem itemTokens_cons (part : Part) : itemTokens (part :: parts) ++ rest =
    .blockEntry :: (part.1 ++ (itemTokens parts ++ rest)) := by
  simp [itemTokens]

theorem reads_blockItems (h : ∀ part ∈ parts, IsNode handles false part.1 part.2)
    (hfuel : 4 * (itemTokens parts ++ .blockEnd :: rest).length ≤ fuel + 1) :
    Reads (itemTokens parts ++ .blockEnd :: rest) (blockItems handles fuel) rest (AreItems parts) := by
  induction parts generalizing fuel with
  | nil =>
    obtain ⟨fuel, rfl⟩ : ∃ f, fuel = f + 1 := ⟨fuel - 1, by
      simp only [List.length_append, List.length_cons] at hfuel
      omega⟩
    rw [blockItems]
    refine reads_markBehind.bind fun m _ => (reads_accept_other (by decide)).bind ?_
    rintro _ rfl
    refine reads_accept.bind ?_
    rintro _ rfl
    exact .pure .nil
  | cons part parts ih =>
    obtain ⟨hpart, hparts⟩ := List.forall_mem_cons.mp h
    rw [itemTokens_cons] at hfuel ⊢
    have hlength : 4 * (part.1 ++ (itemTokens parts ++ .blockEnd :: rest)).length + 3 ≤ fuel := by
      simp only [List.length_cons] at hfuel
      omega
    obtain ⟨fuel, rfl⟩ : ∃ f, fuel = f + 1 := ⟨fuel - 1, by omega⟩
    rw [blockItems]
    refine reads_markBehind.bind fun m _ => reads_accept.bind ?_
    rintro _ rfl
    refine (hpart.optional (fun k _ hitem => hitem rfl) (by simp) nofun (by omega)).bind
      fun n hn => ?_
    refine (ih hparts ?_).bind fun ns hns => .pure (.cons hn hns)
    rw [List.length_append] at hlength
    omega

-- A sequence behind a key has no end of its own.
theorem reads_indentlessItems (h : ∀ part ∈ parts, IsNode handles false part.1 part.2)
    (hrest : rest ≠ []) (hnext : rest.head? ≠ some .blockEntry)
    (hfuel : 4 * (itemTokens parts ++ rest).length ≤ fuel + 1) :
    Reads (itemTokens parts ++ rest) (indentlessItems handles fuel) rest (AreItems parts) := by
  induction parts generalizing fuel with
  | nil =>
    obtain ⟨k, tail, rfl⟩ := List.exists_cons_of_ne_nil hrest
    obtain ⟨fuel, rfl⟩ : ∃ f, fuel = f + 1 := ⟨fuel - 1, by
      simp only [List.length_append, List.length_cons] at hfuel
      omega⟩
    rw [indentlessItems]
    refine reads_markBehind.bind fun m _ => (reads_accept_other ?_).bind ?_
    · simpa using hnext
    rintro _ rfl
    exact .pure .nil
  | cons part parts ih =>
    obtain ⟨hpart, hparts⟩ := List.forall_mem_cons.mp h
    rw [itemTokens_cons] at hfuel ⊢
    have hlength : 4 * (part.1 ++ (itemTokens parts ++ rest)).length + 3 ≤ fuel := by
      simp only [List.length_cons] at hfuel
      omega
    obtain ⟨fuel, rfl⟩ : ∃ f, fuel = f + 1 := ⟨fuel - 1, by omega⟩
    rw [indentlessItems]
    refine reads_markBehind.bind fun m _ => reads_accept.bind ?_
    rintro _ rfl
    refine (hpart.optional (fun k hpart hitem => ?_) (by simp [hrest]) nofun (by omega)).bind
      fun n hn => ?_
    · simp [hpart, hitem rfl]
    refine (ih hparts ?_).bind fun ns hns => .pure (.cons hn hns)
    rw [List.length_append] at hlength
    omega

def entryTokens (pairs : List (Part × Part)) : List TokenKind :=
  pairs.flatMap fun pair => .key :: (pair.1.1 ++ .value :: pair.2.1)

def AreEntries (pairs : List (Part × Part)) (entries : List (Node × Node)) : Prop :=
  List.Forall₂ (fun pair entry => pair.1.2 entry.1 ∧ pair.2.2 entry.2) pairs entries

theorem entryTokens_cons (key value : Part) : entryTokens ((key, value) :: pairs) ++ rest =
    .key :: (key.1 ++ .value :: (value.1 ++ (entryTokens pairs ++ rest))) := by
  simp [entryTokens]

theorem head?_entryTokens (h : rest.head? ≠ some .blockEntry) :
    (entryTokens pairs ++ rest).head? ≠ some .blockEntry := by
  cases pairs with
  | nil => exact h
  | cons pair pairs => simp [entryTokens]

theorem reads_blockEntries
    (h : ∀ pair ∈ pairs, IsNode handles true pair.1.1 pair.1.2 ∧ IsNode handles true pair.2.1 pair.2.2)
    (hfuel : 4 * (entryTokens pairs ++ .blockEnd :: rest).length ≤ fuel + 1) :
    Reads (entryTokens pairs ++ .blockEnd :: rest) (blockEntries handles fuel) rest
      (AreEntries pairs) := by
  induction pairs generalizing fuel with
  | nil =>
    obtain ⟨fuel, rfl⟩ : ∃ f, fuel = f + 1 := ⟨fuel - 1, by
      simp only [List.length_append, List.length_cons] at hfuel
      omega⟩
    rw [blockEntries]
    refine reads_markBehind.bind fun m _ => (reads_accept_other (by decide)).bind ?_
    rintro _ rfl
    refine reads_accept.bind ?_
    rintro _ rfl
    exact .pure .nil
  | cons pair pairs ih =>
    obtain ⟨key, value⟩ := pair
    obtain ⟨⟨hkey, hvalue⟩, hpairs⟩ := List.forall_mem_cons.mp h
    simp only at hkey hvalue
    rw [entryTokens_cons] at hfuel ⊢
    have hlength : 4 * (key.1 ++ .value :: (value.1 ++ (entryTokens pairs ++ .blockEnd :: rest))).length
        + 3 ≤ fuel := by
      simp only [List.length_cons] at hfuel
      omega
    obtain ⟨fuel, rfl⟩ : ∃ f, fuel = f + 1 := ⟨fuel - 1, by omega⟩
    rw [blockEntries]
    refine reads_markBehind.bind fun m _ => reads_accept.bind ?_
    rintro _ rfl
    refine (hkey.optional (fun k hpart _ => hpart) (by simp) (by simp) (by omega)).bind
      fun k hk => ?_
    refine reads_mark.bind fun _ _ => reads_markBehind.bind fun behind _ => ?_
    have hshorter := hlength
    rw [List.length_append, List.length_cons] at hshorter
    refine reads_accept.bind ?_
    rintro _ rfl
    refine (hvalue.optional (fun k hpart _ => hpart) (by simp)
      (fun _ => head?_entryTokens (by simp)) (by omega)).bind fun v hv => ?_
    refine (ih hpairs ?_).bind fun entries hentries => .pure (.cons ⟨hk, hv⟩ hentries)
    rw [List.length_append] at hshorter
    omega

end Collections

section Forms

variable {handles : List (String × String)} {indentless : Bool} {style : ScalarStyle}
  {text : String} {ks : List TokenKind} {P P' : Node → Prop} {parts : List Part}
  {pairs : List (Part × Part)}

theorem IsNode.mono (h : IsNode handles indentless ks P) (hP : ∀ n, P n → P' n) :
    IsNode handles indentless ks P' where
  starts := h.starts
  reads hrest hnext hfuel := (h.reads hrest hnext hfuel).mono hP

theorem isNode_scalar : IsNode handles indentless [.scalar style text]
    fun n => ∃ m, n = .scalar m .none style text where
  starts := ⟨_, _, rfl, rfl, rfl, fun _ => rfl⟩
  reads {fuel rest} hrest hnext hfuel := by
    obtain ⟨fuel, rfl⟩ : ∃ f, fuel = f + 1 := ⟨fuel - 1, by
      simp only [List.length_append, List.length_cons] at hfuel
      omega⟩
    exact reads_scalar

theorem isNode_emptySequence : IsNode handles indentless [.flowSequenceStart, .flowSequenceEnd]
    fun n => ∃ m, n = .sequence m .none [] where
  starts := ⟨_, _, rfl, rfl, rfl, fun _ => rfl⟩
  reads {fuel rest} hrest hnext hfuel := by
    obtain ⟨fuel, rfl⟩ : ∃ f, fuel = f + 2 := ⟨fuel - 2, by
      simp only [List.length_append, List.length_cons] at hfuel
      omega⟩
    exact reads_emptySequence

theorem isNode_emptyMapping : IsNode handles indentless [.flowMappingStart, .flowMappingEnd]
    fun n => ∃ m, n = .mapping m .none [] where
  starts := ⟨_, _, rfl, rfl, rfl, fun _ => rfl⟩
  reads {fuel rest} hrest hnext hfuel := by
    obtain ⟨fuel, rfl⟩ : ∃ f, fuel = f + 2 := ⟨fuel - 2, by
      simp only [List.length_append, List.length_cons] at hfuel
      omega⟩
    exact reads_emptyMapping

theorem isNode_sequence (h : ∀ part ∈ parts, IsNode handles false part.1 part.2) :
    IsNode handles indentless (.blockSequenceStart :: (itemTokens parts ++ [.blockEnd]))
      fun n => ∃ m items, n = .sequence m .none items ∧ AreItems parts items where
  starts := ⟨_, _, rfl, rfl, rfl, fun _ => rfl⟩
  reads {fuel rest} hrest hnext hfuel := by
    rw [List.cons_append, List.length_cons] at hfuel
    obtain ⟨fuel, rfl⟩ : ∃ f, fuel = f + 1 := ⟨fuel - 1, by omega⟩
    rw [List.append_assoc, List.singleton_append] at hfuel
    rw [List.cons_append, List.append_assoc, List.singleton_append]
    exact reads_node rfl fun m => reads_skip.bind fun _ _ =>
      (reads_blockItems h (by omega)).bind fun items hitems => .pure ⟨m, items, rfl, hitems⟩

theorem isNode_indentless (h : ∀ part ∈ parts, IsNode handles false part.1 part.2)
    (hne : parts ≠ []) : IsNode handles true (itemTokens parts)
      fun n => ∃ m items, n = .sequence m .none items ∧ AreItems parts items := by
  obtain ⟨part, rest', rfl⟩ := List.exists_cons_of_ne_nil hne
  refine ⟨⟨.blockEntry, _, rfl, rfl, rfl, nofun⟩, fun {fuel rest} hrest hnext hfuel => ?_⟩
  obtain ⟨fuel, rfl⟩ : ∃ f, fuel = f + 1 := ⟨fuel - 1, by
    simp only [List.length_append, itemTokens, List.flatMap_cons, List.length_cons] at hfuel
    omega⟩
  have hitems := reads_indentlessItems h hrest (hnext rfl) hfuel
  rw [itemTokens_cons] at hitems ⊢
  exact reads_node rfl fun m => hitems.bind fun items hitems => .pure ⟨m, items, rfl, hitems⟩

theorem isNode_mapping
    (h : ∀ pair ∈ pairs, IsNode handles true pair.1.1 pair.1.2 ∧ IsNode handles true pair.2.1 pair.2.2) :
    IsNode handles indentless (.blockMappingStart :: (entryTokens pairs ++ [.blockEnd]))
      fun n => ∃ m entries, n = .mapping m .none entries ∧ AreEntries pairs entries where
  starts := ⟨_, _, rfl, rfl, rfl, fun _ => rfl⟩
  reads {fuel rest} hrest hnext hfuel := by
    rw [List.cons_append, List.length_cons] at hfuel
    obtain ⟨fuel, rfl⟩ : ∃ f, fuel = f + 1 := ⟨fuel - 1, by omega⟩
    rw [List.append_assoc, List.singleton_append] at hfuel
    rw [List.cons_append, List.append_assoc, List.singleton_append]
    exact reads_node rfl fun m => reads_skip.bind fun _ _ =>
      (reads_blockEntries h (by omega)).bind fun entries hentries => .pure ⟨m, entries, rfl, hentries⟩

theorem reads_get : Reads ks get ks fun r : NodeReader => r.kinds = ks := fun r hr =>
  ⟨r, r, rfl, hr, hr⟩

theorem reads_skipDocumentEnds (n : Nat) :
    Reads (.streamEnd :: ks) (skipDocumentEnds n) (.streamEnd :: ks) fun _ => True := by
  cases n with
  | zero => exact .pure trivial
  | succ n =>
    rw [skipDocumentEnds]
    refine (reads_accept_other (by decide)).bind ?_
    rintro _ rfl
    exact .pure trivial

-- A document without directives that is one node.
theorem reads_document (h : IsNode defaultHandles false ks P) :
    Reads (ks ++ [.streamEnd]) document [.streamEnd] P := by
  obtain ⟨k, tail, hks, hdocument, -, -⟩ := h.starts
  have hends := hdocument
  simp only [endsDocument, Bool.or_eq_false_iff, decide_eq_false_iff_not] at hends
  obtain ⟨⟨⟨hdirective, hstart⟩, -⟩, hend⟩ := hends
  rw [document]
  refine reads_get.bind fun r hr => reads_mark.bind fun m _ => ?_
  have hsize : (ks ++ [TokenKind.streamEnd]).length = r.tokens.length := by
    rw [← hr, kinds, List.length_map]
  have hroot := @IsNode.reads _ _ _ _ h _ [.streamEnd] (by simp) nofun
    (congrArg (4 * ·) hsize).le
  rw [hks, List.cons_append] at hroot ⊢
  refine reads_peek.bind ?_
  rintro _ rfl
  rw [if_neg hend, if_neg (by simp [hdirective, hstart])]
  refine hroot.bind fun n hn => (reads_skipDocumentEnds _).bind fun _ _ => reads_peek.bind ?_
  rintro _ rfl
  exact .pure hn

end Forms

end Skeleton.Yaml.NodeReader
