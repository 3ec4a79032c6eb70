import Skeleton.Proofs.Yaml.CollectionTokens
import Skeleton.Proofs.Yaml.NumberTexts

-- The tokens of documents that were written.

namespace Skeleton.Yaml

mutual

-- The tokens of a value, where the last string is read as another one. Behind a key on one line
-- the items of a sequence stand without a start and an end.
def kindsOf (last : String → String) (behindKey : Bool) : Value → List TokenKind
  | .bool b => [.scalar .plain (if b then "true" else "false")]
  | .integer n => [.scalar .plain (Text.decimalInt n.toInt)]
  | .float d => [.scalar .plain (floatLayout.write d)]
  | .string s => [.scalar (styleOf s).token (last s)]
  | .sequence [] => [.flowSequenceStart, .flowSequenceEnd]
  | .mapping [] => [.flowMappingStart, .flowMappingEnd]
  | .sequence (item :: rest) =>
    if behindKey then itemKinds last (item :: rest)
    else .blockSequenceStart :: (itemKinds last (item :: rest) ++ [.blockEnd])
  | .mapping (entry :: rest) =>
    .blockMappingStart :: (entryKinds last (entry :: rest) ++ [.blockEnd])

def itemKinds (last : String → String) : List Value → List TokenKind
  | [] => []
  | [item] => .blockEntry :: kindsOf last false item
  | item :: rest => .blockEntry :: (kindsOf id false item ++ itemKinds last rest)

def entryKinds (last : String → String) : List (String × Value) → List TokenKind
  | [] => []
  | [(name, item)] =>
    .key :: .scalar (styleOf name).token name :: .value :: kindsOf last (isSimpleKey name) item
  | (name, item) :: rest =>
    .key :: .scalar (styleOf name).token name :: .value ::
      (kindsOf id (isSimpleKey name) item ++ entryKinds last rest)

end

def isLeaf : Value → Bool
  | .sequence (_ :: _) => false
  | .mapping (_ :: _) => false
  | _ => true

namespace Level

variable {v : Level} {ks ks' : List TokenKind} {k : TokenKind} {n : Nat}

def addAll (v : Level) (ks : List TokenKind) : Level := { v with kinds := v.kinds ++ ks }

@[simp]
theorem addAll_addAll : (v.addAll ks).addAll ks' = v.addAll (ks ++ ks') := by
  simp [addAll]

@[simp]
theorem add_eq (v : Level) (k : TokenKind) : v.add k = v.addAll [k] := rfl

theorem enter_addAll (h : v.indent = n) : (v.addAll ks).enter n k = v.addAll ks := by
  rw [enter, if_pos]
  exact h.ge

end Level

section Starts

variable {n i : Nat} {w u : List Char} {ws : List (List Char)} {p : Follow}

def Starts (w : List Char) : Prop :=
  ∃ x rest, w = x :: rest ∧ x ≠ ' ' ∧ x ≠ '\t' ∧ x ≠ '#' ∧ isBreak x = false

theorem Starts.append (h : Starts w) : Starts (w ++ u) := by
  obtain ⟨x, rest, rfl, hx⟩ := h
  exact ⟨x, rest ++ u, rfl, hx⟩

theorem Starts.place_append (h : Starts w) (p : Follow) (front : List Char) :
    p.place (front ++ w) = front ++ p.place w := by
  obtain ⟨x, rest, rfl, -, -, -, hx⟩ := h
  exact p.place_append front hx

theorem Starts.startsToken (h : Starts w) (p : Follow) : StartsToken (p.place w) := by
  obtain ⟨x, rest, rfl, hx⟩ := h
  rw [p.place_cons hx.2.2.2]
  intro y hy
  obtain rfl := Option.some.inj hy
  exact hx

theorem Starts.place_ne_nil (h : Starts w) (p : Follow) : p.place w ≠ [] := by
  obtain ⟨x, rest, rfl, hx⟩ := h
  rw [p.place_cons hx.2.2.2]
  exact List.cons_ne_nil _ _

theorem Starts.onNewLine (h : Starts w) : Starts (onNewLine n w) := by
  rw [Yaml.onNewLine]
  split <;> exact h.append

theorem starts_joinLines (h : Starts w) : Starts (joinLines n (w :: ws)) := by
  cases ws with
  | nil => exact h
  | cons u ws => exact h.onNewLine.append

theorem starts_of_plainAllowed (hne : w ≠ []) (h : plainAllowed w = true) : Starts w := by
  obtain ⟨x, rest, rfl⟩ := List.exists_cons_of_ne_nil hne
  have hx := startsScalar_of_plainAllowed (p := .cut) h
  have hblank := hx.notBlank
  simp only [isBlankChar, Bool.or_eq_false_iff, beq_eq_false_iff_ne] at hblank
  exact ⟨x, rest, rfl, hblank.1, hblank.2, hx.notIndicator '#' (by decide), hx.notBreak⟩

theorem ne_nil_of_styleOf {s : String} (h : styleOf s = .plain) : s.toList ≠ [] := by
  rintro hnil
  obtain rfl : s = "" := String.toList_eq_nil_iff.mp hnil
  exact absurd (plain_of_styleOf h).1 (by decide)

theorem starts_writeString (i : Nat) (s : String) : Starts (writeString i s) := by
  cases hstyle : styleOf s with
  | plain =>
    simp only [writeString, hstyle]
    exact starts_of_plainAllowed (ne_nil_of_styleOf hstyle) (plain_of_styleOf hstyle).2.2
  | single =>
    simp only [writeString, hstyle]
    exact ⟨'\'', _, rfl, by decide⟩
  | double =>
    simp only [writeString, hstyle]
    exact ⟨'"', _, rfl, by decide⟩
  | literal =>
    simp only [writeString, hstyle]
    exact ⟨'|', _, rfl, by decide⟩

theorem starts_writeEntry (name : String) (after below : List Char) :
    Starts (writeEntry n name after below) := by
  rw [writeEntry]
  split
  · exact (starts_writeString _ _).append
  · exact (Starts.onNewLine ⟨'?', _, rfl, by decide⟩).append

theorem starts_writeAt (i : Nat) (v : Value) : Starts (writeAt i v) := by
  cases v with
  | bool b => cases b <;> exact ⟨_, _, rfl, by decide⟩
  | integer n =>
    rw [writeAt]
    exact starts_of_plainAllowed (Text.decimalInt_ne_empty _) (plainAllowed_decimalInt _)
  | float d =>
    rw [writeAt]
    refine starts_of_plainAllowed ?_ (plainAllowed_write d)
    obtain ⟨c, rest, h, -⟩ := Double.head_write d
    simp [h]
  | string s =>
    rw [writeAt]
    exact starts_writeString i s
  | sequence items =>
    cases items with
    | nil =>
      rw [writeAt]
      exact ⟨'[', _, rfl, by decide⟩
    | cons item rest =>
      rw [writeAt]
      exact starts_joinLines ⟨'-', _, rfl, by decide⟩
  | mapping fields =>
    cases fields with
    | nil =>
      rw [writeAt]
      exact ⟨'\x7b', _, rfl, by decide⟩
    | cons entry rest =>
      rw [writeAt]
      exact starts_joinLines (starts_writeEntry _ _ _)

end Starts

section Lines

variable {v : Level} {n m : Nat} {p : Follow} {start : TokenKind} {kinds ks : List TokenKind}

theorem after_enter (hdeeper : v.indent < n) (hfits : p.Fits v.indent)
    (hafter : After (v.addAll (start :: (ks ++ [.blockEnd]))) kinds p) :
    After ((v.enter n start).addAll ks) kinds p := by
  have hclose {column : Int} (h : column < n) : ((v.enter n start).addAll ks).close column =
      (v.addAll (start :: (ks ++ [.blockEnd]))).close column := by
    rw [Level.addAll, Level.close_enter hdeeper h, Level.enter, if_neg (by omega)]
    simp [Level.addAll]
  have hended : ((v.enter n start).addAll ks).ended =
      (v.addAll (start :: (ks ++ [.blockEnd]))).ended := by
    rw [Level.ended, hclose (by omega), Level.ended]
  cases p with
  | colon rest => exact hafter
  | cut => exact hafter.trans hended.symm
  | line column rest =>
    rw [After] at hafter ⊢
    split at hafter
    · rename_i hrest
      rw [if_pos hrest]
      exact hafter.trans hended.symm
    · rename_i hrest
      rw [if_neg hrest, hclose]
      · exact hafter
      · have hcolumn := hfits.2.resolve_right fun h => hrest h.1
        omega

abbrev Kinds := (String → String) → List TokenKind

-- That a text from a column on is an item or an entry of a collection, or some of them.
structure IsPart (n : Nat) (start : TokenKind) (w : List Char) (ks : Kinds) : Prop where
  starts : Starts w
  yields : ∀ {v : Level} {p : Follow} {kinds : List TokenKind}, v.indent ≤ n → p.Fits n →
    After ((v.enter n start).addAll (ks p.kept)) kinds p → Yields v n true (p.place w) kinds

def joinKinds : List Kinds → Kinds
  | [], _ => []
  | [ks], last => ks last
  | ks :: rest, last => ks id ++ joinKinds rest last

-- Each part stands on lines of its own.
theorem isPart_joinLines {ws : List (List Char)} {kss : List Kinds}
    (h : List.Forall₂ (IsPart n start) ws kss) (hne : ws ≠ []) :
    IsPart n start (joinLines n ws) (joinKinds kss) := by
  induction h with
  | nil => exact absurd rfl hne
  | @cons w ks ws kss hpart hrest ih =>
    cases hrest with
    | nil => exact hpart
    | @cons w' ks' ws kss hpart' hrest =>
      have hjoined := ih (by simp)
      refine ⟨starts_joinLines hpart.starts, fun {v p kinds} hindent hfits hafter => ?_⟩
      have hnext : p.place (joinLines n (w :: w' :: ws)) =
          (Follow.line n (p.place (joinLines n (w' :: ws)))).place w := by
        rw [joinLines, hjoined.starts.place_append p, Follow.place]
        exact List.cons_ne_nil _ _
      rw [hnext]
      refine hpart.yields hindent ⟨hjoined.starts.startsToken p, .inl le_rfl⟩ ?_
      have hsame : ((v.enter n start).addAll (ks id)).indent = n := indent_enter hindent
      rw [After, if_neg (hjoined.starts.place_ne_nil p)]
      show Yields (((v.enter n start).addAll (ks id)).close n) n true _ kinds
      rw [Level.close_of_le hsame.le]
      refine hjoined.yields hsame.le hfits ?_
      rw [Level.enter_addAll (indent_enter hindent), Level.addAll_addAll]
      exact hafter

end Lines

section Values

variable {lv : Level} {n i : Nat} {b behindKey : Bool} {p : Follow} {kinds : List TokenKind} {v : Value}

-- Leaves may stand on the line of a key.
theorem yields_leaf (hleaf : isLeaf v = true) (hi : i = (max lv.indent 0).toNat + 2)
    (hfits : p.Fits lv.indent) (hdeeper : lv.indent < n)
    (hafter : After (lv.addAll (kindsOf p.kept behindKey v)) kinds p) :
    Yields lv n b (p.place (writeAt i v)) kinds := by
  cases v with
  | bool b =>
    rw [kindsOf] at hafter
    have hword : (if b then "true" else "false").toList ≠ [] ∧
        plainAllowed (if b then "true" else "false").toList = true := by
      cases b <;> decide
    rw [writeAt]
    refine yields_plain hword.1 hword.2 hfits hdeeper ?_
    rwa [String.ofList_toList]
  | integer n =>
    rw [kindsOf] at hafter
    rw [writeAt]
    refine yields_plain (Text.decimalInt_ne_empty _) (plainAllowed_decimalInt _) hfits hdeeper ?_
    rwa [String.ofList_toList]
  | float d =>
    rw [kindsOf] at hafter
    obtain ⟨c, rest, hwrite, -⟩ := Double.head_write d
    rw [writeAt]
    refine yields_plain (by simp [hwrite]) (plainAllowed_write d) hfits hdeeper ?_
    rwa [String.ofList_toList]
  | string s =>
    rw [kindsOf] at hafter
    rw [writeAt]
    exact yields_string hi hfits hdeeper hafter
  | sequence items =>
    cases items with
    | nil =>
      rw [kindsOf] at hafter
      rw [writeAt]
      refine yields_brackets (.inl ⟨rfl, rfl, rfl, rfl⟩) hfits hdeeper ?_
      rwa [Level.add_eq, Level.add_eq, Level.addAll_addAll]
    | cons => cases hleaf
  | mapping fields =>
    cases fields with
    | nil =>
      rw [kindsOf] at hafter
      rw [writeAt]
      refine yields_brackets (.inr ⟨rfl, rfl, rfl, rfl⟩) hfits hdeeper ?_
      rwa [Level.add_eq, Level.add_eq, Level.addAll_addAll]
    | cons => cases hleaf

def Lexed (v : Value) : Prop :=
  ∀ {lv : Level} {i : Nat} {p : Follow} {kinds : List TokenKind}, (i : Int) = lv.indent + 2 →
    0 ≤ lv.indent → p.Fits lv.indent → After (lv.addAll (kindsOf p.kept false v)) kinds p →
    Yields lv i true (p.place (writeAt i v)) kinds

def kindsOfItem (item : Value) : Kinds := fun last => .blockEntry :: kindsOf last false item

def kindsOfEntry (entry : String × Value) : Kinds := fun last =>
  .key :: .scalar (styleOf entry.1).token entry.1 :: .value ::
    kindsOf last (isSimpleKey entry.1) entry.2

theorem itemKinds_eq (last : String → String) (items : List Value) :
    itemKinds last items = joinKinds (items.map kindsOfItem) last := by
  induction items with
  | nil => rw [itemKinds, List.map_nil, joinKinds]
  | cons item rest ih =>
    cases rest with
    | nil => rw [itemKinds, List.map_singleton, joinKinds, kindsOfItem]
    | cons item' rest =>
      rw [itemKinds, ih]
      · rfl
      · exact nofun

theorem entryKinds_eq (last : String → String) (fields : List (String × Value)) :
    entryKinds last fields = joinKinds (fields.map kindsOfEntry) last := by
  induction fields with
  | nil => rw [entryKinds, List.map_nil, joinKinds]
  | cons entry rest ih =>
    cases rest with
    | nil => rw [entryKinds, List.map_singleton, joinKinds, kindsOfEntry]
    | cons entry' rest =>
      rw [entryKinds, ih]
      · rfl
      · exact nofun

theorem isPart_item (h : Lexed v) :
    IsPart n .blockSequenceStart ('-' :: ' ' :: writeAt (n + 2) v) (kindsOfItem v) where
  starts := ⟨'-', _, rfl, by decide⟩
  yields := by
    intro lv p kinds hindent hfits hafter
    have hsame := @indent_enter lv .blockSequenceStart n hindent
    rw [p.place_cons (by decide), p.place_cons (by decide)]
    refine yields_indicator (.inl ⟨rfl, rfl, rfl⟩) hindent ((starts_writeAt _ _).startsToken p) ?_
    refine h (?_ : _ = (lv.enter n .blockSequenceStart).indent + 2)
      (?_ : 0 ≤ (lv.enter n .blockSequenceStart).indent)
      (?_ : p.Fits (lv.enter n .blockSequenceStart).indent) ?_
    · rw [hsame]
      rfl
    · rw [hsame]
      omega
    · rwa [hsame]
    · rwa [Level.add_eq, Level.addAll_addAll]

theorem writeItems_eq (items : List Value) :
    writeItems n items = items.map fun item => '-' :: ' ' :: writeAt (n + 2) item := by
  induction items with
  | nil => rw [writeItems, List.map_nil]
  | cons item rest ih => rw [writeItems, ih, List.map_cons]

def writeField (n : Nat) (entry : String × Value) : List Char :=
  writeEntry n entry.1 (writeAfterKey n entry.2) (' ' :: writeAt (n + 2) entry.2)

theorem writeEntries_eq (fields : List (String × Value)) :
    writeEntries n fields = fields.map (writeField n) := by
  induction fields with
  | nil => rw [writeEntries, List.map_nil]
  | cons entry rest ih => rw [writeEntries, ih, List.map_cons, writeField]

theorem writeAfterKey_leaf (hleaf : isLeaf v = true) : writeAfterKey n v = ' ' :: writeAt (n + 2) v := by
  cases v with
  | sequence items =>
    cases items with
    | nil => rw [writeAfterKey, writeAt]
    | cons => cases hleaf
  | mapping fields =>
    cases fields with
    | nil => rw [writeAfterKey, writeAt]
    | cons => cases hleaf
  | _ => rw [writeAfterKey, writeAt]

variable {items : List Value} {fields : List (String × Value)}

theorem isPart_items (hne : items ≠ []) (h : ∀ item ∈ items, Lexed item) :
    IsPart n .blockSequenceStart (joinLines n (writeItems n items)) (fun last => itemKinds last items) := by
  have hparts : List.Forall₂ (IsPart n .blockSequenceStart) (writeItems n items)
      (items.map kindsOfItem) := by
    rw [writeItems_eq, List.forall₂_map_left_iff, List.forall₂_map_right_iff, List.forall₂_same]
    exact fun item hitem => isPart_item (h item hitem)
  have hjoined := isPart_joinLines hparts (by simpa [writeItems_eq] using hne)
  rwa [show (fun last => itemKinds last items) = joinKinds (items.map kindsOfItem) from
    funext fun last => itemKinds_eq last items]

-- That a value has its tokens behind a key, where collections start a line of their own.
def LexedBehindKey (v : Value) : Prop :=
  isLeaf v = true ∨ ∀ n, ∃ m w, writeAfterKey n v = '\n' :: (spaces m ++ w) ∧ Starts w ∧ n ≤ m ∧
    ∀ {lv : Level} {p : Follow} {kinds : List TokenKind}, lv.indent = n → p.Fits n →
      After (lv.addAll (kindsOf p.kept true v)) kinds p → Yields lv m true (p.place w) kinds

-- A key on one line with its value.
theorem yields_simple {name : String} (hname : isSimpleKey name = true) (hv : LexedBehindKey v)
    (hindent : lv.indent ≤ n) (hfits : p.Fits n)
    (hafter : After ((lv.enter n .blockMappingStart).addAll (kindsOfEntry (name, v) p.kept)) kinds p) :
    Yields lv n true (p.place (writeString (n + 2) name ++ ':' :: writeAfterKey n v)) kinds := by
  have hsame : (lv.keyed n (.scalar (styleOf name).token name)).indent = n := indent_keyed hindent
  have hafter : After ((lv.keyed n (.scalar (styleOf name).token name)).addAll
      (kindsOf p.kept true v)) kinds p := by
    rw [kindsOfEntry, hname] at hafter
    rwa [Level.keyed, Level.add_eq, Level.add_eq, Level.add_eq, Level.addAll_addAll,
      Level.addAll_addAll, Level.addAll_addAll]
  rcases hv with hleaf | hlines
  · have hstarts := starts_writeAt (n + 2) v
    have hplace := hstarts.place_append p (writeString (n + 2) name ++ [':', ' '])
    rw [List.append_assoc, List.append_assoc] at hplace
    rw [writeAfterKey_leaf hleaf]
    refine (congrArg (Yields lv n true · kinds) hplace).mpr ?_
    refine yields_key_space hname hindent (by omega) (hstarts.startsToken p) fun column hcolumn => ?_
    refine yields_leaf hleaf ?_ (hsame ▸ hfits) ?_ hafter
    · rw [hsame]
      omega
    · rw [hsame]
      omega
  · obtain ⟨m, w, htext, hstarts, hle, hyields⟩ := hlines n
    have hplace := hstarts.place_append p (writeString (n + 2) name ++ ':' :: '\n' :: spaces m)
    rw [List.append_assoc, List.append_assoc] at hplace
    rw [htext]
    refine (congrArg (Yields lv n true · kinds) hplace).mpr ?_
    refine yields_key_line hname hindent (by omega) (hstarts.startsToken p) ?_
    rw [Level.close_of_le]
    · exact hyields hsame hfits hafter
    · rw [hsame]
      omega

-- A key behind a question mark, with its value on the next line.
theorem yields_explicit {name : String} (hname : isSimpleKey name = false) (hv : Lexed v)
    (hindent : lv.indent ≤ n) (hfits : p.Fits n)
    (hafter : After ((lv.enter n .blockMappingStart).addAll (kindsOfEntry (name, v) p.kept)) kinds p) :
    Yields lv n true (p.place (onNewLine n ('?' :: ' ' :: writeString (n + 2) name) ++
      ':' :: ' ' :: writeAt (n + 2) v)) kinds := by
  have hstarts := starts_writeAt (n + 2) v
  have hstartsKey := starts_writeString (n + 2) name
  have hsame : (lv.enter n .blockMappingStart).indent = n := indent_enter hindent
  -- the line of the value follows the key
  generalize hrest : ':' :: ' ' :: p.place (writeAt (n + 2) v) = rest
  have hcolon : StartsToken rest := by
    intro x hx
    rw [← hrest] at hx
    obtain rfl := Option.some.inj hx
    decide
  have hplace : p.place (onNewLine n ('?' :: ' ' :: writeString (n + 2) name) ++
      ':' :: ' ' :: writeAt (n + 2) v) =
        '?' :: ' ' :: (Follow.line n rest).place (writeString (n + 2) name) := by
    have hvalue : Starts (':' :: ' ' :: writeAt (n + 2) v) := ⟨':', _, rfl, by decide⟩
    rw [hvalue.place_append p, p.place_cons (by decide), p.place_cons (by decide), hrest,
      ← (Follow.line n rest).place_cons (by decide), ← (Follow.line n rest).place_cons (by decide)]
    rfl
  rw [hplace]
  refine yields_indicator (.inr (.inl ⟨rfl, rfl, rfl⟩)) hindent (hstartsKey.startsToken _) ?_
  refine yields_string (?_ : n + 2 = (max (lv.enter n .blockMappingStart).indent 0).toNat + 2)
    (?_ : (Follow.line n rest).Fits (lv.enter n .blockMappingStart).indent)
    (?_ : (lv.enter n .blockMappingStart).indent < _) ?_
  · rw [hsame]
    omega
  · rw [hsame]
    exact ⟨hcolon, .inl le_rfl⟩
  · rw [hsame]
    omega
  · rw [After, if_neg (hrest ▸ List.cons_ne_nil _ _), Level.add_eq, Level.add_eq,
      Level.addAll_addAll, Level.close_of_le (show (Level.addAll _ _).indent ≤ n from hsame.le),
      ← hrest]
    refine yields_indicator (.inr (.inr ⟨rfl, rfl, rfl⟩)) hsame.le (hstarts.startsToken p) ?_
    rw [Level.enter_addAll hsame]
    refine hv (?_ : _ = (lv.enter n .blockMappingStart).indent + 2)
      (?_ : 0 ≤ (lv.enter n .blockMappingStart).indent)
      (?_ : p.Fits (lv.enter n .blockMappingStart).indent) ?_
    · rw [hsame]
      rfl
    · rw [hsame]
      omega
    · rwa [hsame]
    · rw [kindsOfEntry, hname] at hafter
      rwa [Level.add_eq, Level.addAll_addAll, Level.addAll_addAll]

theorem isPart_entry {entry : String × Value} (hv : Lexed entry.2) (hkey : LexedBehindKey entry.2) :
    IsPart n .blockMappingStart (writeField n entry) (kindsOfEntry entry) where
  starts := starts_writeEntry _ _ _
  yields := by
    intro lv p kinds hindent hfits hafter
    rw [writeField, writeEntry]
    split
    · rename_i hname
      exact yields_simple hname hkey hindent hfits hafter
    · rename_i hname
      exact yields_explicit (by simpa using hname) hv hindent hfits hafter

theorem isPart_entries (hne : fields ≠ [])
    (h : ∀ entry ∈ fields, Lexed entry.2 ∧ LexedBehindKey entry.2) :
    IsPart n .blockMappingStart (joinLines n (writeEntries n fields))
      (fun last => entryKinds last fields) := by
  have hparts : List.Forall₂ (IsPart n .blockMappingStart) (writeEntries n fields)
      (fields.map kindsOfEntry) := by
    rw [writeEntries_eq, List.forall₂_map_left_iff, List.forall₂_map_right_iff, List.forall₂_same]
    exact fun entry hentry => isPart_entry (h entry hentry).1 (h entry hentry).2
  have hjoined := isPart_joinLines hparts (by simpa [writeEntries_eq] using hne)
  rwa [show (fun last => entryKinds last fields) = joinKinds (fields.map kindsOfEntry) from
    funext fun last => entryKinds_eq last fields]

theorem lexed_leaf (hleaf : isLeaf v = true) : Lexed v ∧ LexedBehindKey v := by
  refine ⟨fun {lv i p kinds} hi hlevel hfits hafter => ?_, .inl hleaf⟩
  exact yields_leaf hleaf (by omega) hfits (by omega) hafter

-- A collection that is not empty has its parts and their start and end.
theorem lexed_part {start : TokenKind} {w : Nat → List Char} {ks : Kinds}
    (hpart : ∀ n, IsPart n start (w n) ks) (htext : ∀ n, writeAt n v = w n)
    (hkinds : ∀ last, kindsOf last false v = start :: (ks last ++ [.blockEnd])) : Lexed v := by
  intro lv i p kinds hi hlevel hfits hafter
  rw [htext]
  rw [hkinds] at hafter
  exact (hpart i).yields (by omega) (hfits.mono (by omega)) (after_enter (by omega) hfits hafter)

theorem lexed_sequence (hne : items ≠ []) (h : ∀ item ∈ items, Lexed item) :
    Lexed (.sequence items) ∧ LexedBehindKey (.sequence items) := by
  obtain ⟨item, rest, rfl⟩ := List.exists_cons_of_ne_nil hne
  have hpart (n : Nat) := @isPart_items n _ hne h
  refine ⟨lexed_part hpart (fun n => by rw [writeAt, writeItems]) fun last => ?_, .inr fun n => ?_⟩
  · rw [kindsOf, if_neg (by decide)]
  · refine ⟨n, _, by rw [writeAfterKey, writeItems]; rfl, (hpart n).starts, le_rfl, ?_⟩
    intro lv p kinds hsame hfits hafter
    rw [kindsOf, if_pos rfl] at hafter
    refine (hpart n).yields hsame.le hfits ?_
    rwa [Level.enter, if_pos hsame.ge]

theorem lexed_mapping (hne : fields ≠ [])
    (h : ∀ entry ∈ fields, Lexed entry.2 ∧ LexedBehindKey entry.2) :
    Lexed (.mapping fields) ∧ LexedBehindKey (.mapping fields) := by
  obtain ⟨⟨name, item⟩, rest, rfl⟩ := List.exists_cons_of_ne_nil hne
  have hpart (n : Nat) := @isPart_entries n _ hne h
  refine ⟨lexed_part hpart (fun n => by rw [writeAt, writeEntries]) fun last => ?_, .inr fun n => ?_⟩
  · rw [kindsOf]
  · refine ⟨n + 2, _, by rw [writeAfterKey, writeEntries]; rfl, (hpart (n + 2)).starts, by omega, ?_⟩
    intro lv p kinds hsame hfits hafter
    rw [kindsOf] at hafter
    exact (hpart (n + 2)).yields (by omega) (hfits.mono (by omega))
      (after_enter (by omega) (hsame ▸ hfits) hafter)

-- Every value within a collection has its tokens.
theorem lexed : ∀ v : Value, Lexed v ∧ LexedBehindKey v
  | .sequence (item :: rest) =>
    lexed_sequence (List.cons_ne_nil _ _) fun item' _ => (lexed item').1
  | .mapping (entry :: rest) =>
    lexed_mapping (List.cons_ne_nil _ _) fun entry' _ => lexed entry'.2
  | .sequence [] => lexed_leaf rfl
  | .mapping [] => lexed_leaf rfl
  | .bool _ => lexed_leaf rfl
  | .integer _ => lexed_leaf rfl
  | .float _ => lexed_leaf rfl
  | .string _ => lexed_leaf rfl
termination_by v => sizeOf v
decreasing_by
  · rename_i hmem
    have := List.sizeOf_lt_of_mem hmem
    simp only [Value.sequence.sizeOf_spec]
    omega
  · rename_i hmem
    have hless := List.sizeOf_lt_of_mem hmem
    have hpart : sizeOf entry' = 1 + sizeOf entry'.1 + sizeOf entry'.2 := by
      cases entry'
      rfl
    simp only [Value.mapping.sizeOf_spec]
    omega

end Values

section Documents

variable {v : Value} {p : Follow}

def textOf : Value → List Char
  | .string s => writeString 2 s
  | v => writeAt 0 v

theorem toList_write (v : Value) : (write v).toList = onNewLine 0 (textOf v) := by
  cases v <;> simp only [write, textOf, String.toList_ofList]

theorem textOf_of_not_string (h : ∀ s, v ≠ .string s) : textOf v = writeAt 0 v := by
  cases v with
  | string s => exact absurd rfl (h s)
  | _ => rfl

theorem textOf_leaf (hleaf : isLeaf v = true) : textOf v = writeAt 2 v := by
  cases v with
  | sequence items =>
    cases items with
    | nil => rw [textOf, writeAt, writeAt]; exact nofun
    | cons => cases hleaf
  | mapping fields =>
    cases fields with
    | nil => rw [textOf, writeAt, writeAt]; exact nofun
    | cons => cases hleaf
  | string s => rw [textOf, writeAt]
  | _ => rw [textOf, writeAt, writeAt]; exact nofun

-- Where a document ends: behind a break, or before all breaks.
def EndsDocument (p : Follow) : Prop := p = .line 0 [] ∨ p = .cut

theorem yields_document (hp : EndsDocument p) : Yields ⟨[], -1, []⟩ 0 true (p.place (textOf v))
    (kindsOf p.kept false v ++ [.streamEnd]) := by
  have hfits : p.Fits (-1) := by
    rcases hp with rfl | rfl
    · exact ⟨by simp [StartsToken], .inr ⟨rfl, rfl⟩⟩
    · trivial
  have hafter : After (Level.addAll ⟨[], -1, []⟩ (kindsOf p.kept false v))
      (kindsOf p.kept false v ++ [.streamEnd]) p := by
    rcases hp with rfl | rfl <;> simp [After, Level.ended, Level.close, Level.closeFrom, Level.addAll]
  by_cases hleaf : isLeaf v = true
  · rw [textOf_leaf hleaf]
    exact yields_leaf hleaf rfl hfits (by decide) hafter
  · cases v with
    | sequence items =>
      obtain _ | ⟨item, rest⟩ := items
      · exact absurd rfl hleaf
      · have hpart := @isPart_items 0 _ (List.cons_ne_nil item rest) fun item' _ => (lexed item').1
        have htext : textOf (.sequence (item :: rest)) = joinLines 0 (writeItems 0 (item :: rest)) := by
          rw [@textOf_of_not_string (.sequence (item :: rest)) (by simp), writeAt, writeItems]
        rw [kindsOf, if_neg (by decide)] at hafter ⊢
        rw [htext]
        exact hpart.yields (by decide) (hfits.mono (by decide)) (after_enter (by decide) hfits hafter)
    | mapping fields =>
      obtain _ | ⟨⟨name, item⟩, rest⟩ := fields
      · exact absurd rfl hleaf
      · have hpart := @isPart_entries 0 _ (List.cons_ne_nil (name, item) rest)
          fun entry _ => lexed entry.2
        have htext : textOf (.mapping ((name, item) :: rest)) =
            joinLines 0 (writeEntries 0 ((name, item) :: rest)) := by
          rw [@textOf_of_not_string (.mapping ((name, item) :: rest)) (by simp), writeAt, writeEntries]
        rw [kindsOf] at hafter ⊢
        rw [htext]
        exact hpart.yields (by decide) (hfits.mono (by decide)) (after_enter (by decide) hfits hafter)
    | _ => exact absurd rfl hleaf

end Documents

end Skeleton.Yaml
