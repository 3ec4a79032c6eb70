import Skeleton.Proofs.Yaml.ScalarTokens

-- The tokens of collections: keys with their colons, and collections without items.

namespace Skeleton.Yaml

open Lexer

section Lengths

variable {mark x : Char} {width i k : Nat} {cs : List Char} {name : String}

theorem length_hexEscape (hless : k < 16 ^ (width + 1)) :
    (hexEscape mark (width + 1) k).length = width + 3 := by
  have hlength := @Text.length_natDigits_le 16 _ (by decide) _ hless
  simp only [hexEscape, List.length_cons, List.length_append, List.length_replicate,
    List.length_map]
  omega

theorem le_utf8Size (x : Char) :
    (0x7F < x.toNat → 2 ≤ x.utf8Size) ∧ (0xFFFF < x.toNat → 4 ≤ x.utf8Size) := by
  have hval : x.toNat = x.val.toNat := rfl
  have hone : (UInt32.ofNatLT 0x7F (by decide)).toNat = 0x7F := rfl
  have htwo : (UInt32.ofNatLT 0x7FF (by decide)).toNat = 0x7FF := rfl
  have hthree : (UInt32.ofNatLT 0xFFFF (by decide)).toNat = 0xFFFF := rfl
  rw [hval]
  simp only [Char.utf8Size, UInt32.le_iff_toNat_le, hone, htwo, hthree]
  split
  · omega
  · split
    · omega
    · split <;> omega

-- An escape is at most four times as long as the bytes of its character.
theorem length_escape_le (x : Char) : (escape x).length ≤ 4 * x.utf8Size := by
  have hsize := x.utf8Size_pos
  unfold escape
  split
  · rw [List.length_singleton]
    omega
  · split
    case h_15 =>
      have hrange := toNat_range x
      obtain ⟨htwo, hfour⟩ := le_utf8Size x
      split
      · rw [length_hexEscape (by omega)]
        omega
      · split <;> rw [length_hexEscape (by omega)] <;> omega
    all_goals
      simp only [List.length_cons, List.length_nil]
      omega

theorem length_flatMap_escape_le (cs : List Char) :
    (cs.flatMap escape).length ≤ 4 * String.utf8Len cs := by
  induction cs with
  | nil => simp
  | cons x cs ih =>
    have hx := length_escape_le x
    rw [List.flatMap_cons, List.length_append, String.utf8Len]
    omega

theorem length_singleBody_le (hbreaks : ∀ x ∈ cs, isBreak x = false) :
    (singleBody i false cs).length ≤ 2 * cs.length := by
  induction cs with
  | nil => simp [singleBody]
  | cons x cs ih =>
    obtain ⟨hx, hbreaks⟩ := List.forall_mem_cons.mp hbreaks
    have hrest := ih hbreaks
    rw [singleBody, if_neg (by simp [hx])]
    by_cases hquote : x = '\'' <;> simp [hquote] <;> omega

theorem length_le_utf8Len (cs : List Char) : cs.length ≤ String.utf8Len cs := by
  induction cs with
  | nil => simp
  | cons x cs ih =>
    have hsize := x.utf8Size_pos
    rw [String.utf8Len, List.length_cons]
    omega

theorem isBreak_of_isSimpleKey (hname : isSimpleKey name = true) :
    ∀ x ∈ name.toList, isBreak x = false := by
  simp only [isSimpleKey, Bool.and_eq_true, Bool.not_eq_true'] at hname
  simpa using List.any_eq_false.mp hname.1

-- A simple key is not too long to be read as one.
theorem length_writeString_le (hname : isSimpleKey name = true) :
    (writeString i name).length ≤ 1024 := by
  have hbreaks := isBreak_of_isSimpleKey hname
  have hsize : String.utf8Len name.toList ≤ 128 := by
    simp only [isSimpleKey, Bool.and_eq_true, decide_eq_true_eq] at hname
    rw [String.utf8Len_toList]
    exact hname.2
  have hlength := length_le_utf8Len name.toList
  have hsingle := @length_singleBody_le i _ hbreaks
  have hdouble := length_flatMap_escape_le name.toList
  cases hstyle : styleOf name with
  | plain =>
    simp only [writeString, hstyle]
    omega
  | single =>
    simp only [writeString, hstyle, List.length_cons, List.length_append, List.length_nil]
    omega
  | double =>
    simp only [writeString, hstyle, List.length_cons, List.length_append, List.length_nil]
    omega
  | literal => exact absurd (hbreaks _ (literal_of_styleOf hstyle).1) (by decide)

end Lengths

section Keys

variable {v : Level} {l : Lexer} {n i fuel : Nat} {s : KeyStart} {name : String}
  {kind : TokenKind} {kinds front back : List TokenKind} {rest cs : List Char}

theorem insertIdx_append {α : Type} (front : List α) (x : α) (back : List α) :
    (front ++ back).insertIdx front.length x = front ++ x :: back := by
  induction front with
  | nil => rfl
  | cons y front ih => rw [List.cons_append, List.length_cons, List.insertIdx_succ_cons, ih,
      List.cons_append]

theorem kinds_insert {tokens : Array Token} {mark : Mark}
    (h : tokens.toList.map (·.kind) = front ++ back) :
    (tokens.insertIdxIfInBounds front.length ⟨mark, kind⟩).toList.map (·.kind) =
      front ++ kind :: back := by
  have hlength := congrArg List.length h
  simp only [List.length_map, List.length_append, Array.length_toList] at hlength
  rw [Array.insertIdxIfInBounds, dif_pos (by omega), Array.toList_insertIdx, List.map_insertIdx, h,
    insertIdx_append]

def Level.keyed (v : Level) (n : Nat) (kind : TokenKind) : Level :=
  (((v.enter n .blockMappingStart).add .key).add kind).add .value

-- Opens a block collection in front of tokens that are there already.
theorem openBlock_at {mark : Mark} (hkinds : l.kinds = v.kinds ++ back) (hindent : l.indent = v.indent)
    (hindents : l.indents = v.indents) (hkeys : l.keyStarts = [none]) :
    (l.openBlock n v.kinds.length mark kind).At
        { v.enter n kind with kinds := (v.enter n kind).kinds ++ back } none ∧
      (l.openBlock n v.kinds.length mark kind).cursor = l.cursor := by
  have hflow : l.inFlow = false := by simp [inFlow, hkeys]
  rw [openBlock, Level.enter, hflow, hindent]
  by_cases hle : (n : Int) ≤ v.indent
  · rw [if_pos (by simp [hle]), if_pos hle]
    exact ⟨⟨hkinds, hindent, hindents, hkeys⟩, rfl⟩
  · rw [if_neg (by simp [hle]), if_neg hle]
    rw [Lexer.kinds] at hkinds
    refine ⟨⟨?_, rfl, ?_, hkeys⟩, rfl⟩
    · rw [Lexer.kinds, kinds_insert hkinds, List.append_assoc]
      rfl
    · rw [hindents]

theorem dropStale_fresh (hkeys : l.keyStarts = [some s])
    (hfresh : l.cursor.line ≤ s.mark.line ∧ l.cursor.index ≤ s.index + 1024) :
    l.dropStale = .ok l := by
  have hstale : isStale l.cursor s = false := by
    simp [isStale, hfresh]
  have hany : (l.keyStarts.any fun k => k.any fun k => k.required && isStale l.cursor k) = false := by
    simp [hkeys, hstale]
  have hmap : (l.keyStarts.map fun k => k.filter fun k => !isStale l.cursor k) = l.keyStarts := by
    simp [hkeys, hstale]
  simp only [dropStale, hany, hmap, Bool.false_eq_true, if_false]

theorem lexToken_colon (hrest : l.cursor.rest = ':' :: rest) (hblank : startsBlank rest = true) :
    l.lexToken = l.lexValue := by
  have hindicator := atDocumentIndicator_of_head hrest (by decide) (by decide)
  simp [lexToken, hrest, hindicator, hblank]

-- The colon of a key puts the tokens in front of it that it was not known to need.
theorem lexValue_at (hl : l.At (v.add kind) (some s)) (hcolumn : s.mark.column = n)
    (hposition : s.position = v.kinds.length) : ∃ l', l.lexValue = .ok l' ∧
      l'.At (v.keyed n kind) none ∧ l'.cursor = l.cursor.skip 1 ∧ l'.keyAllowed = false := by
  have hkinds := hl.kinds
  rw [Lexer.kinds, Level.add] at hkinds
  have hkey := @kinds_insert .key v.kinds [kind] l.tokens s.mark hkinds
  obtain ⟨hopen, hcursor⟩ := @openBlock_at v { l with
    tokens := l.tokens.insertIdxIfInBounds v.kinds.length ⟨s.mark, .key⟩, keyStarts := [none] } n
    .blockMappingStart [.key, kind] s.mark hkey hl.indent hl.indents rfl
  have hadd := hopen.add .value
  simp only [lexValue, hl.keyStarts, hcolumn, hposition]
  refine ⟨_, rfl, ⟨?_, hadd.indent, hadd.indents, hadd.keyStarts⟩, ?_, rfl⟩
  · refine hadd.kinds.trans ?_
    simp [Level.keyed, Level.add]
  · simp [addIndicator, moveTo, allowKey, hcursor]

variable {m : Nat}

-- A key on one line with its colon.
theorem yields_key (hname : isSimpleKey name = true) (hindent : v.indent ≤ n)
    (hpositive : 0 < i) (hblank : startsBlank rest = true)
    (hnext : ∀ (l : Lexer) (fuel : Nat),
      l.At (v.keyed n (.scalar (styleOf name).token name)) none → l.keyAllowed = false →
      l.cursor.rest = rest → n < l.cursor.column → rest.length < fuel →
      Gives (run fuel l) kinds) :
    Yields v n true (writeString i name ++ ':' :: rest) kinds := by
  intro l fuel hl hfuel
  have hbreaks := isBreak_of_isSimpleKey hname
  have hliteral : styleOf name ≠ .literal := fun h =>
    absurd (hbreaks _ (literal_of_styleOf h).1) (by decide)
  obtain ⟨l', hreads⟩ := @lexToken_string v l (.colon rest) n i true name hl hpositive
    (fun h => absurd h hliteral) hblank hindent fun _ _ => hbreaks
  rw [if_neg hliteral, keyHere, if_pos hl.keyAllowed] at hreads
  obtain ⟨hrest, hahead⟩ := hreads.reached
  have hlast : l'.kinds.getLast? ≠ some .streamEnd := by
    rw [hreads.kinds, Level.add, List.getLast?_concat]
    simp
  have hshorter := hreads.shorter
  have hindex := hahead.index
  have hlength := @length_writeString_le i _ hname
  rw [hl.rest, hrest] at hshorter hindex
  simp only [List.length_append, List.length_cons] at hshorter hindex hfuel
  obtain ⟨fuel, rfl⟩ : ∃ f, fuel = f + 1 := ⟨fuel - 1, by omega⟩
  have hskip : skipToToken false l'.keyAllowed l'.cursor = (l'.keyAllowed, l'.cursor) :=
    skipToToken_of_startsToken (by simp [hrest, StartsToken, isBreak])
  have hdrop := @dropStale_fresh l' _ hreads.keyStarts (by
    refine ⟨hahead.line.le, ?_⟩
    show l'.cursor.index ≤ l.cursor.index + 1024
    omega)
  have hclose := closeBlocks_at (l'.cursor.column : Int) hreads.toAt
  have hright : v.indent ≤ l'.cursor.column := by
    have := hahead.column
    rw [hl.column] at this
    omega
  rw [Level.close_of_le (show (v.add _).indent ≤ _ from hright)] at hclose
  generalize hl₁ : l'.closeBlocks (l'.cursor.column : Int) = l₁ at hclose
  obtain ⟨hat, hcursor, -⟩ := hclose
  obtain ⟨l₂, hvalue, hat₂, hcursor₂, hkey₂⟩ := lexValue_at hat hl.column (by
    have hsize := congrArg List.length hl.kinds
    simpa [Lexer.kinds] using hsize)
  have hfinish : run (fuel + 1) l' = l₁.finish fuel := by
    rw [run, step, hreads.toAt.inFlow, hskip]
    simp only [moveTo, allowKey, hdrop, bind, Except.bind, hl₁]
    rfl
  have hlast₂ : l₂.kinds.getLast? ≠ some .streamEnd := by
    rw [hat₂.kinds, Level.keyed, Level.add, List.getLast?_concat]
    simp
  rw [finish_of_lexToken hreads.next hlast, hfinish, finish_of_lexToken
    ((lexToken_colon (hcursor ▸ hrest) hblank).trans hvalue) hlast₂]
  refine hnext l₂ fuel hat₂ hkey₂ ?_ ?_ (by omega)
  · simp [hcursor₂, hcursor, Cursor.skip, hrest]
  · have := hahead.column
    rw [hl.column] at this
    simp only [hcursor₂, hcursor, Cursor.skip]
    omega

theorem indent_keyed (h : v.indent ≤ n) : (v.keyed n kind).indent = n := indent_enter h

-- The value of a key stands behind it or on a line of its own.
theorem yields_key_space (hname : isSimpleKey name = true) (hindent : v.indent ≤ n)
    (hpositive : 0 < i) (hstarts : StartsToken cs)
    (hnext : ∀ column, n < column →
      Yields (v.keyed n (.scalar (styleOf name).token name)) column false cs kinds) :
    Yields v n true (writeString i name ++ ':' :: ' ' :: cs) kinds := by
  refine yields_key hname hindent hpositive rfl fun l fuel hl hkey hrest hcolumn hfuel => ?_
  have hskip : skipToToken false l.keyAllowed l.cursor = (false, l.cursor.skip 1) := by
    rw [skipToToken_space hrest, skipToToken_of_startsToken, hkey]
    simpa [Cursor.skip, hrest] using hstarts
  have hnext := hnext (l.cursor.column + 1) (by omega)
  refine gives_of_skip hl (by simp) hskip ?_ (hrest ▸ hfuel)
  rw [Level.close_of_le]
  · simpa [Cursor.skip, hrest] using hnext
  · rw [indent_keyed hindent]
    simp only [Cursor.skip]
    omega

theorem yields_key_line (hname : isSimpleKey name = true) (hindent : v.indent ≤ n)
    (hpositive : 0 < i) (hstarts : StartsToken cs)
    (hnext : Yields ((v.keyed n (.scalar (styleOf name).token name)).close m) m true cs kinds) :
    Yields v n true (writeString i name ++ ':' :: '\n' :: (spaces m ++ cs)) kinds := by
  refine yields_key hname hindent hpositive rfl fun l fuel hl hkey hrest hcolumn hfuel => ?_
  exact gives_of_skip hl nofun (skipToToken_line hrest hstarts) hnext (hrest ▸ hfuel)

end Keys

section Empty

variable {v : Level} {l : Lexer} {p : Follow} {n : Nat} {b : Bool} {x y : Char}
  {first last : TokenKind} {kinds : List TokenKind} {rest : List Char}

def AreBrackets (x y : Char) (first last : TokenKind) : Prop :=
  (x = '[' ∧ y = ']' ∧ first = .flowSequenceStart ∧ last = .flowSequenceEnd) ∨
    (x = '\x7b' ∧ y = '\x7d' ∧ first = .flowMappingStart ∧ last = .flowMappingEnd)

theorem lexToken_open (hx : AreBrackets x y first last) (hl : l.Here v n b (x :: rest)) :
    l.lexToken = .ok (({ l with keyStarts := [none, l.keyHere] }.allowKey true).addIndicator first 1) := by
  have hindicator : atDocumentIndicator l.cursor = false := by
    rcases hx with ⟨rfl, -⟩ | ⟨rfl, -⟩ <;>
      exact atDocumentIndicator_of_head hl.rest (by decide) (by decide)
  have hsave := saveKeyStart_here hl
  rcases hx with ⟨rfl, rfl, rfl, rfl⟩ | ⟨rfl, rfl, rfl, rfl⟩ <;>
    simp [lexToken, hl.rest, hindicator, lexFlowStart, hsave, bind, Except.bind]

theorem lexToken_close {k : Option KeyStart} (hx : AreBrackets x y first last)
    (hrest : l.cursor.rest = y :: rest) (hkeys : l.keyStarts = [none, k]) :
    l.lexToken = .ok (({ l with keyStarts := [k] }.allowKey false).addIndicator last 1) := by
  have hindicator : atDocumentIndicator l.cursor = false := by
    rcases hx with ⟨-, rfl, -⟩ | ⟨-, rfl, -⟩ <;>
      exact atDocumentIndicator_of_head hrest (by decide) (by decide)
  have hdrop : l.dropKeyStart = .ok l := by simp [dropKeyStart, hkeys]
  have hflow : l.inFlow = true := by simp [inFlow, hkeys]
  rcases hx with ⟨rfl, rfl, rfl, rfl⟩ | ⟨rfl, rfl, rfl, rfl⟩ <;>
    simp [lexToken, hrest, hindicator, lexFlowEnd, hdrop, hflow, hkeys, bind, Except.bind]

-- A collection without items is written as its brackets.
theorem yields_brackets (hx : AreBrackets x y first last) (hfits : p.Fits v.indent)
    (hdeeper : v.indent < n) (hafter : After ((v.add first).add last) kinds p) :
    Yields v n b (p.place [x, y]) kinds := by
  have hbreak : endsWithBreak [x, y] = false := by
    rcases hx with ⟨rfl, rfl, -⟩ | ⟨rfl, rfl, -⟩ <;> rfl
  rw [Follow.place_of_endsWithBreak p hbreak]
  intro l fuel hl hfuel
  obtain ⟨fuel, rfl⟩ : ∃ f, fuel = f + 1 := ⟨fuel - 1, by
    simp only [List.length_append, List.length_cons] at hfuel
    omega⟩
  have hopen := lexToken_open hx hl
  generalize hl₁ : ({ l with keyStarts := [none, l.keyHere] }.allowKey true).addIndicator first 1 =
    l₁ at hopen
  have hkinds₁ : l₁.kinds = v.kinds ++ [first] := hl₁ ▸ (hl.toAt.add first).kinds
  have hrest₁ : l₁.cursor.rest = y :: p.tail := by
    simp [← hl₁, addIndicator, moveTo, allowKey, Cursor.skip, hl.rest]
  have hkey := optional_keyHere hl hdeeper
  obtain ⟨k, hdrop, hk⟩ : ∃ k, l₁.dropStale = .ok { l₁ with keyStarts := [none, k] } ∧
      ∀ s ∈ k, s ∈ l.keyHere := by
    have hkeys : l₁.keyStarts = [none, l.keyHere] := by
      rw [← hl₁]
      rfl
    refine ⟨l.keyHere.filter fun k => !isStale l₁.cursor k, ?_, fun s hs => ?_⟩
    · cases hcase : l.keyHere with
      | none => simp [dropStale, hkeys, hcase]
      | some s => simp [dropStale, hkeys, hcase, (hkey s hcase).1]
    · exact (Option.filter_eq_some_iff.mp hs).1
  have hskip : skipToToken l₁.inFlow l₁.keyAllowed l₁.cursor = (l₁.keyAllowed, l₁.cursor) := by
    refine skipToToken_of_startsToken ?_
    rcases hx with ⟨-, rfl, -⟩ | ⟨-, rfl, -⟩ <;> simp [hrest₁, StartsToken, isBreak]
  have hflow : Lexer.inFlow { l₁ with keyStarts := [none, k] } = true := rfl
  have hclose := @lexToken_close { l₁ with keyStarts := [none, k] } _ _ _ _ _ _ hx hrest₁ rfl
  generalize hl₂ : ({ l₁ with keyStarts := [k] }.allowKey false).addIndicator last 1 = l₂ at hclose
  have hkinds₂ : l₂.kinds = v.kinds ++ [first] ++ [last] := by
    rw [← hl₂, ← hkinds₁]
    simp [Lexer.kinds, addIndicator, moveTo, add, allowKey]
  have hat : l₂.At ((v.add first).add last) k := by
    refine ⟨hkinds₂, ?_, ?_, ?_⟩
    all_goals rw [← hl₂]
    · exact hl₁ ▸ hl.indent
    · exact hl₁ ▸ hl.indents
    · rfl
  have hfinish : run (fuel + 1) l₁ = Lexer.finish fuel { l₁ with keyStarts := [none, k] } := by
    rw [run, step, hskip]
    simp only [moveTo, allowKey, hdrop, bind, Except.bind, closeBlocks, hflow, if_true]
    rfl
  have hcursor : l₂.cursor = l.cursor.skip 2 := by
    simp [← hl₂, ← hl₁, addIndicator, moveTo, allowKey, skip_skip]
  have hne : TokenKind.streamEnd ≠ first ∧ TokenKind.streamEnd ≠ last := by
    rcases hx with ⟨-, -, rfl, rfl⟩ | ⟨-, -, rfl, rfl⟩ <;> simp
  rw [finish_of_lexToken hopen, hfinish, finish_of_lexToken hclose]
  · refine gives_of_reached hat (fun s hs => hkey s (hk s hs)) ?_ hafter ?_
    · rw [hcursor]
      refine Follow.reached_of_tail hfits (by simp [Cursor.skip, hl.rest]) le_rfl fun _ _ => ?_
      exact Cursor.ahead_skip (by decide) (by simp [hl.rest])
    · simp only [List.length_append, List.length_cons] at hfuel
      simp [hcursor, Cursor.skip, hl.rest]
      omega
  · rw [hkinds₂, List.getLast?_concat]
    simpa using hne.2.symm
  · rw [hkinds₁, List.getLast?_concat]
    simpa using hne.1.symm

end Empty

end Skeleton.Yaml
