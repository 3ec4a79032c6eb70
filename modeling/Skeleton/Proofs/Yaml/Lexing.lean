import Skeleton.Proofs.Yaml.BlockScalars
import Skeleton.Proofs.Yaml.PlainScalars
import Skeleton.Proofs.Yaml.QuotedScalars

-- What the lexer does with one token after another. The places of tokens do not matter here.

namespace Skeleton.Yaml

-- The tokens so far and the indentations of the open block collections, innermost first.
structure Level where
  kinds : List TokenKind
  indent : Int
  indents : List Int

namespace Level

variable {v : Level} {column inner : Int}

def add (v : Level) (kind : TokenKind) : Level := { v with kinds := v.kinds ++ [kind] }

-- The level in a block collection, which is a new one where the column is deeper.
def enter (v : Level) (column : Nat) (kind : TokenKind) : Level :=
  if (column : Int) ≤ v.indent then v else ⟨v.kinds ++ [kind], column, v.indent :: v.indents⟩

def closeFrom (column : Int) (kinds : List TokenKind) (indent : Int) : List Int → Level
  | [] => ⟨kinds, indent, []⟩
  | outer :: rest =>
    if indent ≤ column then ⟨kinds, indent, outer :: rest⟩
    else closeFrom column (kinds ++ [.blockEnd]) outer rest

def close (v : Level) (column : Int) : Level := closeFrom column v.kinds v.indent v.indents

def ended (v : Level) : List TokenKind := (v.close (-1)).kinds ++ [.streamEnd]

theorem close_of_le (h : v.indent ≤ column) : v.close column = v := by
  obtain ⟨kinds, indent, _ | ⟨outer, rest⟩⟩ := v
  · rfl
  · exact if_pos h

theorem close_close (h : column ≤ inner) : (v.close inner).close column = v.close column := by
  obtain ⟨kinds, indent, indents⟩ := v
  simp only [close]
  induction indents generalizing kinds indent with
  | nil => rfl
  | cons outer rest ih =>
    rw [closeFrom]
    split
    · rfl
    · rename_i hdeeper
      rw [ih, eq_comm, closeFrom, if_neg (by omega)]

theorem ended_close (h : -1 ≤ column) : (v.close column).ended = v.ended := by
  rw [ended, close_close h, ended]

-- Behind a block collection its end is the only token more.
theorem close_enter {n : Nat} {kind : TokenKind} {kinds : List TokenKind} (hdeeper : v.indent < n)
    (h : column < n) : close { v.enter n kind with kinds } column =
      { v with kinds := kinds ++ [.blockEnd] : Level }.close column := by
  rw [enter, if_neg (by omega)]
  show closeFrom column kinds n (v.indent :: v.indents) = _
  rw [closeFrom, if_neg (by omega)]
  rfl

end Level

namespace Lexer

def kinds (l : Lexer) : List TokenKind := l.tokens.toList.map (·.kind)

-- That the lexer is outside flow collections, where one key may have started.
structure At (l : Lexer) (v : Level) (k : Option KeyStart) : Prop where
  kinds : l.kinds = v.kinds
  indent : l.indent = v.indent
  indents : l.indents = v.indents
  keyStarts : l.keyStarts = [k]

structure Here (l : Lexer) (v : Level) (column : Nat) (keyAllowed : Bool) (cs : List Char) : Prop
    extends l.At v none where
  rest : l.cursor.rest = cs
  column : l.cursor.column = column
  keyAllowed : l.keyAllowed = keyAllowed

def Gives (result : Except SyntaxError (Array Token)) (kinds : List TokenKind) : Prop :=
  ∃ tokens, result = .ok tokens ∧ tokens.toList.map (·.kind) = kinds

def finish (fuel : Nat) (l : Lexer) : Except SyntaxError (Array Token) := do
  let l ← l.lexToken
  if l.tokens.back?.any fun t => t.kind = .streamEnd then .ok l.tokens else run fuel l

end Lexer

-- That a text from a column on has these tokens behind those of the level.
def Yields (v : Level) (column : Nat) (keyAllowed : Bool) (cs : List Char)
    (kinds : List TokenKind) : Prop :=
  ∀ (l : Lexer) (fuel : Nat), l.Here v column keyAllowed cs → cs.length ≤ fuel →
    Lexer.Gives (l.finish fuel) kinds

def After (v : Level) (kinds : List TokenKind) : Follow → Prop
  | .colon _ => False
  | .line column rest =>
    if rest = [] then kinds = v.ended else Yields (v.close column) column true rest kinds
  | .cut => kinds = v.ended

section Machine

open Lexer

variable {v : Level} {l l' : Lexer} {k : Option KeyStart} {kinds : List TokenKind} {n fuel : Nat}
  {b : Bool} {cs : List Char} {c e : Cursor}

theorem Lexer.At.inFlow (h : l.At v k) : l.inFlow = false := by
  simp [Lexer.inFlow, h.keyStarts]

theorem closeBlocksFrom_at {kinds : List TokenKind} {indent : Int} (column : Int)
    (indents : List Int) (hl : l.At ⟨kinds, indent, indents⟩ k) :
    (closeBlocksFrom column indents l).At (Level.closeFrom column kinds indent indents) k ∧
      (closeBlocksFrom column indents l).cursor = l.cursor ∧
      (closeBlocksFrom column indents l).keyAllowed = l.keyAllowed := by
  induction indents generalizing l kinds indent with
  | nil =>
    rw [closeBlocksFrom]
    split <;> exact ⟨hl, rfl, rfl⟩
  | cons outer rest ih =>
    rw [closeBlocksFrom, Level.closeFrom, hl.indent]
    split
    · exact ⟨hl, rfl, rfl⟩
    · refine ih (l := { l.add .blockEnd with indent := outer, indents := rest })
        ⟨?_, rfl, rfl, hl.keyStarts⟩
      have hkinds := hl.kinds
      simp only [Lexer.kinds] at hkinds
      simp [Lexer.kinds, add, hkinds]

theorem closeBlocks_at (column : Int) (hl : l.At v k) : (l.closeBlocks column).At (v.close column) k ∧
    (l.closeBlocks column).cursor = l.cursor ∧
    (l.closeBlocks column).keyAllowed = l.keyAllowed := by
  rw [closeBlocks, hl.inFlow, if_neg (by decide), hl.indents]
  exact closeBlocksFrom_at column v.indents hl

theorem dropStale_settled (hkeys : l.keyStarts = [k])
    (hsettled : ∀ s ∈ k, s.required = false ∧ s.mark.line < l.cursor.line) :
    l.dropStale = .ok { l with keyStarts := [none] } := by
  cases k with
  | none => simp [dropStale, hkeys]
  | some s =>
    obtain ⟨hoptional, hline⟩ := hsettled s rfl
    simp [dropStale, hkeys, hoptional, isStale, hline, Option.filter]

-- At the end of the text a key may still be possible.
theorem dropStale_optional (hkeys : l.keyStarts = [k]) (hoptional : ∀ s ∈ k, s.required = false) :
    ∃ k', l.dropStale = .ok { l with keyStarts := [k'] } ∧ ∀ s ∈ k', s.required = false := by
  cases k with
  | none => exact ⟨none, by simp [dropStale, hkeys], nofun⟩
  | some s =>
    have hs := hoptional s rfl
    refine ⟨(some s).filter fun k => !isStale l.cursor k, by simp [dropStale, hkeys, hs], ?_⟩
    intro s' hs'
    obtain rfl := Option.some.inj (Option.filter_eq_some_iff.mp hs').1
    exact hs

theorem finish_of_lexToken {result : Lexer} (h : l.lexToken = .ok result)
    (hlast : result.kinds.getLast? ≠ some .streamEnd) : l.finish fuel = run fuel result := by
  have hback : (result.tokens.back?.any fun t => t.kind = .streamEnd) = false := by
    cases hb : result.tokens.back? with
    | none => rfl
    | some t =>
      rw [Lexer.kinds, List.getLast?_map, Array.getLast?_toList, hb] at hlast
      simpa using hlast
  simp [finish, h, bind, Except.bind, hback]

-- The next token is behind blanks, breaks and comments, where no key can start any more that
-- started before.
theorem gives_of_skip (hl : l.At v k)
    (hsettled : ∀ s ∈ k, s.required = false ∧ s.mark.line < e.line)
    (hskip : skipToToken false l.keyAllowed l.cursor = (b, e))
    (hyields : Yields (v.close e.column) e.column b e.rest kinds)
    (hfuel : l.cursor.rest.length < fuel) : Gives (run fuel l) kinds := by
  obtain ⟨fuel, rfl⟩ : ∃ f, fuel = f + 1 := ⟨fuel - 1, by omega⟩
  have hshorter := length_skipToToken_le false l.keyAllowed l.cursor
  rw [hskip] at hshorter
  have hdrop := @dropStale_settled ((l.moveTo e).allowKey b) k hl.keyStarts hsettled
  have hclose := closeBlocks_at (e.column : Int)
    (show Lexer.At { (l.moveTo e).allowKey b with keyStarts := [none] } v none from
      ⟨hl.kinds, hl.indent, hl.indents, rfl⟩)
  have hstep := hyields _ fuel ⟨hclose.1, by rw [hclose.2.1]; rfl, by rw [hclose.2.1]; rfl,
    by rw [hclose.2.2]; rfl⟩ (Nat.le_of_lt_succ (hshorter.trans_lt hfuel))
  rw [run, step, hl.inFlow, hskip]
  simp only [hdrop, bind, Except.bind]
  exact hstep

theorem dropKeyStart_optional (hkeys : l.keyStarts = [k]) (hoptional : ∀ s ∈ k, s.required = false) :
    l.dropKeyStart = .ok { l with keyStarts := [none] } := by
  cases k with
  | none =>
    simp only [dropKeyStart, hkeys]
    rw [← hkeys]
  | some s => simp [dropKeyStart, hkeys, hoptional s rfl]

theorem lexStreamEnd_gives (hl : l.At v k) (hoptional : ∀ s ∈ k, s.required = false)
    (hrest : l.cursor.rest = []) : Gives (l.finish fuel) v.ended := by
  have hclose := closeBlocks_at (-1) hl
  have hdrop := dropKeyStart_optional hclose.1.keyStarts hoptional
  have hkinds := hclose.1.kinds
  rw [Lexer.kinds] at hkinds
  rw [finish, lexToken, hrest]
  simp only [lexStreamEnd, documentLevel, hdrop, bind, Except.bind, add, allowKey]
  rw [if_pos (by simp)]
  exact ⟨_, rfl, by simp [hkinds, Level.ended]⟩

theorem gives_of_end (hl : l.At v k) (hoptional : ∀ s ∈ k, s.required = false)
    (hskip : skipToToken false l.keyAllowed l.cursor = (b, e)) (hrest : e.rest = [])
    (hfuel : 0 < fuel) : Gives (run fuel l) v.ended := by
  obtain ⟨fuel, rfl⟩ : ∃ f, fuel = f + 1 := ⟨fuel - 1, by omega⟩
  obtain ⟨k', hdrop, hoptional'⟩ := @dropStale_optional ((l.moveTo e).allowKey b) k hl.keyStarts
    hoptional
  have hclose := closeBlocks_at (e.column : Int)
    (show Lexer.At { (l.moveTo e).allowKey b with keyStarts := [k'] } v k' from
      ⟨hl.kinds, hl.indent, hl.indents, rfl⟩)
  have hend := @lexStreamEnd_gives _ _ _ fuel hclose.1 hoptional' (by rw [hclose.2.1]; exact hrest)
  rw [Level.ended_close (by omega)] at hend
  rw [run, step, hl.inFlow, hskip]
  simp only [hdrop, bind, Except.bind]
  exact hend

-- A text that has been read goes on with what follows it.
theorem gives_of_reached {p : Follow} {c : Cursor} (hl : l.At v k)
    (hkey : ∀ s ∈ k, s.required = false ∧ s.mark.line = c.line)
    (hreached : p.Reached c l.cursor l.keyAllowed) (hafter : After v kinds p)
    (hfuel : l.cursor.rest.length < fuel) : Gives (run fuel l) kinds := by
  cases p with
  | colon rest => exact hafter.elim
  | line column rest =>
    obtain ⟨e, hskip, rfl, rfl, hline⟩ := hreached
    rw [After] at hafter
    split at hafter
    · rename_i hrest
      rw [hafter]
      exact gives_of_end hl (fun s hs => (hkey s hs).1) hskip hrest (by omega)
    · exact gives_of_skip hl (fun s hs => ⟨(hkey s hs).1, (hkey s hs).2.trans_lt hline⟩) hskip
        hafter hfuel
  | cut =>
    obtain ⟨b, e, hskip, hrest⟩ := hreached
    rw [show kinds = v.ended from hafter]
    exact gives_of_end hl (fun s hs => (hkey s hs).1) hskip hrest (by omega)

end Machine

section Indicators

open Lexer

variable {v : Level} {l : Lexer} {k : Option KeyStart} {kind start : TokenKind}
  {kinds : List TokenKind} {n fuel : Nat} {b : Bool} {cs : List Char}

theorem Lexer.At.add (h : l.At v k) (kind : TokenKind) : (l.add kind).At (v.add kind) k := by
  have hkinds := h.kinds
  rw [Lexer.kinds] at hkinds
  exact ⟨by simp [Lexer.kinds, Lexer.add, Level.add, hkinds], h.indent, h.indents, h.keyStarts⟩

theorem Lexer.At.enter (h : l.At v k) (hcolumn : l.cursor.column = n) (kind : TokenKind) :
    (l.openBlockHere kind).At (v.enter n kind) k ∧ (l.openBlockHere kind).cursor = l.cursor ∧
      (l.openBlockHere kind).keyAllowed = l.keyAllowed := by
  rw [openBlockHere, openBlock, Level.enter, h.inFlow, hcolumn, h.indent]
  by_cases hle : (n : Int) ≤ v.indent
  · rw [if_pos (by simp [hle]), if_pos hle]
    exact ⟨h, rfl, rfl⟩
  · have hkinds := h.kinds
    rw [Lexer.kinds] at hkinds
    rw [if_neg (by simp [hle]), if_neg hle]
    refine ⟨⟨?_, rfl, ?_, h.keyStarts⟩, rfl, rfl⟩
    · simp [Lexer.kinds, Array.insertIdxIfInBounds, hkinds]
    · simp [h.indents]

theorem indent_enter (h : v.indent ≤ n) : (v.enter n start).indent = n := by
  rw [Level.enter]
  split
  · omega
  · rfl

def IsBlockIndicator (x : Char) (start kind : TokenKind) : Prop :=
  (x = '-' ∧ start = .blockSequenceStart ∧ kind = .blockEntry) ∨
    (x = '?' ∧ start = .blockMappingStart ∧ kind = .key) ∨
    (x = ':' ∧ start = .blockMappingStart ∧ kind = .value)

theorem dropKeyStart_none (hkeys : l.keyStarts = [none]) : l.dropKeyStart = .ok l := by
  simp [dropKeyStart, hkeys]

theorem lexToken_indicator {x : Char} (hx : IsBlockIndicator x start kind)
    (hl : l.Here v n true (x :: ' ' :: cs)) : ∃ l', l.lexToken = .ok l' ∧
      l'.At ((v.enter n start).add kind) none ∧ l'.cursor = l.cursor.skip 1 ∧
      l'.keyAllowed = true := by
  obtain ⟨hopen, hcursor, -⟩ := hl.toAt.enter hl.column start
  have hdrop := dropKeyStart_none hopen.keyStarts
  have hflow := hl.toAt.inFlow
  have hflow' := hopen.inFlow
  have hindicator : atDocumentIndicator l.cursor = false := by
    rcases hx with ⟨rfl, -, -⟩ | ⟨rfl, -, -⟩ | ⟨rfl, -, -⟩ <;>
      simp [atDocumentIndicator, hl.rest, List.isPrefixOf]
  have hadd := hopen.add kind
  refine ⟨((l.openBlockHere start).allowKey true).addIndicator kind 1, ?_,
    ⟨hadd.kinds, hadd.indent, hadd.indents, hadd.keyStarts⟩, ?_, rfl⟩
  · rcases hx with ⟨rfl, rfl, rfl⟩ | ⟨rfl, rfl, rfl⟩ | ⟨rfl, rfl, rfl⟩
    · simp [lexToken, hl.rest, hindicator, startsBlank, lexBlockEntry, hl.keyAllowed, hdrop, bind,
        Except.bind]
    · simp [lexToken, hl.rest, hindicator, startsBlank, lexKey, hl.keyAllowed, hdrop, bind,
        Except.bind, hflow']
    · simp [lexToken, hl.rest, hindicator, startsBlank, lexValue, hl.keyAllowed, hl.keyStarts,
        hflow']
  · simp [addIndicator, moveTo, allowKey, hcursor]

theorem yields_indicator {x : Char} (hx : IsBlockIndicator x start kind) (hindent : v.indent ≤ n)
    (hstarts : StartsToken cs)
    (hnext : Yields ((v.enter n start).add kind) (n + 2) true cs kinds) :
    Yields v n true (x :: ' ' :: cs) kinds := by
  intro l fuel hl hfuel
  obtain ⟨l', hlex, hl', hcursor, hkey⟩ := lexToken_indicator hx hl
  have hkinds : l'.kinds.getLast? ≠ some .streamEnd := by
    rw [hl'.kinds, Level.add, List.getLast?_concat]
    rcases hx with ⟨-, -, rfl⟩ | ⟨-, -, rfl⟩ | ⟨-, -, rfl⟩ <;> simp
  have hrest : l'.cursor.rest = ' ' :: cs := by simp [hcursor, Cursor.skip, hl.rest]
  have hskip : skipToToken false l'.keyAllowed l'.cursor = (true, l'.cursor.skip 1) := by
    rw [hkey, skipToToken_space hrest, skipToToken_of_startsToken]
    simpa [Cursor.skip, hrest] using hstarts
  rw [finish_of_lexToken hlex hkinds]
  refine gives_of_skip hl' (by simp) hskip ?_ ?_
  · have hcolumn : (l'.cursor.skip 1).column = n + 2 := by
      simp [hcursor, Cursor.skip, hl.column]
    have hcs : (l'.cursor.skip 1).rest = cs := by simp [Cursor.skip, hrest]
    rw [hcolumn, hcs, Level.close_of_le]
    · exact hnext
    · show (v.enter n start).indent ≤ _
      rw [indent_enter hindent]
      omega
  · simp only [List.length_cons] at hfuel
    simp [hrest]
    omega

end Indicators

end Skeleton.Yaml
