import Skeleton.Proofs.Condition.Lexing

-- How many connectives lie on one way down an expression that was read.

namespace Skeleton.Condition

-- The most connectives on a way from the root to a leaf, where a step down to the left operand of
-- `and` or `or` counts as `left`.
def Expr.height (left : Nat) : Expr → Nat
  | .not e => e.height left + 1
  | .and l r => max (l.height left + left) (r.height left + 1)
  | .or l r => max (l.height left + left) (r.height left + 1)
  | .eq l r => max (l.height left) (r.height left)
  | .ne l r => max (l.height left) (r.height left)
  | .isIn l r => max (l.height left) (r.height left)
  | .literal _ | .var _ | .defined _ => 0

section Bound

variable {left depth bound bound' : Nat} {x : Parsed} {f : Expr × Input → Parsed} {e : Expr}
  {i : Input}

-- The greatest height of what the parser reads as one operand at some depth.
def tallest (left : Nat) : Nat → Nat
  | 0 => 0
  | depth + 1 => tallest left depth + 2 * (left * depth) + 1

theorem tallest_succ (left depth : Nat) :
    tallest left (depth + 1) = (depth + 1) * (left * depth + 1) := by
  induction depth with
  | zero => rfl
  | succ depth ih =>
    rw [tallest, ih]
    ring

def Under (left bound : Nat) (x : Parsed) : Prop :=
  ∀ e j, x = .ok (e, j) → e.height left ≤ bound

theorem under_ok (h : e.height left ≤ bound) : Under left bound (.ok (e, i)) := by
  rintro _ _ ⟨⟩
  exact h

theorem under_fail {fault : SyntaxFault} : Under left bound (i.fail fault) :=
  nofun

theorem Under.mono (h : Under left bound x) (hle : bound ≤ bound') : Under left bound' x :=
  fun e j hx => (h e j hx).trans hle

theorem Under.bind (h : Under left bound x)
    (hf : ∀ e j, e.height left ≤ bound → Under left bound' (f (e, j))) :
    Under left bound' (x >>= f) := by
  intro e j hx
  obtain ⟨⟨e', j'⟩, hread, hrest⟩ := bind_eq_ok_iff.mp hx
  exact hf e' j' (h e' j' hread) e j hrest

theorem height_of_atom {t : Token} (h : Atom t e) : e.height left = 0 := by
  cases h <;> rfl

theorem height_of_operator {op : List Token} {combine : Expr → Expr → Expr} {l r : Expr}
    (h : Operator op combine) :
    (combine l r).height left ≤ max (l.height left) (r.height left) + 1 := by
  cases h with
  | eq | ne | isIn => exact Nat.le_succ _
  | notIn => exact Nat.le_refl _

theorem under_expect {wanted : Token} {g : Input → Parsed}
    (hg : Under left bound (g i.rest)) : Under left bound (i.expect wanted >>= g) := by
  unfold Input.expect
  split
  · exact hg
  · exact nofun

theorem under_parseDefined : Under left 0 (parseDefined i) := by
  refine under_expect ?_
  split
  · exact under_expect (under_ok (Nat.le_refl 0))
  · exact under_fail

-- By induction on the calls of the parser. The rest of a chain adds at most the depth to the
-- operands before it, as each further operand takes one from the depth that is left.
theorem under_all (left : Nat) :
    (∀ depth i, Under left (tallest left (depth + 1)) (parseExpr depth i)) ∧
    (∀ depth e i, ∀ bound, e.height left ≤ bound → tallest left depth + left * depth < bound →
      Under left (bound + left * depth) (parseOrRest depth e i)) ∧
    (∀ depth i, Under left (tallest left depth + left * depth + 1) (parseAnd depth i)) ∧
    (∀ depth e i, ∀ bound, e.height left ≤ bound → tallest left depth < bound →
      Under left (bound + left * depth) (parseAndRest depth e i)) ∧
    (∀ depth i, Under left (tallest left depth + 1) (parseNot depth i)) ∧
    (∀ depth i, Under left (tallest left depth + 1) (parseCompare depth i)) ∧
    (∀ depth i, Under left (tallest left depth) (parsePrimary depth i)) := by
  apply parseExpr.mutual_induct
  -- chains of `or`
  case case1 =>
    intro depth i hfirst hrest
    rw [parseExpr]
    refine hfirst.bind fun e j he => ?_
    have hchain := hrest e j _ he (Nat.lt_succ_self _)
    exact hchain.mono (by rw [tallest]; omega)
  case case2 =>
    intro e i hpeek bound _ _
    rw [parseOrRest, if_pos hpeek]
    exact under_fail
  case case3 =>
    intro e i hpeek depth hoperand hrest bound he hbound
    rw [tallest, Nat.mul_succ] at hbound
    rw [parseOrRest, if_pos hpeek, Nat.mul_succ]
    refine hoperand.bind fun r j hr => ?_
    have hor : (Expr.or e r).height left ≤ bound + left :=
      Nat.max_le.mpr ⟨by omega, by omega⟩
    have hchain := hrest r j (bound + left) hor (by omega)
    exact hchain.mono (by omega)
  case case4 =>
    intro depth e i hpeek bound he _
    rw [parseOrRest.eq_def, if_neg hpeek]
    exact under_ok (he.trans (Nat.le_add_right _ _))
  -- chains of `and`
  case case5 =>
    intro depth i hfirst hrest
    rw [parseAnd]
    refine hfirst.bind fun e j he => ?_
    have hchain := hrest e j _ he (Nat.lt_succ_self _)
    exact hchain.mono (by omega)
  case case6 =>
    intro e i hpeek bound _ _
    rw [parseAndRest, if_pos hpeek]
    exact under_fail
  case case7 =>
    intro e i hpeek depth hoperand hrest bound he hbound
    rw [tallest] at hbound
    rw [parseAndRest, if_pos hpeek, Nat.mul_succ]
    refine hoperand.bind fun r j hr => ?_
    have hand : (Expr.and e r).height left ≤ bound + left :=
      Nat.max_le.mpr ⟨by omega, by omega⟩
    have hchain := hrest r j (bound + left) hand (by omega)
    exact hchain.mono (by omega)
  case case8 =>
    intro depth e i hpeek bound he _
    rw [parseAndRest.eq_def, if_neg hpeek]
    exact under_ok (he.trans (Nat.le_add_right _ _))
  -- negations
  case case9 =>
    intro i hpeek
    rw [parseNot, if_pos hpeek]
    exact under_fail
  case case10 =>
    intro i hpeek depth hinner
    rw [parseNot, if_pos hpeek]
    refine hinner.bind fun e j he => under_ok ?_
    rw [tallest, Expr.height]
    omega
  case case11 =>
    intro depth i hpeek hcompare
    rw [parseNot.eq_def, if_neg hpeek]
    exact hcompare
  -- comparisons
  case case12 =>
    intro depth i hleft hright
    rw [parseCompare]
    refine hleft.bind fun l j hl => ?_
    dsimp only
    split
    · exact under_ok (Nat.le_succ_of_le hl)
    · rename_i combine k hcomparison
      obtain ⟨operator, -, hop⟩ := comparison?_eq_some hcomparison
      refine (hright k).bind fun r rest hr => under_ok ?_
      exact (height_of_operator hop).trans (Nat.succ_le_succ (Nat.max_le.mpr ⟨hl, hr⟩))
  -- phrases with a token of their own in front
  case case13 =>
    intro depth i hpeek
    rw [parsePrimary.eq_def, hpeek]
    exact under_fail
  case case14 =>
    intro i hpeek
    rw [parsePrimary.eq_def, hpeek]
    exact under_fail
  case case15 =>
    intro i depth hpeek hinner
    rw [parsePrimary.eq_def, hpeek]
    exact hinner.bind fun e j he => under_expect (under_ok he)
  case case16 =>
    intro depth i hpeek _
    rw [parsePrimary.eq_def, hpeek]
    exact under_parseDefined.mono (Nat.zero_le _)
  case case17 =>
    intro depth i token hpeek hleft hdefined e he
    rw [parsePrimary.eq_def, hpeek]
    simp only [if_neg hleft, if_neg hdefined, he]
    exact under_ok ((height_of_atom (atom?_eq_some_iff.mp he)).trans_le (Nat.zero_le _))
  case case18 =>
    intro depth i token hpeek hleft hdefined he
    rw [parsePrimary.eq_def, hpeek]
    simp only [if_neg hleft, if_neg hdefined, he]
    exact under_fail

end Bound

section Towers

variable {left depth length : Nat} {cs : List Char} {ts : List Token} {e : Expr}
  {taken rest : List (Token × Nat)}

def rung : VarPath := ⟨"r", [], by decide⟩

def rungs (c : Connective) : Nat → List Token
  | 0 => []
  | n + 1 => c.token :: .path rung :: rungs c n

def rungsText (c : Connective) : Nat → List Char
  | 0 => []
  | n + 1 => ' ' :: (c.name.toList ++ ' ' :: 'r' :: rungsText c n)

def climb (combine : Expr → Expr → Expr) (n : Nat) (e : Expr) : Expr :=
  (combine · (.var rung))^[n] e

-- On top of an operand, all that fits without going deeper: a comparison with `not`, and as many
-- operands of both kinds of chains as the depth allows.
def story (depth : Nat) (ts : List Token) : List Token :=
  ts ++ (.not :: .isIn :: .path rung :: (rungs .and depth ++ rungs .or depth))

def storyText (depth : Nat) (cs : List Char) : List Char :=
  cs ++ (" not in r".toList ++ (rungsText .and depth ++ rungsText .or depth))

def storyExpr (depth : Nat) (e : Expr) : Expr :=
  climb .or depth (climb .and depth (.not (.isIn e (.var rung))))

-- A story for each depth, in parentheses below the next one.
def tower : Nat → List Token
  | 0 => story 0 [.path rung]
  | depth + 1 => story (depth + 1) (.leftParen :: (tower depth ++ [.rightParen]))

def towerText : Nat → List Char
  | 0 => storyText 0 ['r']
  | depth + 1 => storyText (depth + 1) ('(' :: (towerText depth ++ [')']))

def towerExpr : Nat → Expr
  | 0 => storyExpr 0 (.var rung)
  | depth + 1 => storyExpr (depth + 1) (towerExpr depth)

structure Input.Ends (i : Input) : Prop where
  comparison : comparison? i = none
  not_and : i.peek? ≠ some .and
  not_or : i.peek? ≠ some .or

theorem stops_nil : Stops [] :=
  nofun

theorem stops_rungsText {c : Connective} {n : Nat} (h : Stops cs) :
    Stops (rungsText c n ++ cs) := by
  cases n with
  | zero => exact h
  | succ n => exact stops_of_blank rfl

theorem spells_rung : Spells ['r'] [.path rung] := by
  have htoken : lexToken 'r' [] = .ok (.path rung, 0) := by cbv
  exact spells_nil.cons rfl htoken

theorem spells_rungs (c : Connective) (n : Nat) (hstops : Stops cs) (h : Spells cs ts) :
    Spells (rungsText c n ++ cs) (rungs c n ++ ts) := by
  induction n with
  | zero => exact h
  | succ n ih =>
    have hbehind := Spells.word c (spells_rung.append (stops_rungsText hstops) ih)
    simpa [rungsText, rungs] using hbehind

theorem spells_story (depth : Nat) (h : Spells cs ts) :
    Spells (storyText depth cs) (story depth ts) := by
  have hmember : tokensFrom 0 " not in r".toList =
      .ok [(.not, 1), (.isIn, 5), (.path rung, 8)] := by cbv
  have hors := spells_rungs .or depth stops_nil spells_nil
  have hands := spells_rungs .and depth (stops_rungsText stops_nil) hors
  have hbehind := (spells_of_tokensFrom hmember).append
    (stops_rungsText (stops_rungsText stops_nil)) hands
  rw [List.append_nil, List.append_nil] at hbehind
  exact h.append (stops_of_blank rfl) hbehind

theorem spells_tower (depth : Nat) : Spells (towerText depth) (tower depth) := by
  induction depth with
  | zero => exact spells_story 0 spells_rung
  | succ depth ih => exact spells_story (depth + 1) ih.parentheses

theorem parsePrimary_rung {offset : Nat} :
    parsePrimary depth ⟨(.path rung, offset) :: rest, length⟩ =
      .ok (.var rung, ⟨rest, length⟩) := by
  rw [parsePrimary.eq_def]
  rfl

theorem parseNot_rung {offset : Nat} (hcomparison : comparison? ⟨rest, length⟩ = none) :
    parseNot depth ⟨(.path rung, offset) :: rest, length⟩ = .ok (.var rung, ⟨rest, length⟩) := by
  rw [parseNot.eq_def, if_neg (by simp), parseCompare, parsePrimary_rung]
  exact bind_eq_ok_iff.mpr ⟨_, rfl, by simp only [hcomparison]⟩

theorem parseAnd_rung {offset : Nat} (hcomparison : comparison? ⟨rest, length⟩ = none)
    (hand : (⟨rest, length⟩ : Input).peek? ≠ some .and) :
    parseAnd depth ⟨(.path rung, offset) :: rest, length⟩ = .ok (.var rung, ⟨rest, length⟩) := by
  rw [parseAnd, parseNot_rung hcomparison]
  exact parseAndRest_of_peek depth (.var rung) hand

theorem comparison?_rungs {c : Connective} {n : Nat} (hc : c ≠ .not)
    (htaken : taken.map Prod.fst = rungs c n) (hcomparison : comparison? ⟨rest, length⟩ = none) :
    comparison? ⟨taken ++ rest, length⟩ = none := by
  cases n with
  | zero =>
    obtain rfl := List.map_eq_nil_iff.mp htaken
    exact hcomparison
  | succ n =>
    obtain ⟨⟨t, offset⟩, behind, rfl, rfl, -⟩ := List.map_eq_cons_iff.mp htaken
    cases c with
    | not => exact absurd rfl hc
    | and | or => rfl

theorem peek?_rungs {c : Connective} {n : Nat} {t : Token} (ht : c.token ≠ t)
    (htaken : taken.map Prod.fst = rungs c n)
    (hpeek : (⟨rest, length⟩ : Input).peek? ≠ some t) :
    (⟨taken ++ rest, length⟩ : Input).peek? ≠ some t := by
  cases n with
  | zero =>
    obtain rfl := List.map_eq_nil_iff.mp htaken
    exact hpeek
  | succ n =>
    obtain ⟨⟨u, offset⟩, behind, rfl, rfl, -⟩ := List.map_eq_cons_iff.mp htaken
    exact fun hhead => ht (Option.some.inj hhead)

-- A chain of `and` with as many rungs as there is depth.
theorem parseAndRest_rungs (htaken : taken.map Prod.fst = rungs .and depth)
    (hcomparison : comparison? ⟨rest, length⟩ = none)
    (hand : (⟨rest, length⟩ : Input).peek? ≠ some .and) :
    parseAndRest depth e ⟨taken ++ rest, length⟩ = .ok (climb .and depth e, ⟨rest, length⟩) := by
  induction depth generalizing taken e with
  | zero =>
    obtain rfl := List.map_eq_nil_iff.mp htaken
    exact parseAndRest_of_peek 0 e hand
  | succ depth ih =>
    obtain ⟨⟨t, offset⟩, more, rfl, ⟨⟩, hmore⟩ := List.map_eq_cons_iff.mp htaken
    obtain ⟨⟨t, next⟩, behind, rfl, ⟨⟩, hbehind⟩ := List.map_eq_cons_iff.mp hmore
    have hnext : comparison? ⟨behind ++ rest, length⟩ = none :=
      comparison?_rungs (by decide) hbehind hcomparison
    rw [List.cons_append, List.cons_append, parseAndRest, if_pos Input.peek?_cons]
    exact bind_eq_ok_iff.mpr ⟨_, parseNot_rung hnext, ih hbehind⟩

-- The same for a chain of `or`.
theorem parseOrRest_rungs (htaken : taken.map Prod.fst = rungs .or depth)
    (hrest : (⟨rest, length⟩ : Input).Ends) :
    parseOrRest depth e ⟨taken ++ rest, length⟩ = .ok (climb .or depth e, ⟨rest, length⟩) := by
  induction depth generalizing taken e with
  | zero =>
    obtain rfl := List.map_eq_nil_iff.mp htaken
    exact parseOrRest_of_peek 0 e hrest.not_or
  | succ depth ih =>
    obtain ⟨⟨t, offset⟩, more, rfl, ⟨⟩, hmore⟩ := List.map_eq_cons_iff.mp htaken
    obtain ⟨⟨t, next⟩, behind, rfl, ⟨⟩, hbehind⟩ := List.map_eq_cons_iff.mp hmore
    have hnext : comparison? ⟨behind ++ rest, length⟩ = none :=
      comparison?_rungs (by decide) hbehind hrest.comparison
    have hpeek : (⟨behind ++ rest, length⟩ : Input).peek? ≠ some .and :=
      peek?_rungs (by decide) hbehind hrest.not_and
    rw [List.cons_append, List.cons_append, parseOrRest, if_pos Input.peek?_cons]
    exact bind_eq_ok_iff.mpr ⟨_, parseAnd_rung hnext hpeek, ih hbehind⟩

-- The story on an operand uses all the depth there is.
theorem parseExpr_story {first : List (Token × Nat)}
    (hfirst : ∀ rest, parsePrimary depth ⟨first ++ rest, length⟩ = .ok (e, ⟨rest, length⟩))
    (hnot : ∀ rest, (⟨first ++ rest, length⟩ : Input).peek? ≠ some .not)
    (htaken : taken.map Prod.fst = story depth []) (hrest : (⟨rest, length⟩ : Input).Ends) :
    parseExpr depth ⟨first ++ (taken ++ rest), length⟩ =
      .ok (storyExpr depth e, ⟨rest, length⟩) := by
  obtain ⟨⟨t, one⟩, _, rfl, ⟨⟩, hone⟩ := List.map_eq_cons_iff.mp htaken
  obtain ⟨⟨t, two⟩, _, rfl, ⟨⟩, htwo⟩ := List.map_eq_cons_iff.mp hone
  obtain ⟨⟨t, three⟩, chains, rfl, ⟨⟩, hchains⟩ := List.map_eq_cons_iff.mp htwo
  obtain ⟨ands, ors, rfl, hands, hors⟩ := List.map_eq_append_iff.mp hchains
  have hafter : comparison? ⟨ors ++ rest, length⟩ = none :=
    comparison?_rungs (by decide) hors hrest.comparison
  have hpeek : (⟨ors ++ rest, length⟩ : Input).peek? ≠ some .and :=
    peek?_rungs (by decide) hors hrest.not_and
  rw [List.cons_append, List.cons_append, List.cons_append, List.append_assoc]
  have hnegation : parseNot depth ⟨first ++ (.not, one) :: (.isIn, two) :: (.path rung, three) ::
      (ands ++ (ors ++ rest)), length⟩ =
      .ok (.not (.isIn e (.var rung)), ⟨ands ++ (ors ++ rest), length⟩) := by
    rw [parseNot.eq_def, if_neg (hnot _), parseCompare, hfirst]
    exact bind_eq_ok_iff.mpr ⟨_, rfl, bind_eq_ok_iff.mpr ⟨_, parsePrimary_rung, rfl⟩⟩
  have hconjunction : parseAnd depth ⟨first ++ (.not, one) :: (.isIn, two) ::
      (.path rung, three) :: (ands ++ (ors ++ rest)), length⟩ =
      .ok (climb .and depth (.not (.isIn e (.var rung))), ⟨ors ++ rest, length⟩) := by
    rw [parseAnd, hnegation]
    exact bind_eq_ok_iff.mpr ⟨_, rfl, parseAndRest_rungs hands hafter hpeek⟩
  rw [parseExpr, hconjunction]
  exact bind_eq_ok_iff.mpr ⟨_, rfl, parseOrRest_rungs hors hrest⟩

theorem parseExpr_tower (htaken : taken.map Prod.fst = tower depth)
    (hrest : (⟨rest, length⟩ : Input).Ends) :
    parseExpr depth ⟨taken ++ rest, length⟩ = .ok (towerExpr depth, ⟨rest, length⟩) := by
  induction depth generalizing taken rest with
  | zero =>
    obtain ⟨⟨t, offset⟩, behind, rfl, ⟨⟩, hbehind⟩ := List.map_eq_cons_iff.mp htaken
    have hfirst : ∀ rest, parsePrimary 0 ⟨[(.path rung, offset)] ++ rest, length⟩ =
        .ok (.var rung, ⟨rest, length⟩) := fun rest => parsePrimary_rung
    exact parseExpr_story hfirst (fun rest => by simp) hbehind hrest
  | succ depth ih =>
    obtain ⟨first, behind, rfl, hfirst, hbehind⟩ := List.map_eq_append_iff.mp htaken
    obtain ⟨⟨t, opening⟩, _, rfl, ⟨⟩, hinside⟩ := List.map_eq_cons_iff.mp hfirst
    obtain ⟨inner, closing, rfl, hinner, hclosing⟩ := List.map_eq_append_iff.mp hinside
    obtain ⟨⟨t, last⟩, rfl, ⟨⟩⟩ := List.map_eq_singleton_iff.mp hclosing
    have hprimary : ∀ rest, parsePrimary (depth + 1)
        ⟨(.leftParen, opening) :: (inner ++ [(.rightParen, last)]) ++ rest, length⟩ =
        .ok (towerExpr depth, ⟨rest, length⟩) := by
      intro rest
      have hread := @ih inner ((.rightParen, last) :: rest) hinner ⟨rfl, by simp, by simp⟩
      rw [List.cons_append, List.append_assoc, parsePrimary.eq_def]
      exact bind_eq_ok_iff.mpr ⟨_, hread, rfl⟩
    rw [List.append_assoc]
    exact parseExpr_story hprimary (fun rest => by simp) hbehind hrest

theorem height_climb {combine : Expr → Expr → Expr}
    (hcombine : ∀ l r, (combine l r).height left = max (l.height left + left) (r.height left + 1))
    (n : Nat) (he : 0 < e.height left) :
    (climb combine n e).height left = e.height left + left * n := by
  induction n generalizing e with
  | zero => rfl
  | succ n ih =>
    have hrung : (combine e (.var rung)).height left = e.height left + left := by
      rw [hcombine, Expr.height, Nat.zero_add, Nat.max_eq_left (by omega)]
    have hclimb := @ih (combine e (.var rung)) (by omega)
    rw [climb, Function.iterate_succ_apply, ← climb, hclimb, hrung, Nat.mul_succ]
    omega

theorem height_storyExpr (left depth : Nat) (e : Expr) :
    (storyExpr depth e).height left = e.height left + 2 * (left * depth) + 1 := by
  have hmember : (Expr.not (.isIn e (.var rung))).height left = e.height left + 1 := by
    simp [Expr.height]
  have hands : (climb .and depth (.not (.isIn e (.var rung)))).height left =
      e.height left + 1 + left * depth := by
    rw [height_climb (fun _ _ => rfl) depth (by omega), hmember]
  rw [storyExpr, height_climb (fun _ _ => rfl) depth (by omega), hands]
  omega

theorem height_towerExpr (left depth : Nat) :
    (towerExpr depth).height left = tallest left (depth + 1) := by
  induction depth with
  | zero => exact height_storyExpr left 0 (.var rung)
  | succ depth ih => rw [towerExpr, height_storyExpr, ih, ← tallest]

theorem parse_tower :
    parse (String.ofList (towerText maxDepth)) =
      .ok ⟨Text.trim (String.ofList (towerText maxDepth)), towerExpr maxDepth⟩ := by
  obtain ⟨tokens, htokens, htower⟩ := spells_tower maxDepth 0
  have hne : tokens.isEmpty = false := by
    rw [List.isEmpty_eq_false_iff]
    rintro rfl
    cases htower
  have hparse (length : Nat) : parseTokens tokens length = .ok (towerExpr maxDepth) := by
    have hread := @parseExpr_tower maxDepth length tokens [] htower ⟨rfl, by simp, by simp⟩
    rw [List.append_nil] at hread
    rw [parseTokens, hne, hread]
    rfl
  have htext : Condition.tokens (String.ofList (towerText maxDepth)) = .ok tokens := by
    rw [Condition.tokens, String.toList_ofList, htokens]
  rw [parse_of_tokens htext, hparse]
  rfl

end Towers

section Accepted

variable {source : String} {c : Condition}

theorem height_le_of_parse (left : Nat) (h : parse source = .ok c) :
    c.expr.height left ≤ tallest left (maxDepth + 1) := by
  obtain ⟨tokens, -, he, -⟩ := exists_tokens_of_parse h
  obtain ⟨length', hread⟩ := exists_parseExpr_of_parseTokens he
  exact (under_all left).1 maxDepth _ _ _ hread

theorem height_le_iff (left bound : Nat) :
    (∀ source c, parse source = .ok c → c.expr.height left ≤ bound) ↔
      (maxDepth + 1) * (left * maxDepth + 1) ≤ bound := by
  rw [← tallest_succ]
  constructor
  · intro h
    have hheight := h _ _ parse_tower
    rwa [height_towerExpr] at hheight
  · intro hbound source c h
    exact (height_le_of_parse left h).trans hbound

-- On one way down a condition that can be read there are at most 16641 connectives, and at most 129
-- without those that the way leaves by their left operands. Some condition has that many.
theorem connectives_le_iff (bound : Nat) :
    ((∀ source c, parse source = .ok c → c.expr.height 1 ≤ bound) ↔ 16641 ≤ bound) ∧
    ((∀ source c, parse source = .ok c → c.expr.height 0 ≤ bound) ↔ 129 ≤ bound) :=
  ⟨height_le_iff 1 bound, height_le_iff 0 bound⟩

-- The first operand may use up the depth, and the chain behind it uses the same depth again.
theorem connectives_over_negations :
    ∃ c, parse (String.ofList (List.replicate 128 '!' ++ "a and b and c".toList)) = .ok c ∧
      129 < c.expr.height 1 := by
  have hheight :
      (parse (String.ofList (List.replicate 128 '!' ++ "a and b and c".toList))).toOption.map
        (fun c => c.expr.height 1) = some 130 := by
    set_option maxRecDepth 20000 in cbv
  obtain ⟨c, hparse, hc⟩ := Option.map_eq_some_iff.mp hheight
  exact ⟨c, toOption_eq_some_iff.mp hparse, by rw [hc]; decide⟩

end Accepted

end Skeleton.Condition
