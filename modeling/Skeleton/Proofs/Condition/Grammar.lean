import Skeleton.Condition.Basic
import Skeleton.Proofs.Except

-- The grammar of conditions as rules, and that the parser reads what they derive. Chains of `and`
-- and `or` are left-recursive in the rules, so that a derivation groups their operands to the left.

namespace Skeleton.Condition

inductive Atom : Token → Expr → Prop where
  | true : Atom .true (.literal (.bool true))
  | false : Atom .false (.literal (.bool false))
  | string (s) : Atom (.string s) (.literal (.string s))
  | integer (n) : Atom (.integer n) (.literal (.integer n))
  | float (d) : Atom (.float d) (.literal (.float d))
  | path (p) : Atom (.path p) (.var p)

-- What stands between the two sides of a comparison, and what the comparison means.
inductive Operator : List Token → (Expr → Expr → Expr) → Prop where
  | eq : Operator [.eq] .eq
  | ne : Operator [.ne] .ne
  | isIn : Operator [.isIn] .isIn
  | notIn : Operator [.not, .isIn] fun l r => .not (.isIn l r)

-- The kinds of phrases, loosest first.
inductive Level where
  | disjunction
  | conjunction
  | negation
  | comparison
  | primary

inductive Derives : Level → List Token → Expr → Prop where
  | conjunction {ts e} (h : Derives .conjunction ts e) : Derives .disjunction ts e
  | or {ts us l r} (hl : Derives .disjunction ts l) (hr : Derives .conjunction us r) :
      Derives .disjunction (ts ++ .or :: us) (.or l r)
  | negation {ts e} (h : Derives .negation ts e) : Derives .conjunction ts e
  | and {ts us l r} (hl : Derives .conjunction ts l) (hr : Derives .negation us r) :
      Derives .conjunction (ts ++ .and :: us) (.and l r)
  | not {ts e} (h : Derives .negation ts e) : Derives .negation (.not :: ts) (.not e)
  | comparison {ts e} (h : Derives .comparison ts e) : Derives .negation ts e
  | compare {ts op us combine l r} (hop : Operator op combine) (hl : Derives .primary ts l)
      (hr : Derives .primary us r) : Derives .comparison (ts ++ (op ++ us)) (combine l r)
  | primary {ts e} (h : Derives .primary ts e) : Derives .comparison ts e
  | atom {t e} (h : Atom t e) : Derives .primary [t] e
  | defined (p) : Derives .primary [.defined, .leftParen, .path p, .rightParen] (.defined p)
  | parentheses {ts e} (h : Derives .disjunction ts e) :
      Derives .primary (.leftParen :: (ts ++ [.rightParen])) e

-- The tokens that something can nest behind.
def nests : Token → Bool
  | .leftParen | .not | .and | .or => true
  | _ => false

def nesting (ts : List Token) : Nat := ts.countP nests

section Input

variable {i : Input} {t : Token}

theorem atom?_eq_some_iff {e : Expr} : atom? t = some e ↔ Atom t e := by
  constructor
  · intro h
    cases t <;> cases h <;> constructor
  · rintro ⟨⟩ <;> rfl

@[simp]
theorem Input.peek?_nil {length : Nat} : (⟨[], length⟩ : Input).peek? = none := rfl

@[simp]
theorem Input.peek?_cons {offset length : Nat} {rest : List (Token × Nat)} :
    (⟨(t, offset) :: rest, length⟩ : Input).peek? = some t := rfl

theorem Input.tokens_of_peek? (h : i.peek? = some t) :
    ∃ offset, i.tokens = (t, offset) :: i.rest.tokens := by
  obtain ⟨tokens, length⟩ := i
  cases tokens with
  | nil => cases h
  | cons head rest =>
    obtain rfl := Option.some.inj h
    exact ⟨head.2, rfl⟩

theorem operator_of_peek? {combine : Expr → Expr → Expr} (h : i.peek? = some t)
    (hop : Operator [t] combine) :
    ∃ taken, i.tokens = taken ++ i.rest.tokens ∧ Operator (taken.map Prod.fst) combine := by
  obtain ⟨offset, htokens⟩ := Input.tokens_of_peek? h
  exact ⟨[(t, offset)], htokens, hop⟩

theorem comparison?_eq_some {combine : Expr → Expr → Expr} {j : Input}
    (h : comparison? i = some (combine, j)) :
    ∃ taken, i.tokens = taken ++ j.tokens ∧ Operator (taken.map Prod.fst) combine := by
  unfold comparison? at h
  split at h
  · rename_i hpeek
    cases h
    exact operator_of_peek? hpeek .eq
  · rename_i hpeek
    cases h
    exact operator_of_peek? hpeek .ne
  · rename_i hpeek
    cases h
    exact operator_of_peek? hpeek .isIn
  · rename_i hpeek
    obtain ⟨offset, htokens⟩ := Input.tokens_of_peek? hpeek
    split at h
    · rename_i hnext
      obtain ⟨next, hrest⟩ := Input.tokens_of_peek? hnext
      cases h
      exact ⟨[(.not, offset), (.isIn, next)], by rw [htokens, hrest]; rfl, .notIn⟩
    · cases h
  · cases h

end Input

section Soundness

variable {level inner : Level} {before : List Token} {depth : Nat} {i j : Input} {e : Expr}
  {x : Parsed} {f : Expr × Input → Parsed}

-- What a parser may answer that reads a phrase from some input, where `before` has already been
-- read: a phrase and the tokens behind it, or an error. It gives up only if more can nest in the
-- tokens that are left than it has depth.
inductive Reads (level : Level) (before : List Token) (depth : Nat) (i : Input) :
    Parsed → Prop where
  | phrase {e : Expr} {j : Input} (taken : List (Token × Nat))
      (htokens : i.tokens = taken ++ j.tokens)
      (h : Derives level (before ++ taken.map Prod.fst) e) : Reads level before depth i (.ok (e, j))
  | error {err} (hdeep : err.fault = .tooDeep → depth < nesting (i.tokens.map Prod.fst)) :
      Reads level before depth i (.error err)

theorem Reads.bind {inside : List Token} {within : Nat} (h : Reads inner inside within j x)
    (hdepth : within < nesting (j.tokens.map Prod.fst) → depth < nesting (i.tokens.map Prod.fst))
    (hf : ∀ taken rest e, j.tokens = taken ++ rest.tokens →
      Derives inner (inside ++ taken.map Prod.fst) e → Reads level before depth i (f (e, rest))) :
    Reads level before depth i (x >>= f) := by
  cases h with
  | phrase taken htokens h => exact hf taken _ _ htokens h
  | error hdeep => exact .error fun hfault => hdepth (hdeep hfault)

-- A phrase of a tighter kind is one of the looser kind.
theorem Reads.loosen (h : Reads inner [] depth i x)
    (hrule : ∀ ts e, Derives inner ts e → Derives level ts e) : Reads level [] depth i x := by
  cases h with
  | phrase taken htokens h => exact .phrase taken htokens (hrule _ _ h)
  | error hdeep => exact .error hdeep

-- Reading on behind some tokens that have been read as well.
theorem Reads.after {taken : List (Token × Nat)} {within : Nat}
    (h : Reads level (before ++ taken.map Prod.fst) within j x)
    (htokens : i.tokens = taken ++ j.tokens)
    (hdepth : within < nesting (j.tokens.map Prod.fst) → depth < nesting (i.tokens.map Prod.fst)) :
    Reads level before depth i x := by
  cases h with
  | phrase more hmore h =>
    refine .phrase (taken ++ more) (by rw [htokens, hmore, List.append_assoc]) ?_
    rwa [List.map_append, ← List.append_assoc]
  | error hdeep => exact .error fun hfault => hdepth (hdeep hfault)

theorem nesting_append (ts us : List Token) : nesting (ts ++ us) = nesting ts + nesting us :=
  List.countP_append

theorem nesting_le_of_suffix {taken : List (Token × Nat)} (h : i.tokens = taken ++ j.tokens) :
    nesting (j.tokens.map Prod.fst) ≤ nesting (i.tokens.map Prod.fst) := by
  rw [h, List.map_append, nesting_append]
  omega

-- One token that something nests behind, and any tokens behind it.
theorem nesting_lt_of_nests {t : Token} (hpeek : i.peek? = some t) (ht : nests t = true)
    {taken : List (Token × Nat)} (h : i.rest.tokens = taken ++ j.tokens) :
    nesting (j.tokens.map Prod.fst) < nesting (i.tokens.map Prod.fst) := by
  obtain ⟨offset, htokens⟩ := Input.tokens_of_peek? hpeek
  have hle := nesting_le_of_suffix h
  rw [htokens]
  simp only [nesting, List.map_cons, List.countP_cons, ht, if_true] at hle ⊢
  omega

theorem Input.reads_fail {fault : SyntaxFault} (hfault : fault ≠ .tooDeep) :
    Reads level before depth i (j.fail fault) :=
  .error fun h => absurd h hfault

-- The depth is used up in front of a token that something nests behind.
theorem Input.reads_tooDeep {t : Token} (hpeek : i.peek? = some t) (ht : nests t = true) :
    Reads level before 0 i (i.rest.fail .tooDeep) :=
  .error fun _ => Nat.zero_lt_of_lt (nesting_lt_of_nests hpeek ht (List.nil_append _).symm)

theorem Input.reads_expect {wanted : Token} {g : Input → Parsed}
    (hg : ∀ offset, i.tokens = (wanted, offset) :: i.rest.tokens →
      Reads level before depth j (g i.rest)) :
    Reads level before depth j (i.expect wanted >>= g) := by
  unfold Input.expect
  split
  · rename_i hpeek
    obtain ⟨offset, htokens⟩ := Input.tokens_of_peek? hpeek
    exact hg offset htokens
  · exact .error (by simp)

-- A phrase behind a token that it nests behind, and what follows the phrase.
theorem Reads.behind {t : Token} (hpeek : i.peek? = some t) (ht : nests t = true)
    (h : Reads inner [] depth i.rest x)
    (hf : ∀ taken j e, i.rest.tokens = taken ++ j.tokens → Derives inner (taken.map Prod.fst) e →
      Reads level (before ++ t :: taken.map Prod.fst) depth j (f (e, j))) :
    Reads level before (depth + 1) i (x >>= f) := by
  obtain ⟨offset, htokens⟩ := Input.tokens_of_peek? hpeek
  refine h.bind (fun hdepth => ?_) fun taken j e hrest he => ?_
  · exact Nat.lt_of_le_of_lt hdepth (nesting_lt_of_nests hpeek ht (List.nil_append _).symm)
  · have hread : i.tokens = ((t, offset) :: taken) ++ j.tokens := by rw [htokens, hrest]; rfl
    refine (hf taken j e hrest he).after hread fun hdepth => ?_
    exact Nat.lt_of_le_of_lt hdepth (nesting_lt_of_nests hpeek ht hrest)

theorem reads_parseDefined (hpeek : i.peek? = some .defined) :
    Reads .primary [] depth i (parseDefined i.rest) := by
  obtain ⟨first, hdefined⟩ := Input.tokens_of_peek? hpeek
  refine Input.reads_expect fun second hleft => ?_
  split
  · rename_i p hpath
    obtain ⟨third, hthird⟩ := Input.tokens_of_peek? hpath
    refine Input.reads_expect fun fourth hright => ?_
    refine .phrase [(.defined, first), (.leftParen, second), (.path p, third),
      (.rightParen, fourth)] ?_ (.defined p)
    rw [hdefined, hleft, hthird, hright]
    rfl
  · exact Input.reads_fail (by simp)

-- A phrase, and what follows it at the same depth.
theorem Reads.andThen (h : Reads inner [] depth i x)
    (hf : ∀ ts j e, Derives inner ts e → Reads level ts depth j (f (e, j))) :
    Reads level [] depth i (x >>= f) := by
  refine h.bind id fun taken j e htokens he => ?_
  have hread : Reads level ([] ++ taken.map Prod.fst) depth j (f (e, j)) := hf _ j e he
  exact hread.after htokens fun hdepth => hdepth.trans_le (nesting_le_of_suffix htokens)

-- By induction on the calls of the parser: each has read a phrase of its level, with what had been
-- read before as the left operand of a chain.
theorem reads_all :
    (∀ depth i, Reads .disjunction [] depth i (parseExpr depth i)) ∧
    (∀ depth left i, ∀ before, Derives .disjunction before left →
      Reads .disjunction before depth i (parseOrRest depth left i)) ∧
    (∀ depth i, Reads .conjunction [] depth i (parseAnd depth i)) ∧
    (∀ depth left i, ∀ before, Derives .conjunction before left →
      Reads .conjunction before depth i (parseAndRest depth left i)) ∧
    (∀ depth i, Reads .negation [] depth i (parseNot depth i)) ∧
    (∀ depth i, Reads .comparison [] depth i (parseCompare depth i)) ∧
    (∀ depth i, Reads .primary [] depth i (parsePrimary depth i)) := by
  apply parseExpr.mutual_induct
  -- chains of `or`
  case case1 =>
    intro depth i hfirst hrest
    rw [parseExpr]
    exact hfirst.andThen fun ts j left hleft => hrest left j ts (.conjunction hleft)
  case case2 =>
    intro left i hpeek before hleft
    rw [parseOrRest, if_pos hpeek]
    exact Input.reads_tooDeep hpeek rfl
  case case3 =>
    intro left i hpeek depth hoperand hrest before hleft
    rw [parseOrRest, if_pos hpeek]
    exact hoperand.behind hpeek rfl fun taken j right _ hright => hrest right j _ (.or hleft hright)
  case case4 =>
    intro depth left i hpeek before hleft
    rw [parseOrRest.eq_def, if_neg hpeek]
    exact .phrase [] rfl (by simpa using hleft)
  -- chains of `and`
  case case5 =>
    intro depth i hfirst hrest
    rw [parseAnd]
    exact hfirst.andThen fun ts j left hleft => hrest left j ts (.negation hleft)
  case case6 =>
    intro left i hpeek before hleft
    rw [parseAndRest, if_pos hpeek]
    exact Input.reads_tooDeep hpeek rfl
  case case7 =>
    intro left i hpeek depth hoperand hrest before hleft
    rw [parseAndRest, if_pos hpeek]
    exact hoperand.behind hpeek rfl fun taken j right _ hright => hrest right j _ (.and hleft hright)
  case case8 =>
    intro depth left i hpeek before hleft
    rw [parseAndRest.eq_def, if_neg hpeek]
    exact .phrase [] rfl (by simpa using hleft)
  -- negations
  case case9 =>
    intro i hpeek
    rw [parseNot, if_pos hpeek]
    exact Input.reads_tooDeep hpeek rfl
  case case10 =>
    intro i hpeek depth hinner
    rw [parseNot, if_pos hpeek]
    refine hinner.behind hpeek rfl fun taken j e _ he => ?_
    exact .phrase [] rfl (by simpa using .not he)
  case case11 =>
    intro depth i hpeek hcompare
    rw [parseNot.eq_def, if_neg hpeek]
    exact hcompare.loosen fun _ _ => .comparison
  -- comparisons
  case case12 =>
    intro depth i hleft hright
    rw [parseCompare]
    refine hleft.andThen fun ts j l hl => ?_
    dsimp only
    split
    · exact .phrase [] rfl (by simpa using .primary hl)
    · rename_i combine k hcomparison
      obtain ⟨operator, hk, hop⟩ := comparison?_eq_some hcomparison
      refine (hright k).bind (fun h => ?_) fun taken rest r htaken hr => ?_
      · exact h.trans_le (nesting_le_of_suffix hk)
      · refine .phrase (operator ++ taken) (by rw [hk, htaken, List.append_assoc]) ?_
        simpa using .compare hop hl hr
  -- phrases with a token of their own in front
  case case13 =>
    intro depth i hpeek
    rw [parsePrimary.eq_def, hpeek]
    exact Input.reads_fail (by simp)
  case case14 =>
    intro i hpeek
    rw [parsePrimary.eq_def, hpeek]
    exact Input.reads_tooDeep hpeek rfl
  case case15 =>
    intro i depth hpeek hinner
    rw [parsePrimary.eq_def, hpeek]
    refine hinner.behind hpeek rfl fun taken j e _ he => ?_
    refine Input.reads_expect fun offset hright => ?_
    exact .phrase [(.rightParen, offset)] hright (.parentheses he)
  case case16 =>
    intro depth i hpeek _
    rw [parsePrimary.eq_def, hpeek]
    exact reads_parseDefined hpeek
  case case17 =>
    intro depth i token hpeek hleft hdefined e he
    obtain ⟨offset, htokens⟩ := Input.tokens_of_peek? hpeek
    rw [parsePrimary.eq_def, hpeek]
    simp only [if_neg hleft, if_neg hdefined, he]
    exact .phrase [(token, offset)] htokens (.atom (atom?_eq_some_iff.mp he))
  case case18 =>
    intro depth i token hpeek hleft hdefined he
    rw [parsePrimary.eq_def, hpeek]
    simp only [if_neg hleft, if_neg hdefined, he]
    exact Input.reads_fail (by simp)

end Soundness

end Skeleton.Condition
