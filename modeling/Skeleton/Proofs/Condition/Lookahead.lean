import Skeleton.Proofs.Condition.Parsing

-- What the parser looks at before it decides, and that it depends on nothing else. So what it has
-- read can always be completed, and what it refuses is refused whatever follows.

namespace Skeleton.Condition

section Ahead

variable {ts us vs : List Token} {i j k : Input} {t : Token}

-- What the parser looks at: the next token, and behind `not` one more.
def ahead : List Token → List Token
  | .not :: t :: _ => [.not, t]
  | t :: _ => [t]
  | [] => []

def compares : List Token → Bool
  | .eq :: _ | .ne :: _ | .isIn :: _ | .not :: .isIn :: _ => true
  | _ => false

def goesOn (ts : List Token) : Bool :=
  compares ts || ts.head? == some .and || ts.head? == some .or

-- What may stand behind a phrase in place of other tokens, so that it ends there as well: what
-- looks the same, or what no phrase goes on with.
def Replaces (us ts : List Token) : Prop := ahead us = ahead ts ∨ goesOn us = false

theorem ahead_cons (t : Token) (ts : List Token) :
    ahead (t :: ts) = if t = .not then t :: ts.take 1 else [t] := by
  cases t <;> cases ts <;> rfl

theorem take_one_ahead (ts : List Token) : (ahead ts).take 1 = ts.take 1 := by
  cases ts with
  | nil => rfl
  | cons t ts =>
    rw [ahead_cons]
    split <;> rfl

theorem head?_of_ahead (h : ahead us = ahead ts) : us.head? = ts.head? := by
  have htake : us.take 1 = ts.take 1 := by rw [← take_one_ahead us, h, take_one_ahead]
  simpa [List.head?_take] using congrArg List.head? htake

theorem ahead_append (h : ahead us = ahead ts) : ahead (vs ++ us) = ahead (vs ++ ts) := by
  cases vs with
  | nil => exact h
  | cons v vs =>
    have htake : (vs ++ us).take 1 = (vs ++ ts).take 1 := by
      cases vs with
      | nil => rw [List.nil_append, List.nil_append, ← take_one_ahead us, h, take_one_ahead]
      | cons => rfl
    rw [List.cons_append, List.cons_append, ahead_cons, ahead_cons, htake]

theorem compares_ahead (ts : List Token) : compares (ahead ts) = compares ts := by
  rcases ts with _ | ⟨t, _ | ⟨u, ts⟩⟩
  · rfl
  · cases t <;> rfl
  · cases t <;> cases u <;> rfl

theorem compares_of_ahead (h : ahead us = ahead ts) : compares us = compares ts := by
  rw [← compares_ahead us, h, compares_ahead]

theorem Replaces.refl (ts : List Token) : Replaces ts ts := .inl rfl

theorem replaces_cons (h : Replaces us ts) (t : Token) : Replaces (t :: us) (t :: ts) := by
  by_cases hne : t = .not
  · subst hne
    rcases h with hsame | hends
    · exact .inl (@ahead_append _ _ [.not] hsame)
    · -- `not` makes a comparison only with `in` behind it, and `in` makes one by itself
      refine .inr ?_
      rcases us with _ | ⟨u, us⟩
      · rfl
      · cases u <;> first | rfl | cases hends
  · exact .inl (by rw [ahead_cons, ahead_cons, if_neg hne, if_neg hne])

theorem Replaces.append (h : Replaces us ts) (vs : List Token) : Replaces (vs ++ us) (vs ++ ts) := by
  induction vs with
  | nil => exact h
  | cons v vs ih => exact replaces_cons ih v

theorem compares_of_replaces (h : Replaces us ts) (hts : compares ts = false) :
    compares us = false := by
  rcases h with hsame | hends
  · rw [compares_of_ahead hsame, hts]
  · simp only [goesOn, Bool.or_eq_false_iff] at hends
    exact hends.1.1

theorem head?_ne_of_replaces (h : Replaces us ts) (ht : goesOn [t] = true)
    (hts : ts.head? ≠ some t) : us.head? ≠ some t := by
  rcases h with hsame | hends
  · rwa [head?_of_ahead hsame]
  · intro hhead
    obtain ⟨us', rfl⟩ := List.head?_eq_some_iff.mp hhead
    cases t <;> simp [goesOn, compares] at ht hends

def Input.kinds (i : Input) : List Token := i.tokens.map Prod.fst

theorem Input.peek?_eq (i : Input) : i.peek? = i.kinds.head? := by
  rw [Input.peek?, Input.kinds, List.head?_map]

theorem Input.kinds_rest (i : Input) : i.rest.kinds = i.kinds.tail := by
  rw [Input.kinds, Input.kinds, Input.rest, List.map_tail]

theorem Input.peek?_of_kinds (h : i.kinds = t :: ts) : i.peek? = some t ∧ i.rest.kinds = ts := by
  rw [Input.peek?_eq, Input.kinds_rest, h]
  exact ⟨rfl, rfl⟩

theorem peek?_ne_of_replaces (h : Replaces k.kinds i.kinds) (ht : goesOn [t] = true)
    (hi : i.peek? ≠ some t) : k.peek? ≠ some t := by
  rw [Input.peek?_eq] at hi ⊢
  exact head?_ne_of_replaces h ht hi

theorem peek?_ne_of_goesOn (h : goesOn k.kinds = false) (ht : goesOn [t] = true) :
    k.peek? ≠ some t :=
  @peek?_ne_of_replaces ⟨[], 0⟩ k t (.inr h) ht nofun

theorem comparison?_eq_none_iff : comparison? i = none ↔ compares i.kinds = false := by
  obtain ⟨tokens, length⟩ := i
  rcases tokens with _ | ⟨⟨t, offset⟩, _ | ⟨⟨u, next⟩, tokens⟩⟩
  · simp [comparison?, Input.kinds, compares]
  · cases t <;> simp [comparison?, Input.kinds, compares, Input.rest]
  · cases t <;> cases u <;> simp [comparison?, Input.kinds, compares, Input.rest]

end Ahead

section Tracking

variable {p q : Input → Parsed} {i j k : Input} {t wanted : Token} {ts : List Token} {e : Expr}
  {taken : List (Token × Nat)}

def Leaves (p : Input → Parsed) (k : Input) (rest : List Token) : Prop :=
  ∃ e k', p k = .ok (e, k') ∧ k'.kinds = rest

-- Tokens that a phrase can end before, if it can end before what follows them.
def Closing (ts : List Token) : Prop := ∀ rest, goesOn rest = false → goesOn (ts ++ rest) = false

-- What a parser does with some input depends on no more than the tokens it has read and those ahead
-- of them. After a phrase it does the same with other tokens that the phrase ends before. Where it
-- finds fault, the tokens it has read can be completed to a phrase, and whatever looks like the
-- tokens that are left is refused behind them.
inductive Tracks (p : Input → Parsed) (i : Input) : Prop where
  | phrase {e : Expr} {j : Input} (taken : List (Token × Nat))
      (hi : i = ⟨taken ++ j.tokens, j.length⟩) (hread : p i = .ok (e, j))
      (hsame : ∀ k rest, k.kinds = taken.map Prod.fst ++ rest → Replaces rest j.kinds →
        ∃ k', p k = .ok (e, k') ∧ k'.kinds = rest)
  | fault {j : Input} {fault : SyntaxFault} (taken : List (Token × Nat)) (more : List Token)
      (hi : i = ⟨taken ++ j.tokens, j.length⟩) (hread : p i = j.fail fault) (hmore : Closing more)
      (hopen : ∀ k rest, k.kinds = taken.map Prod.fst ++ (more ++ rest) → goesOn rest = false →
        Leaves p k rest)
      (hdead : ∀ k rest, k.kinds = taken.map Prod.fst ++ rest → ahead rest = ahead j.kinds →
        ∃ err, p k = .error err)
  | deep {offset : Nat} (hread : p i = .error ⟨offset, .tooDeep⟩)

theorem kinds_append (htokens : i = ⟨taken ++ j.tokens, j.length⟩) :
    i.kinds = taken.map Prod.fst ++ j.kinds := by
  rw [htokens, Input.kinds, List.map_append, Input.kinds]

theorem tracks_ok (h : ∀ k, Replaces k.kinds i.kinds → p k = .ok (e, k)) : Tracks p i := by
  refine .phrase [] rfl (h i (.refl _)) fun k rest hk hrest => ?_
  obtain rfl : k.kinds = rest := hk
  exact ⟨k, h k hrest, rfl⟩

-- A fault at the next token.
theorem tracks_fail (fault : SyntaxFault) (more : List Token) (hmore : Closing more)
    (hread : ∀ k, ahead k.kinds = ahead i.kinds → p k = k.fail fault)
    (hopen : ∀ k rest, k.kinds = more ++ rest → goesOn rest = false → Leaves p k rest) :
    Tracks p i := by
  refine .fault [] more rfl (hread i rfl) hmore hopen fun k rest hk hahead => ?_
  obtain rfl : k.kinds = rest := hk
  exact ⟨_, hread k hahead⟩

-- A parser that goes on as another one behind some tokens.
theorem Tracks.behind (hi : i = ⟨taken ++ j.tokens, j.length⟩) (hread : q i = p j)
    (hq : ∀ k rest, k.kinds = taken.map Prod.fst ++ rest → ∃ k', k'.kinds = rest ∧ q k = p k')
    (h : Tracks p j) : Tracks q i := by
  cases h with
  | phrase read hj hp hsame =>
    refine .phrase (taken ++ read) (by rw [hi, hj, List.append_assoc]) (hread.trans hp) ?_
    intro k rest hk hrest
    rw [List.map_append, List.append_assoc] at hk
    obtain ⟨k', hk', hqk⟩ := hq k _ hk
    rw [hqk]
    exact hsame k' rest hk' hrest
  | fault read more hj hp hmore hopen hdead =>
    refine .fault (taken ++ read) more (by rw [hi, hj, List.append_assoc]) (hread.trans hp) hmore
      (fun k rest hk hrest => ?_) fun k rest hk hahead => ?_
    all_goals
      rw [List.map_append, List.append_assoc] at hk
      obtain ⟨k', hk', hqk⟩ := hq k _ hk
    · rw [Leaves, hqk]
      exact hopen k' rest hk' hrest
    · rw [hqk]
      exact hdead k' rest hk' hahead
  | deep hp => exact .deep (hread.trans hp)

theorem Tracks.congr (h : Tracks p i) (hq : ∀ k, q k = p k) : Tracks q i := by
  obtain rfl := funext hq
  exact h

-- The same behind one token.
theorem Tracks.next (hpeek : i.peek? = some t) (hq : ∀ k, k.peek? = some t → q k = p k.rest)
    (h : Tracks p i.rest) : Tracks q i := by
  obtain ⟨offset, htokens⟩ := Input.tokens_of_peek? hpeek
  have hi : i = ⟨[(t, offset)] ++ i.rest.tokens, i.rest.length⟩ := by
    rw [List.singleton_append, ← htokens]
    rfl
  refine h.behind hi (hq i hpeek) fun k rest hk => ?_
  obtain ⟨hk, hrest⟩ := Input.peek?_of_kinds hk
  exact ⟨k.rest, hrest, hq k hk⟩

-- A parser that is another one where the next token is not `t`, which the other one refuses.
theorem Tracks.unless (hpeek : i.peek? ≠ some t) (hq : ∀ k, k.peek? ≠ some t → q k = p k)
    (hp : ∀ k, k.peek? = some t → ∃ err, p k = .error err) (h : Tracks p i) : Tracks q i := by
  have hok {k : Input} {a : Expr × Input} (hk : p k = .ok a) : q k = .ok a := by
    rw [← hk]
    refine hq k fun ht => ?_
    obtain ⟨err, herr⟩ := hp k ht
    cases hk.symm.trans herr
  cases h with
  | phrase taken hi hread hsame =>
    refine .phrase taken hi (hok hread) fun k rest hk hrest => ?_
    obtain ⟨k', hread', hk'⟩ := hsame k rest hk hrest
    exact ⟨k', hok hread', hk'⟩
  | fault taken more hi hread hmore hopen hdead =>
    refine .fault taken more hi ((hq i hpeek).trans hread) hmore (fun k rest hk hrest => ?_)
      fun k rest hk hahead => ?_
    · obtain ⟨e, k', hread', hk'⟩ := hopen k rest hk hrest
      exact ⟨e, k', hok hread', hk'⟩
    · have hsame : ahead k.kinds = ahead i.kinds := by
        rw [hk, kinds_append hi]
        exact ahead_append hahead
      have hk' : k.peek? ≠ some t := by
        rwa [Input.peek?_eq, head?_of_ahead hsame, ← Input.peek?_eq]
      rw [hq k hk']
      exact hdead k rest hk hahead
  | deep hread => exact .deep ((hq i hpeek).trans hread)

-- One parser after another, which can always do with `close`.
theorem Tracks.bind {f : Expr × Input → Parsed} (close : List Token) (hclosing : Closing close)
    (h : Tracks p i)
    (hclose : ∀ e k rest, k.kinds = close ++ rest → goesOn rest = false →
      Leaves (fun k => f (e, k)) k rest)
    (hf : ∀ e k, Tracks (fun k => f (e, k)) k) : Tracks (fun k => p k >>= f) i := by
  cases h with
  | @phrase e j taken hi hread hsame =>
    have hfirst : p i >>= f = f (e, j) := by rw [hread]; rfl
    -- what the second parser reads follows the phrase
    have hthen {l : Input} {read : List (Token × Nat)} (hj : j = ⟨read ++ l.tokens, l.length⟩)
        (k : Input) (rest : List Token) (hk : k.kinds = (taken ++ read).map Prod.fst ++ rest)
        (hrest : Replaces rest l.kinds) :
        ∃ k', k'.kinds = read.map Prod.fst ++ rest ∧ p k >>= f = f (e, k') := by
      rw [List.map_append, List.append_assoc] at hk
      have hreplaces := hrest.append (read.map Prod.fst)
      rw [← kinds_append hj] at hreplaces
      obtain ⟨k', hk, hk'⟩ := hsame k _ hk hreplaces
      exact ⟨k', hk', by rw [hk]; rfl⟩
    cases hf e j with
    | phrase read hj hread' hsame' =>
      refine .phrase (taken ++ read) (by rw [hi, hj, List.append_assoc]) (hfirst.trans hread') ?_
      intro k rest hk hrest
      obtain ⟨k', hk', hboth⟩ := hthen hj k rest hk hrest
      rw [hboth]
      exact hsame' k' rest hk' hrest
    | fault read more hj hread' hmore hopen hdead =>
      refine .fault (taken ++ read) more (by rw [hi, hj, List.append_assoc])
        (hfirst.trans hread') hmore (fun k rest hk hrest => ?_) fun k rest hk hahead => ?_
      · obtain ⟨k', hk', hboth⟩ := hthen hj k _ hk (.inr (hmore rest hrest))
        rw [Leaves, hboth]
        exact hopen k' rest hk' hrest
      · obtain ⟨k', hk', hboth⟩ := hthen hj k rest hk (.inl hahead)
        rw [hboth]
        exact hdead k' rest hk' hahead
    | deep hread' => exact .deep (hfirst.trans hread')
  | fault taken more hi hread hmore hopen hdead =>
    refine .fault taken (more ++ close) hi (by rw [hread]; rfl) (fun rest hrest => ?_)
      (fun k rest hk hrest => ?_) fun k rest hk hahead => ?_
    · rw [List.append_assoc]
      exact hmore _ (hclosing rest hrest)
    · rw [List.append_assoc] at hk
      obtain ⟨e, k', hread', hk'⟩ := hopen k _ hk (hclosing rest hrest)
      rw [Leaves, hread']
      exact hclose e k' rest hk' hrest
    · obtain ⟨err, herr⟩ := hdead k rest hk hahead
      exact ⟨err, by rw [herr]; rfl⟩
  | deep hread => exact .deep (by rw [hread]; rfl)

-- A token that must come next. Where it does not, a phrase is completed by it and `close`.
theorem tracks_expect {g : Input → Parsed} (close : List Token)
    (hmore : Closing (wanted :: close))
    (hclose : ∀ k rest, k.kinds = close ++ rest → goesOn rest = false → Leaves g k rest)
    (hg : Tracks g i.rest) : Tracks (fun k => k.expect wanted >>= g) i := by
  have hnext (k : Input) (hk : k.peek? = some wanted) : k.expect wanted >>= g = g k.rest := by
    rw [Input.expect, if_pos hk]
    rfl
  by_cases hpeek : i.peek? = some wanted
  · exact hg.next hpeek hnext
  · refine tracks_fail (.expected wanted i.peek?) (wanted :: close) hmore (fun k hk => ?_) fun k rest hk hrest => ?_
    · have hsame : k.peek? = i.peek? := by
        rw [Input.peek?_eq, head?_of_ahead hk, ← Input.peek?_eq]
      rw [Input.expect, if_neg (hsame ▸ hpeek), hsame]
      rfl
    · obtain ⟨hk, hrest'⟩ := Input.peek?_of_kinds hk
      rw [Leaves, hnext k hk]
      exact hclose k.rest rest hrest' hrest

def anyName : VarPath := ⟨"v", [], by decide⟩

theorem leaves_ok (hk : k.kinds = ts) : Leaves (fun k => .ok (e, k)) k ts := ⟨e, k, rfl, hk⟩

theorem closing_nil : Closing [] := fun _ hrest => hrest

theorem tracks_rightParen : Tracks (fun k => k.expect .rightParen >>= fun k => .ok (e, k)) i :=
  tracks_expect [] (fun _ _ => rfl) (fun _ _ hk _ => leaves_ok hk) (tracks_ok fun _ _ => rfl)

theorem leaves_rightParen (hk : k.kinds = .rightParen :: ts) :
    Leaves (fun k => k.expect .rightParen >>= fun k => .ok (e, k)) k ts := by
  obtain ⟨hpeek, hrest⟩ := Input.peek?_of_kinds hk
  exact ⟨e, k.rest, by simp only [Input.expect, if_pos hpeek]; rfl, hrest⟩

def parseName (i : Input) : Parsed :=
  match i.peek? with
  | some (.path p) => i.rest.expect .rightParen >>= fun j => .ok (.defined p, j)
  | _ => i.fail .definedWithoutName

theorem parseDefined_eq (i : Input) : parseDefined i = i.expect .leftParen >>= parseName := rfl

theorem leaves_parseName (hk : k.kinds = [.path anyName, .rightParen] ++ ts) :
    Leaves parseName k ts := by
  obtain ⟨hname, hright⟩ := Input.peek?_of_kinds hk
  obtain ⟨e, k', hread, hrest⟩ := @leaves_rightParen _ _ (.defined anyName) hright
  exact ⟨e, k', by simp only [parseName, hname, hread], hrest⟩

theorem tracks_parseName : Tracks parseName i := by
  by_cases hname : ∃ p, i.peek? = some (.path p)
  · obtain ⟨p, hpeek⟩ := hname
    exact (tracks_rightParen (e := .defined p)).next hpeek fun k hk => by simp only [parseName, hk]
  · refine tracks_fail .definedWithoutName [.path anyName, .rightParen] (fun _ _ => rfl)
      (fun k hk => ?_) fun k rest hk _ => leaves_parseName hk
    have hsame : k.peek? = i.peek? := by
      rw [Input.peek?_eq, head?_of_ahead hk, ← Input.peek?_eq]
    rw [parseName]
    split
    · rename_i p hpeek
      exact absurd ⟨p, hsame ▸ hpeek⟩ hname
    · rfl

theorem tracks_parseDefined : Tracks parseDefined i := by
  have hname : Tracks (fun k => k.expect .leftParen >>= parseName) i :=
    tracks_expect [.path anyName, .rightParen] (fun _ _ => rfl)
      (fun _ _ hk _ => leaves_parseName hk) tracks_parseName
  exact hname.congr parseDefined_eq

variable {depth : Nat}

theorem leaves_parsePrimary (hk : k.kinds = .true :: ts) : Leaves (parsePrimary depth) k ts := by
  obtain ⟨hpeek, hrest⟩ := Input.peek?_of_kinds hk
  exact ⟨.literal (.bool true), k.rest, by rw [parsePrimary.eq_def, hpeek]; rfl, hrest⟩

-- An operand that is missing.
theorem tracks_parsePrimary_fail (fault : SyntaxFault)
    (h : ∀ k, k.peek? = i.peek? → parsePrimary depth k = k.fail fault) :
    Tracks (parsePrimary depth) i := by
  refine tracks_fail fault [.true] (fun _ _ => rfl) (fun k hk => h k ?_) fun k rest hk _ =>
    leaves_parsePrimary hk
  rw [Input.peek?_eq, head?_of_ahead hk, ← Input.peek?_eq]

theorem parseCompare_of_not (h : k.peek? = some .not) :
    ∃ err, parseCompare depth k = .error err := by
  rw [parseCompare, parsePrimary.eq_def, h]
  exact ⟨_, rfl⟩

theorem comparison?_of_kinds {op : List Token} {combine : Expr → Expr → Expr}
    (hop : Operator op combine) (hk : k.kinds = op ++ ts) :
    ∃ k', comparison? k = some (combine, k') ∧ k'.kinds = ts := by
  obtain ⟨tokens, length⟩ := k
  obtain ⟨front, behind, rfl, hfront, hbehind⟩ := List.map_eq_append_iff.mp hk
  exact ⟨⟨behind, length⟩, comparison?_of_operator hop hfront, hbehind⟩

theorem eq_of_comparison? {combine : Expr → Expr → Expr} (h : comparison? i = some (combine, j))
    (htokens : i.tokens = taken ++ j.tokens) (hop : Operator (taken.map Prod.fst) combine) :
    i = ⟨taken ++ j.tokens, j.length⟩ := by
  obtain ⟨tokens, length⟩ := i
  obtain rfl : tokens = taken ++ j.tokens := htokens
  rw [comparison?_of_operator hop rfl] at h
  have hj : ⟨j.tokens, length⟩ = j := (Prod.mk.inj (Option.some.inj h)).2
  exact congrArg (Input.mk _) (congrArg Input.length hj)

-- A comparison of what has been read.
theorem tracks_comparison (hright : ∀ k, Tracks (parsePrimary depth) k) :
    Tracks (fun k => match comparison? k with
      | none => .ok (e, k)
      | some (combine, k) => parsePrimary depth k >>= fun (r, k) => .ok (combine e r, k)) i := by
  cases hcomparison : comparison? i with
  | none =>
    refine tracks_ok (e := e) fun k hk => ?_
    have hnone : comparison? k = none :=
      comparison?_eq_none_iff.mpr (compares_of_replaces hk (comparison?_eq_none_iff.mp hcomparison))
    simp only [hnone]
  | some found =>
    obtain ⟨combine, j⟩ := found
    obtain ⟨operator, hi, hop⟩ := comparison?_eq_some hcomparison
    have hoperand := (hright j).bind (f := fun (r, k) => .ok (combine e r, k)) [] closing_nil
      (fun _ _ _ hk _ => leaves_ok hk) fun _ _ => tracks_ok fun _ _ => rfl
    refine hoperand.behind (eq_of_comparison? hcomparison hi hop) (by rw [hcomparison]) ?_
    intro k rest hk
    obtain ⟨k', hfound, hk'⟩ := comparison?_of_kinds hop hk
    exact ⟨k', hk', by rw [hfound]⟩

theorem leaves_comparison (hk : k.kinds = ts) (hends : goesOn ts = false) :
    Leaves (fun k => match comparison? k with
      | none => .ok (e, k)
      | some (combine, k) => parsePrimary depth k >>= fun (r, k) => .ok (combine e r, k)) k ts := by
  subst hk
  have hnone : comparison? k = none :=
    comparison?_eq_none_iff.mpr (compares_of_replaces (show Replaces _ [] from .inr hends) rfl)
  exact ⟨e, k, by simp only [hnone], rfl⟩

theorem leaves_parseOrRest (hk : k.kinds = ts) (hends : goesOn ts = false) :
    Leaves (parseOrRest depth e) k ts := by
  subst hk
  exact ⟨e, k, parseOrRest_of_peek depth e (peek?_ne_of_goesOn hends rfl), rfl⟩

theorem leaves_parseAndRest (hk : k.kinds = ts) (hends : goesOn ts = false) :
    Leaves (parseAndRest depth e) k ts := by
  subst hk
  exact ⟨e, k, parseAndRest_of_peek depth e (peek?_ne_of_goesOn hends rfl), rfl⟩

-- By induction on the calls of the parser.
theorem tracks_all :
    (∀ depth i, Tracks (parseExpr depth) i) ∧
    (∀ depth left i, Tracks (parseOrRest depth left) i) ∧
    (∀ depth i, Tracks (parseAnd depth) i) ∧
    (∀ depth left i, Tracks (parseAndRest depth left) i) ∧
    (∀ depth i, Tracks (parseNot depth) i) ∧
    (∀ depth i, Tracks (parseCompare depth) i) ∧
    (∀ depth i, Tracks (parsePrimary depth) i) := by
  apply parseExpr.mutual_induct
  -- chains of `or`
  case case1 =>
    intro depth i hfirst hrest
    refine Tracks.congr ?_ fun k => parseExpr.eq_def depth k
    exact hfirst.bind [] closing_nil (fun _ _ _ => leaves_parseOrRest) hrest
  case case2 =>
    intro left i hpeek
    exact .deep (by rw [parseOrRest, if_pos hpeek]; rfl)
  case case3 =>
    intro left i hpeek depth hoperand hrest
    have hbehind := hoperand.bind (f := fun (right, k) => parseOrRest depth (.or left right) k) []
      closing_nil (fun _ _ _ => leaves_parseOrRest) hrest
    exact hbehind.next hpeek fun k hk => by rw [parseOrRest, if_pos hk]
  case case4 =>
    intro depth left i hpeek
    exact tracks_ok fun k hk => parseOrRest_of_peek depth left (peek?_ne_of_replaces hk rfl hpeek)
  -- chains of `and`
  case case5 =>
    intro depth i hfirst hrest
    refine Tracks.congr ?_ fun k => parseAnd.eq_def depth k
    exact hfirst.bind [] closing_nil (fun _ _ _ => leaves_parseAndRest) hrest
  case case6 =>
    intro left i hpeek
    exact .deep (by rw [parseAndRest, if_pos hpeek]; rfl)
  case case7 =>
    intro left i hpeek depth hoperand hrest
    have hbehind := hoperand.bind (f := fun (right, k) => parseAndRest depth (.and left right) k) []
      closing_nil (fun _ _ _ => leaves_parseAndRest) hrest
    exact hbehind.next hpeek fun k hk => by rw [parseAndRest, if_pos hk]
  case case8 =>
    intro depth left i hpeek
    exact tracks_ok fun k hk => parseAndRest_of_peek depth left (peek?_ne_of_replaces hk rfl hpeek)
  -- negations
  case case9 =>
    intro i hpeek
    exact .deep (by rw [parseNot, if_pos hpeek]; rfl)
  case case10 =>
    intro i hpeek depth hinner
    have hbehind := hinner.bind (f := fun (e, k) => .ok (.not e, k)) [] closing_nil
      (fun _ _ _ hk _ => leaves_ok hk) fun _ _ => tracks_ok fun _ _ => rfl
    exact hbehind.next hpeek fun k hk => by rw [parseNot, if_pos hk]
  case case11 =>
    intro depth i hpeek hcompare
    exact hcompare.unless hpeek (fun k hk => by rw [parseNot.eq_def, if_neg hk])
      fun k hk => parseCompare_of_not hk
  -- comparisons
  case case12 =>
    intro depth i hleft hright
    refine Tracks.congr ?_ fun k => parseCompare.eq_def depth k
    exact hleft.bind [] closing_nil (fun _ _ _ => leaves_comparison) fun _ _ =>
      tracks_comparison hright
  -- phrases with a token of their own in front
  case case13 =>
    intro depth i hpeek
    refine tracks_parsePrimary_fail .unexpectedEnd fun k hk => ?_
    rw [parsePrimary.eq_def, hk, hpeek]
  case case14 =>
    intro i hpeek
    have hread : parsePrimary 0 i = .error ⟨i.rest.offset, .tooDeep⟩ := by
      rw [parsePrimary.eq_def, hpeek]
      rfl
    exact .deep hread
  case case15 =>
    intro i depth hpeek hinner
    have hbehind := hinner.bind (f := fun (e, k) => k.expect .rightParen >>= fun k => .ok (e, k))
      [.rightParen] (fun _ _ => rfl) (fun _ _ _ hk _ => leaves_rightParen hk)
      fun _ _ => tracks_rightParen
    exact hbehind.next hpeek fun k hk => by rw [parsePrimary.eq_def, hk]; rfl
  case case16 =>
    intro depth i hpeek _
    refine tracks_parseDefined.next hpeek fun k hk => ?_
    rw [parsePrimary.eq_def, hk]
    rfl
  case case17 =>
    intro depth i token hpeek hleft hdefined e he
    have hrest : Tracks (fun k => .ok (e, k)) i.rest := tracks_ok fun _ _ => rfl
    refine hrest.next hpeek fun k hk => ?_
    rw [parsePrimary.eq_def, hk]
    simp only [if_neg hleft, if_neg hdefined, he]
  case case18 =>
    intro depth i token hpeek hleft hdefined he
    refine tracks_parsePrimary_fail (.unexpected token) fun k hk => ?_
    rw [parsePrimary.eq_def, hk, hpeek]
    simp only [if_neg hleft, if_neg hdefined, he]

end Tracking

end Skeleton.Condition
