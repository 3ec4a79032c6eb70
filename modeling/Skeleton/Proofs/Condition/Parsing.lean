import Skeleton.Proofs.Condition.Grammar
import Skeleton.Proofs.Text.Spans

-- The parser finds every phrase that the grammar derives, unless it nests too deep. With what
-- `Proofs/Condition/Grammar` says, it accepts exactly the grammar, and the grammar is unambiguous.

namespace Skeleton.Condition

section Outcome

variable {x y z : Parsed} {f : Expr × Input → Parsed} {a : Expr × Input}

-- The same answer, unless the depth is used up.
def Unless (x y : Parsed) : Prop := x = y ∨ ∃ offset, x = .error ⟨offset, .tooDeep⟩

theorem Unless.refl (x : Parsed) : Unless x x := .inl rfl

theorem Unless.trans (hxy : Unless x y) (hyz : Unless y z) : Unless x z := by
  obtain rfl | hdeep := hxy
  · exact hyz
  · exact .inr hdeep

theorem Unless.bind (hx : Unless x (.ok a)) (hf : Unless (f a) y) : Unless (x >>= f) y := by
  obtain rfl | ⟨offset, rfl⟩ := hx
  · exact hf
  · exact .inr ⟨offset, rfl⟩

end Outcome

section Completeness

variable {depth length : Nat} {level : Level} {ts us op : List Token} {e l r : Expr}
  {combine : Expr → Expr → Expr} {taken rest : List (Token × Nat)}

theorem comparison?_of_operator (h : Operator op combine) (htaken : taken.map Prod.fst = op) :
    comparison? ⟨taken ++ rest, length⟩ = some (combine, ⟨rest, length⟩) := by
  cases h with
  | eq | ne | isIn =>
    obtain ⟨⟨t, offset⟩, rfl, rfl⟩ := List.map_eq_singleton_iff.mp htaken
    rfl
  | notIn =>
    obtain ⟨⟨t, offset⟩, more, rfl, rfl, hmore⟩ := List.map_eq_cons_iff.mp htaken
    obtain ⟨⟨u, next⟩, rfl, rfl⟩ := List.map_eq_singleton_iff.mp hmore
    rfl

-- Only the looser phrases begin with `not`.
theorem Derives.primary_head (h : Derives .primary ts e) : ∃ t us, ts = t :: us ∧ t ≠ .not := by
  cases h with
  | atom h => cases h <;> exact ⟨_, _, rfl, nofun⟩
  | defined p => exact ⟨_, _, rfl, nofun⟩
  | parentheses h => exact ⟨_, _, rfl, nofun⟩

theorem Derives.comparison_head (h : Derives .comparison ts e) :
    ∃ t us, ts = t :: us ∧ t ≠ .not := by
  cases h with
  | compare hop hl hr =>
    obtain ⟨t, us, rfl, ht⟩ := hl.primary_head
    exact ⟨t, _, rfl, ht⟩
  | primary h => exact h.primary_head

theorem Derives.ne_nil (h : Derives level ts e) : ts ≠ [] := by
  induction h with
  | atom | not | defined | parentheses => exact List.cons_ne_nil _ _
  | conjunction _ ih | negation _ ih | comparison _ ih | primary _ ih => exact ih
  | or | and => exact List.append_ne_nil_of_right_ne_nil _ (List.cons_ne_nil _ _)
  | compare _ _ _ ih => exact List.append_ne_nil_of_left_ne_nil ih _

-- What the parser does with a phrase, whatever follows that cannot belong to it: it reads the
-- phrase and, where chains are concerned, goes on as after the phrase.
def Finds (depth : Nat) (taken rest : List (Token × Nat)) (length : Nat) (e : Expr) : Level → Prop
  | .disjunction =>
    comparison? ⟨rest, length⟩ = none → (⟨rest, length⟩ : Input).peek? ≠ some .and →
      ∃ left, Unless (parseExpr depth ⟨taken ++ rest, length⟩) (parseOrRest left e ⟨rest, length⟩)
  | .conjunction =>
    comparison? ⟨rest, length⟩ = none →
      ∃ left, Unless (parseAnd depth ⟨taken ++ rest, length⟩) (parseAndRest left e ⟨rest, length⟩)
  | .negation =>
    comparison? ⟨rest, length⟩ = none →
      Unless (parseNot depth ⟨taken ++ rest, length⟩) (.ok (e, ⟨rest, length⟩))
  | .comparison =>
    comparison? ⟨rest, length⟩ = none →
      Unless (parseCompare depth ⟨taken ++ rest, length⟩) (.ok (e, ⟨rest, length⟩))
  | .primary => Unless (parsePrimary depth ⟨taken ++ rest, length⟩) (.ok (e, ⟨rest, length⟩))

theorem parseOrRest_of_peek (left : Nat) (e : Expr) {i : Input} (h : i.peek? ≠ some .or) :
    parseOrRest left e i = .ok (e, i) := by
  rw [parseOrRest.eq_def, if_neg h]

theorem parseAndRest_of_peek (left : Nat) (e : Expr) {i : Input} (h : i.peek? ≠ some .and) :
    parseAndRest left e i = .ok (e, i) := by
  rw [parseAndRest.eq_def, if_neg h]

-- By induction on the derivation. Where the depth is used up, there is nothing to show.
theorem finds_of_derives (h : Derives level ts e) :
    ∀ depth taken rest, taken.map Prod.fst = ts → Finds depth taken rest length e level := by
  induction h with
  | @conjunction ts e _ ih =>
    intro depth taken rest htaken hcomparison hand
    obtain ⟨left, hfirst⟩ := ih depth taken rest htaken hcomparison
    rw [parseAndRest_of_peek left e hand] at hfirst
    rw [parseExpr]
    exact ⟨depth, hfirst.bind (.refl _)⟩
  | @or ts us l r _ _ ihl ihr =>
    intro depth taken rest htaken hcomparison hand
    obtain ⟨first, behind, rfl, hts, hbehind⟩ := List.map_eq_append_iff.mp htaken
    obtain ⟨⟨t, offset⟩, second, rfl, ⟨⟩, hus⟩ := List.map_eq_cons_iff.mp hbehind
    obtain ⟨left, hl⟩ := ihl depth first ((.or, offset) :: (second ++ rest)) hts rfl (by simp)
    rw [List.append_assoc, List.cons_append]
    cases left with
    | zero => exact ⟨0, hl.trans (.inr ⟨_, by rw [parseOrRest]; rfl⟩)⟩
    | succ left =>
      obtain ⟨_, hr⟩ := ihr left second rest hus hcomparison
      rw [parseAndRest_of_peek _ r hand] at hr
      exact ⟨left, hl.trans (by rw [parseOrRest]; exact hr.bind (.refl _))⟩
  | @negation ts e _ ih =>
    intro depth taken rest htaken hcomparison
    have hfirst := ih depth taken rest htaken hcomparison
    rw [parseAnd]
    exact ⟨depth, hfirst.bind (.refl _)⟩
  | @and ts us l r _ _ ihl ihr =>
    intro depth taken rest htaken hcomparison
    obtain ⟨first, behind, rfl, hts, hbehind⟩ := List.map_eq_append_iff.mp htaken
    obtain ⟨⟨t, offset⟩, second, rfl, ⟨⟩, hus⟩ := List.map_eq_cons_iff.mp hbehind
    obtain ⟨left, hl⟩ := ihl depth first ((.and, offset) :: (second ++ rest)) hts rfl
    rw [List.append_assoc, List.cons_append]
    cases left with
    | zero => exact ⟨0, hl.trans (.inr ⟨_, by rw [parseAndRest]; rfl⟩)⟩
    | succ left =>
      have hr := ihr left second rest hus hcomparison
      exact ⟨left, hl.trans (by rw [parseAndRest]; exact hr.bind (.refl _))⟩
  | @not ts e _ ih =>
    intro depth taken rest htaken hcomparison
    obtain ⟨⟨t, offset⟩, inner, rfl, ⟨⟩, hinner⟩ := List.map_eq_cons_iff.mp htaken
    cases depth with
    | zero => exact .inr ⟨_, by rw [parseNot]; rfl⟩
    | succ depth =>
      have hfound := ih depth inner rest hinner hcomparison
      rw [parseNot]
      exact hfound.bind (.refl _)
  | @comparison ts e hcompare ih =>
    intro depth taken rest htaken hcomparison
    obtain ⟨t, us, rfl, hnot⟩ := hcompare.comparison_head
    obtain ⟨⟨u, offset⟩, more, rfl, rfl, hmore⟩ := List.map_eq_cons_iff.mp htaken
    have hpeek : (⟨(u, offset) :: more ++ rest, length⟩ : Input).peek? ≠ some .not := by
      simpa using hnot
    rw [parseNot.eq_def, if_neg hpeek]
    exact ih depth _ rest htaken hcomparison
  | @compare ts op us combine l r hop _ _ ihl ihr =>
    intro depth taken rest htaken hcomparison
    obtain ⟨first, behind, rfl, hts, hbehind⟩ := List.map_eq_append_iff.mp htaken
    obtain ⟨operator, second, rfl, hoperator, hus⟩ := List.map_eq_append_iff.mp hbehind
    have hl := ihl depth first (operator ++ (second ++ rest)) hts
    have hr := ihr depth second rest hus
    rw [List.append_assoc, List.append_assoc, parseCompare]
    refine hl.bind ?_
    simp only [comparison?_of_operator hop hoperator]
    exact hr.bind (.refl _)
  | @primary ts e _ ih =>
    intro depth taken rest htaken hcomparison
    have hfirst := ih depth taken rest htaken
    rw [parseCompare]
    refine hfirst.bind ?_
    simp only [hcomparison]
    exact .refl _
  | @atom t e hatom =>
    intro depth taken rest htaken
    obtain ⟨⟨u, offset⟩, rfl, rfl⟩ := List.map_eq_singleton_iff.mp htaken
    rw [Finds, parsePrimary.eq_def]
    cases hatom <;> exact .refl _
  | defined p =>
    intro depth taken rest htaken
    obtain ⟨⟨t, first⟩, _, rfl, ⟨⟩, hleft⟩ := List.map_eq_cons_iff.mp htaken
    obtain ⟨⟨t, second⟩, _, rfl, ⟨⟩, hpath⟩ := List.map_eq_cons_iff.mp hleft
    obtain ⟨⟨t, third⟩, _, rfl, ⟨⟩, hright⟩ := List.map_eq_cons_iff.mp hpath
    obtain ⟨⟨t, fourth⟩, rfl, ⟨⟩⟩ := List.map_eq_singleton_iff.mp hright
    rw [Finds, parsePrimary.eq_def]
    exact .refl _
  | @parentheses ts e _ ih =>
    intro depth taken rest htaken
    obtain ⟨⟨t, first⟩, behind, rfl, ⟨⟩, hbehind⟩ := List.map_eq_cons_iff.mp htaken
    obtain ⟨inner, closing, rfl, hinner, hclosing⟩ := List.map_eq_append_iff.mp hbehind
    obtain ⟨⟨t, last⟩, rfl, ⟨⟩⟩ := List.map_eq_singleton_iff.mp hclosing
    cases depth with
    | zero => exact .inr ⟨_, by rw [parsePrimary.eq_def]; rfl⟩
    | succ depth =>
      obtain ⟨left, hfound⟩ := ih depth inner ((.rightParen, last) :: rest) hinner rfl (by simp)
      rw [parseOrRest_of_peek left e (by simp)] at hfound
      rw [Finds, List.cons_append, List.append_assoc, parsePrimary.eq_def]
      exact hfound.bind (.refl _)

end Completeness

namespace Connective

def symbol : Connective → String
  | .not => "!"
  | .and => "&&"
  | .or => "||"

def token : Connective → Token
  | .not => .not
  | .and => .and
  | .or => .or

end Connective

section Spelling

variable {offset : Nat} {rest : List Char}

theorem tokensFrom_cons {c : Char} {cs : List Char} {t : Token} {n : Nat}
    (hblank : Text.isBlank c = false) (h : lexToken c cs = .ok (t, n)) :
    tokensFrom offset (c :: cs) =
      (tokensFrom (offset + n + 1) (cs.drop n)).map ((t, offset) :: ·) := by
  rw [tokensFrom, hblank, h]
  simp only [Bool.false_eq_true, if_false]
  split <;> simp_all [Except.map]

theorem lexToken_of_isLetter {c : Char} {cs : List Char} (h : Text.isLetter c = true) :
    lexToken c cs = lexWord c cs := by
  have hne : ∀ d, Text.isLetter d = false → c ≠ d := by
    rintro d hd rfl
    rw [h] at hd
    cases hd
  have hdigit : Text.isDigit c = false := by
    simp [Text.isLetter, Text.isDigit, Char.le_def, UInt32.le_iff_toNat_le] at h ⊢
    omega
  simp [lexToken, h, hdigit, hne '(' rfl, hne ')' rfl, hne '=' rfl, hne '!' rfl, hne '&' rfl,
    hne '|' rfl, hne '\'' rfl, hne '"' rfl, hne '-' rfl]

theorem tokensFrom_keyword {c : Char} (tail : List Char) {t : Token}
    (hblank : Text.isBlank c = false) (hletter : Text.isLetter c = true)
    (hkeyword : keyword? (String.ofList (c :: tail)) = some t)
    (htail : tail.all isWordChar = true) (hrest : ∀ d ∈ rest.head?, isWordChar d = false) :
    tokensFrom offset (c :: (tail ++ rest)) =
      (tokensFrom (offset + tail.length + 1) rest).map ((t, offset) :: ·) := by
  have htoken : lexToken c (tail ++ rest) = .ok (t, tail.length) := by
    rw [lexToken_of_isLetter hletter, lexWord, takeWhile_append_of_all (List.all_eq_true.mp htail) hrest]
    simp only [hkeyword]
  rw [tokensFrom_cons hblank htoken, List.drop_left]

theorem tokensFrom_name (c : Connective) (hrest : ∀ d ∈ rest.head?, isWordChar d = false) :
    tokensFrom offset (c.name.toList ++ rest) =
      (tokensFrom (offset + c.name.length) rest).map ((c.token, offset) :: ·) := by
  cases c with
  | not => exact tokensFrom_keyword ['o', 't'] rfl rfl rfl rfl hrest
  | and => exact tokensFrom_keyword ['n', 'd'] rfl rfl rfl rfl hrest
  | or => exact tokensFrom_keyword ['r'] rfl rfl rfl rfl hrest

theorem tokensFrom_symbol (c : Connective) (hrest : rest.head? ≠ some '=') :
    tokensFrom offset (c.symbol.toList ++ rest) =
      (tokensFrom (offset + c.symbol.length) rest).map ((c.token, offset) :: ·) := by
  cases c with
  | not =>
    have htoken : lexToken '!' rest = .ok (.not, 0) := by simp [lexToken, hrest]
    exact tokensFrom_cons (by decide) htoken
  | and =>
    have htoken : lexToken '&' ('&' :: rest) = .ok (.and, 1) := by simp [lexToken]
    exact tokensFrom_cons (by decide) htoken
  | or =>
    have htoken : lexToken '|' ('|' :: rest) = .ok (.or, 1) := by simp [lexToken]
    exact tokensFrom_cons (by decide) htoken

-- The ways to write a connective: a word that ends there, or a symbol.
inductive Connective.Spelling (c : Connective) (rest : List Char) : List Char → Prop where
  | name (hrest : ∀ d ∈ rest.head?, isWordChar d = false) : c.Spelling rest c.name.toList
  | symbol (hrest : rest.head? ≠ some '=') : c.Spelling rest c.symbol.toList

theorem tokensFrom_spelling {c : Connective} {spelling : List Char}
    (h : c.Spelling rest spelling) :
    tokensFrom offset (spelling ++ rest) =
      (tokensFrom (offset + spelling.length) rest).map ((c.token, offset) :: ·) := by
  cases h with
  | name hrest => exact tokensFrom_name c hrest
  | symbol hrest => exact tokensFrom_symbol c hrest

end Spelling

section Tokens

variable {tokens : List (Token × Nat)} {depth length : Nat} {ts : List Token} {e e' : Expr}

theorem parseExpr_of_derives (h : Derives .disjunction (tokens.map Prod.fst) e) :
    Unless (parseExpr depth ⟨tokens, length⟩) (.ok (e, ⟨[], length⟩)) := by
  obtain ⟨left, hfound⟩ := finds_of_derives h depth tokens [] rfl rfl (by simp)
  rwa [parseOrRest_of_peek left e (by simp), List.append_nil] at hfound

theorem fault_of_parseExpr {err : SyntaxError} (h : parseExpr depth ⟨tokens, length⟩ = .error err)
    (hdepth : nesting (tokens.map Prod.fst) ≤ depth) : err.fault ≠ .tooDeep := by
  have hreads := reads_all.1 depth ⟨tokens, length⟩
  rw [h] at hreads
  cases hreads with
  | error hdeep => exact fun hfault => absurd (hdeep hfault) (Nat.not_lt.mpr hdepth)

-- With depth enough, the parser gives the one answer that every derivation agrees with.
theorem Derives.unique (h : Derives .disjunction ts e) (h' : Derives .disjunction ts e') :
    e = e' := by
  have hplaced : (ts.map (·, 0)).map Prod.fst = ts := by
    simp only [List.map_map, Function.comp_def, List.map_id']
  have hfound {e : Expr} (h : Derives .disjunction ts e) :
      parseExpr (nesting ts) ⟨ts.map (·, 0), 0⟩ = .ok (e, ⟨[], 0⟩) := by
    have hparse : Unless (parseExpr (nesting ts) ⟨ts.map (·, 0), 0⟩) (.ok (e, ⟨[], 0⟩)) :=
      parseExpr_of_derives (by rwa [hplaced])
    obtain hok | ⟨offset, herror⟩ := hparse
    · exact hok
    · exact absurd rfl (fault_of_parseExpr herror (by rw [hplaced]))
  have hsame := (hfound h).symm.trans (hfound h')
  cases hsame
  rfl

theorem parseTokens_of_derives (h : Derives .disjunction (tokens.map Prod.fst) e) :
    parseTokens tokens length = .ok e ∨
      ∃ offset, parseTokens tokens length = .error ⟨offset, .tooDeep⟩ := by
  have hne : tokens.isEmpty = false := by simpa using h.ne_nil
  have hparse : Unless (parseExpr maxDepth ⟨tokens, length⟩) (.ok (e, ⟨[], length⟩)) :=
    parseExpr_of_derives h
  simp only [parseTokens, hne, Bool.false_eq_true, if_false]
  obtain hok | ⟨offset, herror⟩ := hparse
  · rw [hok]
    exact .inl rfl
  · rw [herror]
    exact .inr ⟨offset, rfl⟩

theorem exists_parseExpr_of_parseTokens (h : parseTokens tokens length = .ok e) :
    ∃ length', parseExpr maxDepth ⟨tokens, length⟩ = .ok (e, ⟨[], length'⟩) := by
  unfold parseTokens at h
  split at h
  · cases h
  · obtain ⟨⟨e', ⟨left, length'⟩⟩, hparse, h⟩ := bind_eq_ok_iff.mp h
    cases left with
    | nil =>
      cases h
      exact ⟨length', hparse⟩
    | cons t rest => cases h

theorem derives_of_parseTokens (h : parseTokens tokens length = .ok e) :
    Derives .disjunction (tokens.map Prod.fst) e := by
  obtain ⟨length', hparse⟩ := exists_parseExpr_of_parseTokens h
  have hreads := reads_all.1 maxDepth ⟨tokens, length⟩
  rw [hparse] at hreads
  cases hreads with
  | phrase taken htokens hderives =>
    rw [List.append_nil] at htokens
    rwa [List.nil_append, ← htokens] at hderives

theorem fault_of_parseTokens {err : SyntaxError} (h : parseTokens tokens length = .error err)
    (hdepth : nesting (tokens.map Prod.fst) ≤ maxDepth) : err.fault ≠ .tooDeep := by
  unfold parseTokens at h
  split at h
  · cases h
    exact nofun
  · cases hparse : parseExpr maxDepth ⟨tokens, length⟩ with
    | error err' =>
      rw [hparse] at h
      cases h
      exact fault_of_parseExpr hparse hdepth
    | ok result =>
      rw [hparse] at h
      obtain ⟨e, left, _⟩ := result
      cases left <;> cases h
      exact nofun

theorem parse_of_tokens {source : String} (htokens : Condition.tokens source = .ok tokens) :
    parse source = (parseTokens tokens source.length).map fun e => ⟨Text.trim source, e⟩ := by
  rw [parse, htokens]
  rfl

theorem exists_tokens_of_parse {source : String} {c : Condition} (h : parse source = .ok c) :
    ∃ tokens, Condition.tokens source = .ok tokens ∧
      parseTokens tokens source.length = .ok c.expr ∧ Text.trim source = c.source := by
  obtain ⟨tokens, htokens, -⟩ := bind_eq_ok_iff.mp h
  rw [parse_of_tokens htokens] at h
  obtain ⟨e, he, rfl⟩ := map_eq_ok_iff.mp h
  exact ⟨tokens, htokens, he, rfl⟩

-- A text is read exactly as the grammar derives its tokens. What is derived is the one expression
-- with these tokens, and it is the answer unless it nests too deep; what is not derived is refused.
-- Either spelling of a connective is one token.
theorem parse_exact {source : String} (htokens : Condition.tokens source = .ok tokens) :
    (∀ e, Derives .disjunction (tokens.map Prod.fst) e →
      (∀ e', Derives .disjunction (tokens.map Prod.fst) e' → e' = e) ∧
      (parse source = .ok ⟨Text.trim source, e⟩ ∨
        ∃ offset, parse source = .error ⟨offset, .tooDeep⟩)) ∧
    ((∀ e, ¬ Derives .disjunction (tokens.map Prod.fst) e) →
      ∃ err, parse source = .error err) ∧
    (nesting (tokens.map Prod.fst) ≤ 128 →
      ∀ err, parse source = .error err → err.fault ≠ .tooDeep) ∧
    SyntaxFault.tooDeep.message = "condition nests deeper than 128 levels" ∧
    ∀ (c : Connective) offset spelling rest, c.Spelling rest spelling →
      tokensFrom offset (spelling ++ rest) =
        (tokensFrom (offset + spelling.length) rest).map ((c.token, offset) :: ·) := by
  have hparse : parse source =
      (parseTokens tokens source.length).map fun e => ⟨Text.trim source, e⟩ := by
    rw [parse, htokens]
    rfl
  refine ⟨fun e he => ⟨fun e' he' => he'.unique he, ?_⟩, fun hnone => ?_,
    fun hnesting err herr => ?_, by decide +kernel, fun _ _ _ _ => tokensFrom_spelling⟩
  · have hresult : parseTokens tokens source.length = .ok e ∨
        ∃ offset, parseTokens tokens source.length = .error ⟨offset, .tooDeep⟩ :=
      parseTokens_of_derives he
    obtain hok | ⟨offset, herror⟩ := hresult
    · exact .inl (by rw [hparse, hok]; rfl)
    · exact .inr ⟨offset, by rw [hparse, herror]; rfl⟩
  · rw [hparse]
    cases hresult : parseTokens tokens source.length with
    | ok e => exact absurd (derives_of_parseTokens hresult) (hnone e)
    | error err => exact ⟨err, rfl⟩
  · rw [hparse] at herr
    cases hresult : parseTokens tokens source.length with
    | ok e => rw [hresult] at herr; cases herr
    | error err' =>
      rw [hresult] at herr
      cases herr
      exact fault_of_parseTokens hresult hnesting

end Tokens

def guardTokens : List (Token × Nat) :=
  [(.not, 0), (.path ⟨"a", [], by decide⟩, 4), (.eq, 6), (.integer 1, 9), (.or, 11),
    (.path ⟨"b", [], by decide⟩, 14), (.not, 16), (.isIn, 20), (.path ⟨"c", [], by decide⟩, 23)]

def guardExpr : Expr :=
  .or (.not (.eq (.var ⟨"a", [], by decide⟩) (.literal (.integer 1))))
    (.not (.isIn (.var ⟨"b", [], by decide⟩) (.var ⟨"c", [], by decide⟩)))

theorem derives_guard : Derives .disjunction (guardTokens.map Prod.fst) guardExpr := by
  have hequal := Derives.compare .eq (.atom (.path ⟨"a", [], by decide⟩)) (.atom (.integer 1))
  have hmember := Derives.compare .notIn (.atom (.path ⟨"b", [], by decide⟩))
    (.atom (.path ⟨"c", [], by decide⟩))
  exact .or (.conjunction (.negation (.not (.comparison hequal))))
    (.negation (.comparison hmember))

theorem parse_exact_guard :
    tokens "not a == 1 or b not in c" = .ok guardTokens ∧
    Derives .disjunction (guardTokens.map Prod.fst) guardExpr ∧
    parse "not a == 1 or b not in c" = .ok ⟨"not a == 1 or b not in c", guardExpr⟩ := by
  have htokens : tokens "not a == 1 or b not in c" = .ok guardTokens := by cbv
  obtain ⟨haccepts, -, hshallow, -⟩ := parse_exact htokens
  refine ⟨htokens, derives_guard, ?_⟩
  obtain ⟨-, hok | ⟨offset, herror⟩⟩ := haccepts guardExpr derives_guard
  · exact hok
  · exact absurd rfl (hshallow (by decide) _ herror)

end Skeleton.Condition
