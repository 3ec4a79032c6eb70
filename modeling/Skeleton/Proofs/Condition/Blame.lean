import Skeleton.Proofs.Condition.Lexing
import Skeleton.Proofs.Condition.Lookahead

-- Where the parser finds fault: at the first token that no condition has there. What it has read
-- before can be completed to a condition, and with that token it can not, whatever follows.

namespace Skeleton.Condition

section Blame

variable {tokens before after : List (Token × Nat)} {length offset n : Nat} {ts us : List Token}
  {t : Token} {e : Expr} {err : SyntaxError} {cs : List Char} {source : String}

-- The parser accepts these tokens, standing somewhere.
def Accepts (ts : List Token) : Prop :=
  ∃ tokens length e, tokens.map Prod.fst = ts ∧ parseTokens tokens length = .ok e

theorem not_accepts (h : ∀ k : Input, k.kinds = ts → ∀ e k', k'.kinds = [] →
    parseExpr maxDepth k ≠ .ok (e, k')) : ¬ Accepts ts := by
  rintro ⟨tokens, length, e, hts, hparse⟩
  obtain ⟨length', hread⟩ := exists_parseExpr_of_parseTokens hparse
  exact h ⟨tokens, length⟩ hts e _ rfl hread

theorem parseTokens_of_leaves {k : Input} (h : Leaves (parseExpr maxDepth) k []) :
    ∃ e, parseTokens k.tokens k.length = .ok e := by
  obtain ⟨e, k', hread, hk'⟩ := h
  have hpeek : k'.peek? = none := by rw [Input.peek?_eq, hk']; rfl
  have hne : k.tokens.isEmpty = false := by
    have hreads := reads_all.1 maxDepth k
    rw [hread] at hreads
    cases hreads with
    | phrase taken htokens hderives =>
      have htaken : taken ≠ [] := fun hnil => hderives.ne_nil (by rw [hnil]; rfl)
      rw [List.isEmpty_eq_false_iff, htokens]
      exact List.append_ne_nil_of_left_ne_nil htaken _
  refine ⟨e, ?_⟩
  rw [parseTokens, hne, hread]
  simp only [Bool.false_eq_true, if_false, bind, Except.bind, hpeek]

theorem accepts_of_leaves (h : ∀ k : Input, k.kinds = ts → Leaves (parseExpr maxDepth) k []) :
    Accepts ts := by
  have hkinds : (⟨ts.map (·, 0), 0⟩ : Input).kinds = ts := by
    simp [Input.kinds, Function.comp_def]
  obtain ⟨e, hparse⟩ := parseTokens_of_leaves (h _ hkinds)
  exact ⟨_, _, e, hkinds, hparse⟩

-- It does not matter where they stand.
theorem accepts_iff : Accepts ts ↔
    ∀ tokens length, tokens.map Prod.fst = ts → ∃ e, parseTokens tokens length = .ok e := by
  constructor
  · rintro ⟨placed, length, e, hplaced, hparse⟩ tokens length' htokens
    obtain ⟨last, hread⟩ := exists_parseExpr_of_parseTokens hparse
    cases tracks_all.1 maxDepth ⟨placed, length⟩ with
    | @phrase e' j taken hi hread' hsame =>
      cases hread.symm.trans hread'
      have hkinds : ts = taken.map Prod.fst ++ [] := hplaced.symm.trans (kinds_append hi)
      refine parseTokens_of_leaves (k := ⟨tokens, length'⟩) ?_
      obtain ⟨k', hleft, hk'⟩ := hsame ⟨tokens, length'⟩ [] (htokens.trans hkinds) (.refl _)
      exact ⟨e, k', hleft, hk'⟩
    | fault _ _ _ hread' => cases hread.symm.trans hread'
    | deep hread' => cases hread.symm.trans hread'
  · intro h
    have hkinds : (ts.map (·, 0)).map Prod.fst = ts := by simp [Function.comp_def]
    obtain ⟨e, hparse⟩ := h (ts.map (·, 0)) 0 hkinds
    exact ⟨_, _, e, hkinds, hparse⟩

-- What stands behind some tokens is read from where it stands.
theorem tokensFrom_drop (h : tokensFrom offset cs = .ok (before ++ (t, n) :: after)) :
    offset ≤ n ∧ tokensFrom n (cs.drop (n - offset)) = .ok ((t, n) :: after) := by
  fun_induction tokensFrom offset cs generalizing before with
  | case1 offset => simp at h
  | case2 offset c rest hblank ih =>
    obtain ⟨hle, hdrop⟩ := ih h
    refine ⟨by omega, ?_⟩
    rwa [show n - offset = n - (offset + 1) + 1 by omega, List.drop_succ_cons]
  | case3 | case4 => cases h
  | case5 offset c rest hblank u m htoken tokens hrest ih =>
    cases before with
    | nil =>
      obtain ⟨⟨rfl, rfl⟩, rfl⟩ : (u = t ∧ offset = n) ∧ tokens = after := by simpa using h
      rw [Nat.sub_self, List.drop_zero, tokensFrom_cons (by simpa using hblank) htoken, hrest]
      exact ⟨Nat.le_refl _, rfl⟩
    | cons v inner =>
      obtain ⟨-, rfl⟩ : (u, offset) = v ∧ tokens = inner ++ (t, n) :: after := by simpa using h
      obtain ⟨hle, hdrop⟩ := ih hrest
      refine ⟨by omega, ?_⟩
      rwa [List.drop_drop, show m + (n - (offset + m + 1)) = n - offset - 1 by omega,
        ← List.drop_succ_cons (a := c), Nat.sub_add_cancel (by omega)] at hdrop

theorem not_accepts_nil : ¬ Accepts [] := by
  rintro ⟨tokens, length, e, hnil, hparse⟩
  obtain rfl := List.map_eq_nil_iff.mp hnil
  cases hparse

theorem accepts_true : Accepts [.true] := by
  refine ⟨[(.true, 0)], 0, .literal (.bool true), rfl, ?_⟩
  cbv

-- Where a list of tokens is refused, what has been read before can be completed.
theorem fault_of_tokens (h : parseTokens tokens length = .error err) (hfault : err.fault ≠ .tooDeep) :
    ∃ (taken : List (Token × Nat)) (j : Input), tokens = taken ++ j.tokens ∧
      err.offset = (if tokens = [] then 0 else (⟨j.tokens, length⟩ : Input).offset) ∧
      (∃ more, Accepts (taken.map Prod.fst ++ more)) ∧
      ∀ rest, ahead rest = ahead j.kinds → ¬ Accepts (taken.map Prod.fst ++ rest) := by
  by_cases hnil : tokens = []
  · subst hnil
    obtain rfl : ⟨0, .empty⟩ = err := Except.error.inj h
    refine ⟨[], ⟨[], length⟩, rfl, rfl, ⟨_, accepts_true⟩, fun rest hahead => ?_⟩
    obtain rfl : rest = [] := List.head?_eq_none_iff.mp (head?_of_ahead hahead)
    exact not_accepts_nil
  · rw [parseTokens, List.isEmpty_eq_false_iff.mpr hnil] at h
    simp only [Bool.false_eq_true, if_false] at h
    cases tracks_all.1 maxDepth ⟨tokens, length⟩ with
    | @phrase e j taken hi hread hsame =>
      obtain ⟨rfl, rfl⟩ : tokens = taken ++ j.tokens ∧ length = j.length := Input.mk.inj hi
      rw [hread] at h
      cases hpeek : j.peek? with
      | none =>
        simp only [bind, Except.bind, hpeek] at h
        cases h
      | some t =>
        simp only [bind, Except.bind, hpeek] at h
        obtain rfl : ⟨j.offset, .unexpected t⟩ = err := Except.error.inj h
        refine ⟨taken, j, rfl, (if_neg hnil).symm, ⟨[], ?_⟩, fun rest hahead => ?_⟩
        · refine accepts_of_leaves fun k hk => ?_
          obtain ⟨k', hread', hk'⟩ := hsame k [] hk (.inr rfl)
          exact ⟨e, k', hread', hk'⟩
        · refine not_accepts fun k hk e' k'' hnone hread'' => ?_
          obtain ⟨k', hread', hk'⟩ := hsame k rest hk (.inl hahead)
          cases hread'.symm.trans hread''
          have hhead := head?_of_ahead hahead
          rw [← hk', hnone, ← Input.peek?_eq, hpeek] at hhead
          cases hhead
    | @fault j fault taken more hi hread hmore hopen hdead =>
      obtain ⟨rfl, rfl⟩ : tokens = taken ++ j.tokens ∧ length = j.length := Input.mk.inj hi
      rw [hread] at h
      obtain rfl : ⟨j.offset, fault⟩ = err := Except.error.inj h
      refine ⟨taken, j, rfl, (if_neg hnil).symm, ⟨more, ?_⟩, fun rest hahead => ?_⟩
      · refine accepts_of_leaves fun k hk => hopen k [] ?_ rfl
        rwa [List.append_nil]
      · refine not_accepts fun k hk e k' _ hread' => ?_
        obtain ⟨err, herr⟩ := hdead k rest hk hahead
        cases herr.symm.trans hread'
    | deep hread =>
      rw [hread] at h
      cases h
      exact absurd rfl hfault

-- For a text of tokens that is no condition and does not nest too deep, the error stands at a token
-- or at the end. The tokens before it can be completed to a condition. With it they can not, where
-- a `not` is blamed together with the token behind it. At the end, the tokens can be completed.
theorem blame_of_parse (htokens : Condition.tokens source = .ok tokens)
    (hparse : parse source = .error err) (hfault : err.fault ≠ .tooDeep) :
    (∃ before t after, tokens = before ++ (t, err.offset) :: after ∧
      tokensFrom err.offset (source.toList.drop err.offset) = .ok ((t, err.offset) :: after) ∧
      (∃ more, Accepts (before.map Prod.fst ++ more)) ∧
      (t ≠ .not → ∀ more, ¬ Accepts (before.map Prod.fst ++ t :: more)) ∧
      ∀ next ∈ after.head?, ∀ more, ¬ Accepts (before.map Prod.fst ++ t :: next.1 :: more)) ∨
    (err.offset = (if tokens = [] then 0 else source.length) ∧
      (∃ more, more ≠ [] ∧ Accepts (tokens.map Prod.fst ++ more)) ∧
      ¬ Accepts (tokens.map Prod.fst)) := by
  have hrefused : parseTokens tokens source.length = .error err := by
    rw [parse_of_tokens htokens] at hparse
    exact map_eq_error_iff.mp hparse
  obtain ⟨taken, ⟨behind, length⟩, rfl, hoffset, ⟨more, haccepts⟩, hdead⟩ :=
    fault_of_tokens hrefused hfault
  cases behind with
  | nil =>
    dsimp only at hoffset hdead ⊢
    rw [List.append_nil] at *
    have hnot : ¬ Accepts (taken.map Prod.fst) := by simpa using hdead [] rfl
    refine .inr ⟨hoffset, ⟨more, ?_, haccepts⟩, hnot⟩
    rintro rfl
    exact hnot (by rwa [List.append_nil] at haccepts)
  | cons token after =>
    obtain ⟨t, offset⟩ := token
    rw [if_neg (by simp)] at hoffset
    obtain rfl : err.offset = offset := hoffset
    refine .inl ⟨taken, t, after, rfl, (tokensFrom_drop htokens).2, ⟨more, haccepts⟩, ?_, ?_⟩
    · intro hnot more
      exact hdead _ (by simp [ahead_cons, Input.kinds, hnot])
    · intro next hnext more
      obtain ⟨after, rfl⟩ := List.head?_eq_some_iff.mp hnext
      exact hdead _ (by simp [ahead_cons, Input.kinds])

-- Behind a name, `not` is no fault by itself.
theorem blame_of_parse_not :
    parse "v not y" = .error ⟨2, .unexpected .not⟩ ∧
    (∃ more, Accepts (.path anyName :: more)) ∧ Accepts [.path anyName, .not, .isIn, .true] ∧
    ∀ more, ¬ Accepts (.path anyName :: .not :: .path ⟨"y", [], by decide⟩ :: more) := by
  have htokens : tokens "v not y" =
      .ok [(.path anyName, 0), (.not, 2), (.path ⟨"y", [], by decide⟩, 6)] := by cbv
  have hparse : parse "v not y" = .error ⟨2, .unexpected .not⟩ := by cbv
  have haccepts : Accepts [.path anyName, .not, .isIn, .true] :=
    ⟨[(.path anyName, 0), (.not, 0), (.isIn, 0), (.true, 0)], 0, _, rfl, by cbv⟩
  obtain ⟨before, t, after, hsplit, -, hopen, -, hdead⟩ | ⟨hend, -⟩ :=
    blame_of_parse htokens hparse (by simp)
  · obtain ⟨rfl, rfl, rfl⟩ : before = [(.path anyName, 0)] ∧ t = .not ∧
        after = [(.path ⟨"y", [], by decide⟩, 6)] := by
      rcases before with _ | ⟨first, _ | ⟨second, _ | ⟨third, before⟩⟩⟩ <;>
        simp_all
    exact ⟨hparse, hopen, haccepts, hdead _ rfl⟩
  · cases hend

end Blame

end Skeleton.Condition
