import Skeleton.Proofs.Condition.Lexing

-- The source of a condition is a text of its expression, also where conditions were combined.

namespace Skeleton.Condition

section Composed

-- Conditions that were read, and all that are put together from them.
inductive Composed : Condition → Prop where
  | parse {source : String} {c : Condition} (h : parse source = .ok c) : Composed c
  | and {a b : Condition} (ha : Composed a) (hb : Composed b) : Composed (a.and b)

-- A source with the phrase that it is, and no blanks around it.
structure Denotes (c : Condition) (ts : List Token) : Prop where
  spells : Spells c.source.toList ts
  derives : Derives .disjunction ts c.expr
  trimmed : Text.trim c.source = c.source

variable {a b c : Condition} {source : String} {ts us : List Token}

theorem exists_denotes_of_parse (h : parse source = .ok c) : ∃ ts, Denotes c ts := by
  obtain ⟨tokens, htokens, he, htrim⟩ := exists_tokens_of_parse h
  have hspells := (spells_of_tokensFrom htokens).trimBlanks
  refine ⟨tokens.map Prod.fst, ?_, derives_of_parseTokens he, ?_⟩
  · rwa [← htrim, Text.trim, String.toList_ofList]
  · rw [← htrim, Text.trim_trim]

theorem toList_source_and : (a.and b).source.toList =
    '(' :: (a.source.toList ++ [')']) ++
      ' ' :: ("and".toList ++ ' ' :: '(' :: (b.source.toList ++ [')'])) := by
  simp [Condition.and]

theorem Denotes.and (ha : Denotes a ts) (hb : Denotes b us) :
    Denotes (a.and b) (.leftParen :: (ts ++ [.rightParen]) ++
      .and :: .leftParen :: (us ++ [.rightParen])) where
  spells := by
    have hbehind := Spells.word .and hb.spells.parentheses
    rw [toList_source_and]
    exact ha.spells.parentheses.append (stops_of_blank rfl) hbehind
  derives :=
    .conjunction (.and (.negation (.comparison (.primary (.parentheses ha.derives))))
      (.comparison (.primary (.parentheses hb.derives))))
  trimmed := by
    have hends : Text.trimBlanks (a.and b).source.toList = (a.and b).source.toList := by
      rw [toList_source_and]
      apply Text.trimBlanks_of_ends
      · simp
        decide
      · simp [List.getLast?_append, List.getLast?_cons]
        decide
    rw [Text.trim, hends, String.ofList_toList]

theorem Composed.exists_denotes (hc : Composed c) : ∃ ts, Denotes c ts := by
  induction hc with
  | parse h => exact exists_denotes_of_parse h
  | and _ _ iha ihb =>
    obtain ⟨ts, ha⟩ := iha
    obtain ⟨us, hb⟩ := ihb
    exact ⟨_, ha.and hb⟩

-- The source of a condition is read as the condition, unless it nests too deep.
theorem parse_source (hc : Composed c) :
    (parse c.source = .ok c ∨ ∃ offset, parse c.source = .error ⟨offset, .tooDeep⟩) ∧
    ∃ tokens, Condition.tokens c.source = .ok tokens ∧
      (nesting (tokens.map Prod.fst) ≤ maxDepth → parse c.source = .ok c) := by
  obtain ⟨ts, hdenotes⟩ := hc.exists_denotes
  obtain ⟨tokens, htokens, rfl⟩ := hdenotes.spells 0
  have hparse := parse_of_tokens htokens
  rw [hdenotes.trimmed] at hparse
  have hresult : parseTokens tokens c.source.length = .ok c.expr ∨
      ∃ offset, parseTokens tokens c.source.length = .error ⟨offset, .tooDeep⟩ :=
    parseTokens_of_derives hdenotes.derives
  rw [hparse]
  refine ⟨?_, tokens, htokens, fun hnesting => ?_⟩
  · obtain hok | ⟨offset, herror⟩ := hresult
    · exact .inl (by rw [hok]; rfl)
    · exact .inr ⟨offset, by rw [herror]; rfl⟩
  · obtain hok | ⟨offset, herror⟩ := hresult
    · rw [hok]
      rfl
    · exact absurd rfl (fault_of_parseTokens herror hnesting)

end Composed

def choice : Condition :=
  ⟨"p or q", .or (.var ⟨"p", [], by decide⟩) (.var ⟨"q", [], by decide⟩)⟩

def quoted : Condition :=
  ⟨"s == ')'", .eq (.var ⟨"s", [], by decide⟩) (.literal (.string ")"))⟩

theorem parse_source_choice :
    parse "\tp or q " = .ok choice ∧ parse "s == ')'" = .ok quoted ∧
    (quoted.and (choice.and quoted)).source = "(s == ')') and ((p or q) and (s == ')'))" ∧
    parse (quoted.and (choice.and quoted)).source = .ok (quoted.and (choice.and quoted)) := by
  have hchoice : parse "\tp or q " = .ok choice := by cbv
  have hquoted : parse "s == ')'" = .ok quoted := by cbv
  have hcomposed : Composed (quoted.and (choice.and quoted)) :=
    .and (.parse hquoted) (.and (.parse hchoice) (.parse hquoted))
  obtain ⟨-, tokens, htokens, hshallow⟩ := parse_source hcomposed
  have hnesting : (Condition.tokens (quoted.and (choice.and quoted)).source).toOption.map
      (fun tokens => nesting (tokens.map Prod.fst)) = some 7 := by cbv
  rw [htokens] at hnesting
  have hseven : nesting (tokens.map Prod.fst) = 7 := Option.some.inj hnesting
  exact ⟨hchoice, hquoted, by decide +kernel, hshallow (by rw [hseven]; decide)⟩

end Skeleton.Condition
