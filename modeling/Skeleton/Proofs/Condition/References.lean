import Skeleton.Proofs.Condition.Blame

-- References to variables in conditions. A word of a condition is read as the path that it is, and
-- only a word with a meaning of its own is not.

namespace Skeleton.Condition

def wordAt (source : String) (offset : Nat) : String :=
  String.ofList ((source.toList.drop offset).takeWhile isWordChar)

def reserved : List String := ["and", "or", "not", "in", "true", "false", "defined"]

section Words

variable {c : Char} {cs rest : List Char} {n offset : Nat} {t : Token} {p : VarPath}
  {word source : String} {tokens after : List (Token × Nat)}

theorem keyword?_eq_none_iff : keyword? word = none ↔ word ∉ reserved := by
  unfold keyword?
  split <;> simp_all [reserved]

theorem keyword?_ne_path : keyword? word ≠ some (.path p) := by
  unfold keyword?
  split <;> simp

theorem lexWord_eq_path (h : lexWord c rest = .ok (.path p, n)) :
    keyword? (String.ofList (c :: rest.takeWhile isWordChar)) = none ∧
      VarPath.ofText? (String.ofList (c :: rest.takeWhile isWordChar)) = some p := by
  unfold lexWord at h
  dsimp only at h
  split at h
  · rename_i token hkeyword
    obtain ⟨rfl, -⟩ := Prod.mk.inj (Except.ok.inj h)
    exact absurd hkeyword keyword?_ne_path
  · rename_i hkeyword
    split at h
    · rename_i path hpath
      obtain ⟨⟨⟩, -⟩ := Prod.mk.inj (Except.ok.inj h)
      exact ⟨hkeyword, hpath⟩
    · cases h

theorem lexNumber_ne_path : lexNumber c rest ≠ .ok (.path p, n) := by
  unfold lexNumber
  dsimp only
  split
  · rename_i token htoken
    rintro ⟨⟩
    split at htoken <;> obtain ⟨_, -, ⟨⟩⟩ := Option.map_eq_some_iff.mp htoken
  · rintro ⟨⟩

theorem lexToken_of_isNameStart (h : IsNameStart c) : lexToken c rest = lexWord c rest := by
  obtain hletter | rfl := isNameStart_iff.mp h
  · exact lexToken_of_isLetter hletter
  · rfl

-- Only a word is read as a path.
theorem lexToken_eq_path (h : lexToken c rest = .ok (.path p, n)) :
    isWordChar c = true ∧ lexWord c rest = .ok (.path p, n) := by
  by_cases hc : c = '\'' ∨ c = '"'
  · rw [lexToken_of_quote hc] at h
    split at h <;> cases h
  · simp only [lexToken, if_neg hc] at h
    split_ifs at h
    all_goals try cases h
    · exact absurd h lexNumber_ne_path
    · rename_i hword
      refine ⟨?_, h⟩
      obtain hletter | rfl := hword
      · simp [isWordChar, Text.isLetterOrDigit, hletter]
      · rfl

theorem lexToken_of_tokensFrom (h : tokensFrom offset cs = .ok ((t, offset) :: after)) :
    ∃ c rest n, cs = c :: rest ∧ lexToken c rest = .ok (t, n) := by
  rw [tokensFrom.eq_def] at h
  split at h
  · cases h
  · rename_i c rest
    split at h
    · obtain ⟨hle, -⟩ := @tokensFrom_drop [] after (offset + 1) offset t rest h
      omega
    · split at h
      · cases h
      · rename_i token n htoken
        split at h <;> cases h
        exact ⟨c, rest, n, rfl, htoken⟩

-- A path in a condition is the word at its place.
theorem wordAt_of_mem (h : Condition.tokens source = .ok tokens)
    (hmem : (.path p, offset) ∈ tokens) :
    wordAt source offset = p.text ∧ p.text ∉ reserved := by
  obtain ⟨before, after, rfl⟩ := List.append_of_mem hmem
  obtain ⟨c, rest, n, hcs, htoken⟩ := lexToken_of_tokensFrom (tokensFrom_drop h).2
  obtain ⟨hc, hword⟩ := lexToken_eq_path htoken
  obtain ⟨hkeyword, hpath⟩ := lexWord_eq_path hword
  obtain htext := VarPath.ofText?_eq_some_iff.mp hpath
  rw [Nat.sub_zero] at hcs
  rw [wordAt, hcs, List.takeWhile_cons_of_pos hc, ← htext]
  exact ⟨rfl, keyword?_eq_none_iff.mp (htext ▸ hkeyword)⟩

theorem isWordChar_of_mem_text {p : VarPath} (hc : c ∈ p.text.toList) : isWordChar c = true := by
  simpa [isWordChar, or_assoc] using VarPath.mem_text hc

-- A path is one token by itself, where it is not a word with a meaning of its own.
theorem tokens_text_iff (p : VarPath) :
    Condition.tokens p.text = .ok [(.path p, 0)] ↔ p.text ∉ reserved := by
  refine ⟨fun h => (wordAt_of_mem h List.mem_cons_self).2, fun h => ?_⟩
  obtain ⟨c, rest, htext, hstart⟩ := p.names_text.head
  have hrest : rest.takeWhile isWordChar = rest := by
    refine List.takeWhile_eq_self_iff.mpr fun d hd => isWordChar_of_mem_text (p := p) ?_
    rw [htext]
    exact List.mem_cons_of_mem c hd
  have hword : String.ofList (c :: rest) = p.text := by rw [← htext, String.ofList_toList]
  have htoken : lexToken c rest = .ok (.path p, rest.length) := by
    rw [lexToken_of_isNameStart hstart, lexWord]
    simp only [hrest, hword, keyword?_eq_none_iff.mpr h, p.ofText?_text]
  have hblank : Text.isBlank c = false := by
    apply VarPath.not_isBlank_of_mem_text
    rw [htext]
    exact List.mem_cons_self
  rw [Condition.tokens, htext, tokensFrom_cons hblank htoken, List.drop_length, tokensFrom]
  rfl

end Words

section Parser

variable {α β : Type} {x : Except SyntaxError α} {f : α → Except SyntaxError β}

def KeepsReferences (x : Except SyntaxError α) : Prop :=
  ∀ offset word, x ≠ .error ⟨offset, .invalidReference word⟩

theorem KeepsReferences.ok (a : α) : KeepsReferences (.ok a) := by
  rintro offset word ⟨⟩

theorem KeepsReferences.bind (hx : KeepsReferences x) (hf : ∀ a, KeepsReferences (f a)) :
    KeepsReferences (x >>= f) := by
  cases x with
  | ok a => exact hf a
  | error err =>
    rintro offset word ⟨⟩
    exact hx offset word rfl

theorem Input.keepsReferences_fail (i : Input) {fault : SyntaxFault}
    (h : ∀ word, fault ≠ .invalidReference word) :
    KeepsReferences (i.fail fault : Except SyntaxError α) := by
  rintro offset word ⟨⟩
  exact h word rfl

theorem Input.keepsReferences_expect (i : Input) (wanted : Token) :
    KeepsReferences (i.expect wanted) := by
  unfold Input.expect
  split
  · exact .ok _
  · exact i.keepsReferences_fail (by simp)

theorem keepsReferences_parseDefined (i : Input) : KeepsReferences (parseDefined i) := by
  refine (i.keepsReferences_expect _).bind fun j => ?_
  split
  · exact (j.rest.keepsReferences_expect _).bind fun _ => .ok _
  · exact j.keepsReferences_fail (by simp)

-- By induction on the calls of the parser.
theorem keepsReferences_all :
    (∀ depth i, KeepsReferences (parseExpr depth i)) ∧
    (∀ depth left i, KeepsReferences (parseOrRest depth left i)) ∧
    (∀ depth i, KeepsReferences (parseAnd depth i)) ∧
    (∀ depth left i, KeepsReferences (parseAndRest depth left i)) ∧
    (∀ depth i, KeepsReferences (parseNot depth i)) ∧
    (∀ depth i, KeepsReferences (parseCompare depth i)) ∧
    (∀ depth i, KeepsReferences (parsePrimary depth i)) := by
  apply parseExpr.mutual_induct
  case case1 =>
    intro depth i hfirst hrest
    rw [parseExpr]
    exact hfirst.bind fun first => hrest first.1 first.2
  case case2 =>
    intro left i hpeek
    rw [parseOrRest, if_pos hpeek]
    exact i.rest.keepsReferences_fail (by simp)
  case case3 =>
    intro left i hpeek depth hoperand hrest
    rw [parseOrRest, if_pos hpeek]
    exact hoperand.bind fun operand => hrest operand.1 operand.2
  case case4 =>
    intro depth left i hpeek
    rw [parseOrRest.eq_def, if_neg hpeek]
    exact .ok _
  case case5 =>
    intro depth i hfirst hrest
    rw [parseAnd]
    exact hfirst.bind fun first => hrest first.1 first.2
  case case6 =>
    intro left i hpeek
    rw [parseAndRest, if_pos hpeek]
    exact i.rest.keepsReferences_fail (by simp)
  case case7 =>
    intro left i hpeek depth hoperand hrest
    rw [parseAndRest, if_pos hpeek]
    exact hoperand.bind fun operand => hrest operand.1 operand.2
  case case8 =>
    intro depth left i hpeek
    rw [parseAndRest.eq_def, if_neg hpeek]
    exact .ok _
  case case9 =>
    intro i hpeek
    rw [parseNot, if_pos hpeek]
    exact i.rest.keepsReferences_fail (by simp)
  case case10 =>
    intro i hpeek depth hinner
    rw [parseNot, if_pos hpeek]
    exact hinner.bind fun _ => .ok _
  case case11 =>
    intro depth i hpeek hcompare
    rwa [parseNot.eq_def, if_neg hpeek]
  case case12 =>
    intro depth i hleft hright
    rw [parseCompare]
    refine hleft.bind fun left => ?_
    dsimp only
    split
    · exact .ok _
    · exact (hright _).bind fun _ => .ok _
  case case13 =>
    intro depth i hpeek
    rw [parsePrimary.eq_def, hpeek]
    exact i.keepsReferences_fail (by simp)
  case case14 =>
    intro i hpeek
    rw [parsePrimary.eq_def, hpeek]
    exact i.rest.keepsReferences_fail (by simp)
  case case15 =>
    intro i depth hpeek hinner
    rw [parsePrimary.eq_def, hpeek]
    exact hinner.bind fun inner => (inner.2.keepsReferences_expect _).bind fun _ => .ok _
  case case16 =>
    intro depth i hpeek _
    rw [parsePrimary.eq_def, hpeek]
    exact keepsReferences_parseDefined _
  case case17 =>
    intro depth i token hpeek hleft hdefined e he
    rw [parsePrimary.eq_def, hpeek]
    simp only [if_neg hleft, if_neg hdefined, he]
    exact .ok _
  case case18 =>
    intro depth i token hpeek hleft hdefined he
    rw [parsePrimary.eq_def, hpeek]
    simp only [if_neg hleft, if_neg hdefined, he]
    exact i.keepsReferences_fail (by simp)

theorem keepsReferences_parseTokens (tokens : List (Token × Nat)) (length : Nat) :
    KeepsReferences (parseTokens tokens length) := by
  unfold parseTokens
  split
  · rintro offset word ⟨⟩
  · refine (keepsReferences_all.1 _ _).bind fun read => ?_
    dsimp only
    split
    · exact read.2.keepsReferences_fail (by simp)
    · exact .ok _

theorem parse_invalidReference_iff {source word : String} {offset : Nat} :
    parse source = .error ⟨offset, .invalidReference word⟩ ↔
      Condition.tokens source = .error ⟨offset, .invalidReference word⟩ := by
  cases htokens : Condition.tokens source with
  | error err =>
    rw [parse, htokens]
    constructor
    all_goals
      rintro ⟨⟩
      rfl
  | ok tokens =>
    rw [parse_of_tokens htokens, map_eq_error_iff]
    exact iff_of_false (keepsReferences_parseTokens tokens _ offset word) (by simp)

-- A text is a path where it is names with points between them. The path is those names, and has the
-- text. A path in a condition is what the word at its place reads as, and no reference that was
-- taken for a token is found wrong by the parser. A path is one token, unless it is reserved.
theorem references_exact :
    (∀ (t : String) (p : VarPath), VarPath.ofText? t = some p ↔
      VarPath.Names t.toList (p.root :: p.fields)) ∧
    (∀ t : String, (∃ p, VarPath.ofText? t = some p) ↔ ∃ names, VarPath.Names t.toList names) ∧
    (∀ (t : String) (p : VarPath), VarPath.ofText? t = some p →
      p.text = t ∧ p.root.toList = t.toList.takeWhile (· ≠ '.')) ∧
    (∀ p : VarPath, VarPath.ofText? p.text = some p) ∧
    (∀ source tokens offset p, Condition.tokens source = .ok tokens → (.path p, offset) ∈ tokens →
      VarPath.ofText? (wordAt source offset) = some p) ∧
    (∀ source offset word, parse source = .error ⟨offset, .invalidReference word⟩ ↔
      Condition.tokens source = .error ⟨offset, .invalidReference word⟩) ∧
    ∀ p : VarPath, Condition.tokens p.text = .ok [(.path p, 0)] ↔ p.text ∉ reserved := by
  refine ⟨fun _ _ => VarPath.ofText?_eq_some_iff_names, fun _ => VarPath.exists_ofText?_iff,
    fun t p h => ⟨VarPath.ofText?_eq_some_iff.mp h, ?_⟩, VarPath.ofText?_text,
    fun source tokens offset p htokens hmem => ?_, fun _ _ _ => parse_invalidReference_iff,
    tokens_text_iff⟩
  · exact (VarPath.ofText?_eq_some_iff_names.mp h).takeWhile
  · rw [(wordAt_of_mem htokens hmem).1, p.ofText?_text]

def authorEmail : VarPath := ⟨"author", ["email"], by decide⟩

theorem references_exact_authorEmail :
    VarPath.ofText? "author.email" = some authorEmail ∧ authorEmail.text = "author.email" ∧
    authorEmail.root.toList = "author.email".toList.takeWhile (· ≠ '.') ∧
    Condition.tokens "not author.email" = .ok [(.not, 0), (.path authorEmail, 4)] ∧
    VarPath.ofText? (wordAt "not author.email" 4) = some authorEmail := by
  have hread : VarPath.ofText? "author.email" = some authorEmail := by decide +kernel
  have htokens : Condition.tokens "not author.email" =
      .ok [(.not, 0), (.path authorEmail, 4)] := by cbv
  obtain ⟨-, -, hparts, -, hwords, -⟩ := references_exact
  obtain ⟨htext, hroot⟩ := hparts _ _ hread
  exact ⟨hread, htext, hroot, htokens, hwords _ _ 4 _ htokens (by simp)⟩

end Parser

end Skeleton.Condition
