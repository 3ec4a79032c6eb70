import Skeleton.Proofs.Condition.Parsing
import Skeleton.Proofs.VarPath

-- Texts of tokens behind one another. A text keeps its tokens in front of what does not belong to
-- its last token, and without the blanks around it.

namespace Skeleton.Condition

section Lexing

variable {c quote : Char} {cs rest ds : List Char} {n : Nat}

-- What may stand behind a text without changing its last token.
def Stops (ds : List Char) : Prop :=
  ∀ d ∈ ds.head?, isWordChar d = false ∧ d ≠ '=' ∧ d ≠ '&' ∧ d ≠ '|'

def Unquoted (ds : List Char) : Prop := ∀ d ∈ ds, d ≠ '\'' ∧ d ≠ '"'

theorem head?_append_eq_iff (rest : List Char) {d : Char} (h : ∀ x ∈ ds.head?, x ≠ d) :
    (rest ++ ds).head? = some d ↔ rest.head? = some d := by
  cases rest with
  | nil => simpa using fun hhead => h d hhead rfl
  | cons c rest => rfl

theorem stringBody_eq_none (h : quote ∉ cs) : stringBody quote cs = none := by
  fun_induction stringBody quote cs <;> simp_all

-- A string that is closed ends where it is closed, and no string is closed without a quote.
theorem stringBody_append (hquote : quote ≠ '\\')
    (h : (stringBody quote cs).isSome ∨ quote ∉ ds) :
    stringBody quote (cs ++ ds) = stringBody quote cs := by
  fun_induction stringBody quote cs with
  | case1 => exact stringBody_eq_none (by simpa using h)
  | case2 => cases ds <;> simp [stringBody, hquote]
  | case3 c hne =>
    have hds : quote ∉ ds := by simpa using h
    exact stringBody_eq_none (by simpa [Ne.symm hne] using hds)
  | case4 d rest ih => simp [stringBody, ih (by simpa using h)]
  | case5 d rest => simp [stringBody, hquote]
  | case6 c d rest hslash hne ih =>
    have hinner := ih (by simpa using h)
    rw [List.cons_append] at hinner
    simp [stringBody, hslash, hne, hinner]

theorem length_le_of_stringBody {text : List Char} (h : stringBody quote cs = some (text, n)) :
    n ≤ cs.length := by
  fun_induction stringBody quote cs generalizing text n with
  | case1 => cases h
  | case2 => cases h; simp
  | case3 => cases h
  | case4 d rest ih =>
    obtain ⟨⟨_, m⟩, hinner, heq⟩ := Option.map_eq_some_iff.mp h
    cases heq
    have hm := ih hinner
    simp only [List.length_cons]
    omega
  | case5 => cases h; simp
  | case6 c d rest hslash hne ih =>
    obtain ⟨⟨_, m⟩, hinner, heq⟩ := Option.map_eq_some_iff.mp h
    cases heq
    have hm := ih hinner
    simp only [List.length_cons] at hm ⊢
    omega

theorem Stops.not_word (h : Stops ds) : ∀ d ∈ ds.head?, isWordChar d = false :=
  fun d hd => (h d hd).1

theorem Stops.not_digit (h : Stops ds) : ∀ d ∈ ds.head?, Text.isDigit d = false := by
  intro d hd
  have hword := h.not_word d hd
  simp only [isWordChar, Text.isLetterOrDigit, Bool.or_eq_false_iff] at hword
  exact hword.1.1.2

theorem Stops.not_point (h : Stops ds) : ∀ d ∈ ds.head?, d ≠ '.' := by
  intro d hd
  have hword := h.not_word d hd
  simp only [isWordChar, Bool.or_eq_false_iff] at hword
  simpa using hword.2

theorem fractionPart_append (h : Stops ds) : fractionPart (cs ++ ds) = fractionPart cs := by
  cases cs with
  | nil =>
    cases ds with
    | nil => rfl
    | cons d ds =>
      have hpoint := h.not_point d rfl
      simp [fractionPart, hpoint]
  | cons c cs =>
    by_cases hc : c = '.'
    · subst hc
      simp only [List.cons_append, fractionPart, takeWhile_append_of_head? h.not_digit]
    · simp [fractionPart, hc]

theorem lexNumber_append (h : Stops ds) : lexNumber c (rest ++ ds) = lexNumber c rest := by
  unfold lexNumber
  rw [takeWhile_append_of_head? h.not_digit, dropWhile_append_of_head? h.not_digit,
    fractionPart_append h]

theorem lexWord_append (h : Stops ds) : lexWord c (rest ++ ds) = lexWord c rest := by
  unfold lexWord
  rw [takeWhile_append_of_head? h.not_word]

theorem lexToken_of_quote (hc : c = '\'' ∨ c = '"') :
    lexToken c rest =
      match stringBody c rest with
      | some (text, n) => .ok (.string (String.ofList text), n)
      | none => .error .unterminatedString := by
  obtain rfl | rfl := hc <;> rfl

theorem lexToken_append (h : Stops ds) (hquote : (lexToken c rest).isOk ∨ Unquoted ds) :
    lexToken c (rest ++ ds) = lexToken c rest := by
  by_cases hc : c = '\'' ∨ c = '"'
  · have hslash : c ≠ '\\' := by obtain rfl | rfl := hc <;> decide
    have hbody : stringBody c (rest ++ ds) = stringBody c rest := by
      apply stringBody_append hslash
      obtain hok | hds := hquote
      · rw [lexToken_of_quote hc] at hok
        cases hbody : stringBody c rest with
        | some body => exact .inl rfl
        | none => rw [hbody] at hok; cases hok
      · exact .inr fun hmem => hc.elim (hds c hmem).1 (hds c hmem).2
    rw [lexToken_of_quote hc, lexToken_of_quote hc, hbody]
  · have heq := head?_append_eq_iff rest fun x hx => (h x hx).2.1
    have hand := head?_append_eq_iff rest fun x hx => (h x hx).2.2.1
    have hor := head?_append_eq_iff rest fun x hx => (h x hx).2.2.2
    have hdigit : (rest ++ ds).head?.any Text.isDigit = rest.head?.any Text.isDigit := by
      cases rest with
      | nil => cases hds : ds.head? <;> simp [hds, h.not_digit]
      | cons c rest => rfl
    simp only [lexToken, heq, hand, hor, hdigit, lexNumber_append h, lexWord_append h, if_neg hc]

theorem length_fractionPart_le (cs : List Char) : (fractionPart cs).length ≤ cs.length := by
  unfold fractionPart
  split
  · rename_i rest
    have hdigits := (List.takeWhile_prefix Text.isDigit (l := rest)).length_le
    dsimp only
    split <;> simp [hdigits]
  · simp

theorem length_le_of_lexNumber {t : Token} (h : lexNumber c rest = .ok (t, n)) :
    n ≤ rest.length := by
  have hfraction := length_fractionPart_le (rest.dropWhile Text.isDigit)
  have hlength : (rest.takeWhile Text.isDigit).length + (rest.dropWhile Text.isDigit).length =
      rest.length := by
    rw [← List.length_append, List.takeWhile_append_dropWhile]
  unfold lexNumber at h
  dsimp only at h
  split at h
  · cases h
    rw [List.length_append]
    omega
  · cases h

theorem length_le_of_lexWord {t : Token} (h : lexWord c rest = .ok (t, n)) : n ≤ rest.length := by
  have htail := (List.takeWhile_prefix isWordChar (l := rest)).length_le
  unfold lexWord at h
  dsimp only at h
  split at h
  · cases h
    exact htail
  · split at h
    · cases h
      exact htail
    · cases h

theorem length_le_of_lexToken {t : Token} (h : lexToken c rest = .ok (t, n)) :
    n ≤ rest.length := by
  have hpair {p : Prop} {d : Char} (hd : p ∧ rest.head? = some d) : 1 ≤ rest.length :=
    List.length_pos_of_mem (List.mem_of_head? hd.2)
  by_cases hc : c = '\'' ∨ c = '"'
  · rw [lexToken_of_quote hc] at h
    split at h
    · rename_i hbody
      cases h
      exact length_le_of_stringBody hbody
    · cases h
  · simp only [lexToken, if_neg hc] at h
    split_ifs at h with hleft hright heq hne hnot hand hor hnumber hword
    · cases h; exact Nat.zero_le _
    · cases h; exact Nat.zero_le _
    · cases h; exact hpair heq
    · cases h; exact hpair hne
    · cases h; exact Nat.zero_le _
    · cases h; exact hpair hand
    · cases h; exact hpair hor
    · exact length_le_of_lexNumber h
    · exact length_le_of_lexWord h

-- The tokens of a text come before those of what stands behind it.
theorem tokensFrom_append {offset : Nat} (h : Stops ds)
    (hquote : (tokensFrom offset cs).isOk ∨ Unquoted ds) :
    tokensFrom offset (cs ++ ds) = (do
      let ts ← tokensFrom offset cs
      let us ← tokensFrom (offset + cs.length) ds
      .ok (ts ++ us)) := by
  fun_induction tokensFrom offset cs with
  | case1 offset =>
    rw [List.nil_append]
    cases tokensFrom offset ds <;> rfl
  | case2 offset c rest hblank ih =>
    rw [List.cons_append, tokensFrom, if_pos hblank, ih hquote, List.length_cons,
      Nat.add_right_comm, Nat.add_assoc]
  | case3 offset c rest hblank fault htoken =>
    have hunquoted : Unquoted ds := hquote.resolve_left Bool.false_ne_true
    have hsame : lexToken c (rest ++ ds) = lexToken c rest := lexToken_append h (.inr hunquoted)
    rw [List.cons_append, tokensFrom, if_neg hblank, hsame, htoken]
    rfl
  | case4 offset c rest hblank t n htoken err herror ih =>
    have hunquoted : Unquoted ds := hquote.resolve_left Bool.false_ne_true
    have hsame : lexToken c (rest ++ ds) = lexToken c rest := lexToken_append h (.inr hunquoted)
    rw [List.cons_append, tokensFrom_cons (by simpa using hblank) (hsame.trans htoken),
      List.drop_append_of_le_length (length_le_of_lexToken htoken), ih (.inr hunquoted), herror]
    rfl
  | case5 offset c rest hblank t n htoken tokens hrest ih =>
    have hsame : lexToken c (rest ++ ds) = lexToken c rest :=
      lexToken_append h (.inl (by rw [htoken]; rfl))
    have hn := length_le_of_lexToken htoken
    have hlength : offset + n + 1 + (rest.drop n).length = offset + (c :: rest).length := by
      rw [List.length_drop, List.length_cons]
      omega
    rw [List.cons_append, tokensFrom_cons (by simpa using hblank) (hsame.trans htoken),
      List.drop_append_of_le_length hn, ih (.inl (by rw [hrest]; rfl)), hrest, hlength]
    cases tokensFrom (offset + (c :: rest).length) ds <;> rfl

end Lexing

section Spells

variable {c : Char} {cs ds front : List Char} {t : Token} {ts us : List Token} {offset n : Nat}

def Spells (cs : List Char) (ts : List Token) : Prop :=
  ∀ offset, ∃ tokens, tokensFrom offset cs = .ok tokens ∧ tokens.map Prod.fst = ts

theorem spells_nil : Spells [] [] :=
  fun offset => ⟨[], by rw [tokensFrom], rfl⟩

theorem Spells.blank (hblank : Text.isBlank c = true) (h : Spells cs ts) : Spells (c :: cs) ts := by
  intro offset
  rw [tokensFrom, if_pos hblank]
  exact h (offset + 1)

theorem Spells.cons (hblank : Text.isBlank c = false) (htoken : lexToken c cs = .ok (t, n))
    (h : Spells (cs.drop n) ts) : Spells (c :: cs) (t :: ts) := by
  intro offset
  obtain ⟨tokens, htokens, hts⟩ := h (offset + n + 1)
  rw [tokensFrom_cons hblank htoken, htokens]
  exact ⟨(t, offset) :: tokens, rfl, by rw [List.map_cons, hts]⟩

theorem Spells.connective {connective : Connective} (hspelling : connective.Spelling cs front)
    (h : Spells cs ts) : Spells (front ++ cs) (connective.token :: ts) := by
  intro offset
  obtain ⟨tokens, htokens, hts⟩ := h (offset + front.length)
  rw [tokensFrom_spelling hspelling, htokens]
  exact ⟨(connective.token, offset) :: tokens, rfl, by rw [List.map_cons, hts]⟩

-- A connective as a word of its own, between blanks.
theorem Spells.word (connective : Connective) (h : Spells cs ts) :
    Spells (' ' :: (connective.name.toList ++ ' ' :: cs)) (connective.token :: ts) := by
  have hhead : ∀ d ∈ (' ' :: cs).head?, isWordChar d = false := by
    intro d hd
    obtain rfl := Option.some.inj hd
    decide
  have hbehind : Spells (' ' :: cs) ts := h.blank rfl
  exact (hbehind.connective (.name hhead)).blank rfl

theorem Spells.append (h : Spells cs ts) (hstops : Stops ds) (hds : Spells ds us) :
    Spells (cs ++ ds) (ts ++ us) := by
  intro offset
  obtain ⟨tokens, htokens, hts⟩ := h offset
  obtain ⟨behind, hbehind, hus⟩ := hds (offset + cs.length)
  refine ⟨tokens ++ behind, ?_, by rw [List.map_append, hts, hus]⟩
  rw [tokensFrom_append hstops (.inl (by rw [htokens]; rfl)), htokens]
  exact bind_eq_ok_iff.mpr ⟨tokens, rfl, bind_eq_ok_iff.mpr ⟨behind, hbehind, rfl⟩⟩

theorem spells_of_tokensFrom {tokens : List (Token × Nat)} (h : tokensFrom offset cs = .ok tokens) :
    Spells cs (tokens.map Prod.fst) := by
  fun_induction tokensFrom offset cs generalizing tokens with
  | case1 =>
    cases h
    exact spells_nil
  | case2 offset c rest hblank ih => exact (ih h).blank hblank
  | case3 => cases h
  | case4 => cases h
  | case5 offset c rest hblank t n htoken behind hbehind ih =>
    cases h
    exact (ih hbehind).cons (by simpa using hblank) htoken

theorem stops_of_blank {d : Char} (hblank : Text.isBlank d = true) : Stops (d :: ds) := by
  intro _ hd
  obtain rfl := Option.some.inj hd
  have hne {x : Char} (hx : Text.isBlank x = false) : d ≠ x := by
    rintro rfl
    exact absurd hblank (by simp [hx])
  have hletter : Text.isLetterOrDigit d ≠ true := fun hletter =>
    absurd hblank (by simp [not_isBlank_of_isLetterOrDigit hletter])
  refine ⟨?_, hne rfl, hne rfl, hne rfl⟩
  simp [isWordChar, hletter, hne (x := '_') rfl, hne (x := '.') rfl]

theorem unquoted_of_blank (hds : ∀ d ∈ ds, Text.isBlank d = true) : Unquoted ds := by
  refine fun d hd => ⟨?_, ?_⟩
  all_goals
    rintro rfl
    exact absurd (hds _ hd) (by decide)

theorem tokensFrom_blanks (hfront : ∀ c ∈ front, Text.isBlank c = true) :
    tokensFrom offset (front ++ cs) = tokensFrom (offset + front.length) cs := by
  induction front generalizing offset with
  | nil => rfl
  | cons c front ih =>
    rw [List.forall_mem_cons] at hfront
    rw [List.cons_append, tokensFrom, if_pos hfront.1, ih hfront.2, List.length_cons,
      Nat.add_right_comm, Nat.add_assoc]

theorem tokensFrom_append_blanks (hds : ∀ d ∈ ds, Text.isBlank d = true) :
    tokensFrom offset (cs ++ ds) = tokensFrom offset cs := by
  cases ds with
  | nil => rw [List.append_nil]
  | cons d ds =>
    have hblanks : tokensFrom (offset + cs.length) (d :: ds) = .ok [] := by
      rw [← List.append_nil (d :: ds), tokensFrom_blanks hds, tokensFrom]
    rw [tokensFrom_append (stops_of_blank (hds d List.mem_cons_self))
      (.inr (unquoted_of_blank hds)), hblanks]
    cases tokensFrom offset cs <;> simp [bind, Except.bind]

-- Blanks at the ends belong to no token.
theorem Spells.trimBlanks (h : Spells cs ts) : Spells (Text.trimBlanks cs) ts := by
  obtain ⟨front, back, hfront, hback, hcs⟩ := Text.exists_trimBlanks_append cs
  obtain ⟨tokens, htokens, rfl⟩ := h 0
  rw [hcs, tokensFrom_append_blanks hback, tokensFrom_blanks hfront] at htokens
  exact spells_of_tokensFrom htokens

theorem Spells.parentheses (h : Spells cs ts) :
    Spells ('(' :: (cs ++ [')'])) (.leftParen :: (ts ++ [.rightParen])) := by
  have hstops : Stops [')'] := by
    intro d hd
    obtain rfl := Option.some.inj hd
    decide
  have hclosing : Spells [')'] [.rightParen] := spells_nil.cons rfl rfl
  exact (h.append hstops hclosing).cons rfl rfl

end Spells

end Skeleton.Condition
