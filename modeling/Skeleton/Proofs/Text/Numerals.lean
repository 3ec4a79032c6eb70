import Mathlib
import Skeleton.Text.Digits

-- Numerals read back as the numbers that they were written for.

namespace Skeleton.Text

section Digits

variable {base fuel n k : Nat}

theorem digitValue?_digitChar (hbase : base ≤ 16) (h : k < base) :
    digitValue? base (Nat.digitChar k) = some k := by
  have hvalue : ∀ k : Fin 16, digitValue? 16 (Nat.digitChar k) = some k.val := by decide
  have hk := hvalue ⟨k, h.trans_le hbase⟩
  simp only [digitValue?, Option.filter_eq_some_iff, decide_eq_true_eq] at hk ⊢
  exact ⟨hk.1, h⟩

theorem isDigit_digitChar (h : k < 10) : isDigit (Nat.digitChar k) = true :=
  have hdigit : ∀ k : Fin 10, isDigit (Nat.digitChar k) = true := by decide
  hdigit ⟨k, h⟩

theorem readDigits?_append (base a : Nat) (cs ds : List Char) :
    readDigits? base a (cs ++ ds) = (readDigits? base a cs).bind (readDigits? base · ds) := by
  induction cs generalizing a with
  | nil => rfl
  | cons c cs ih =>
    rw [List.cons_append, readDigits?, readDigits?, Option.bind_assoc]
    exact Option.bind_congr fun v _ => ih _

theorem readDigits?_zeros (hbase : 0 < base) (a k : Nat) :
    readDigits? base a (List.replicate k '0') = some (a * base ^ k) := by
  have hzero : digitValue? base '0' = some 0 := by simpa [digitValue?] using hbase
  induction k generalizing a with
  | zero => simp [readDigits?]
  | succ k ih =>
    rw [List.replicate_succ, readDigits?, hzero, Option.bind_some, ih, Nat.add_zero, Nat.mul_assoc,
      Nat.pow_succ, Nat.mul_comm base]

-- Enough fuel gives all digits, in front of those that are there.
theorem exists_digitsInto (hbase : 2 ≤ base) (hmax : base ≤ 16) (h : n < 2 ^ fuel)
    (hfuel : 0 < fuel) (acc : List Char) : ∃ ds, digitsInto base fuel n acc = ds ++ acc ∧ ds ≠ [] ∧
      (∀ c ∈ ds, ∃ k < base, c = Nat.digitChar k) ∧ readDigits? base 0 ds = some n := by
  induction fuel generalizing n acc with
  | zero => cases hfuel
  | succ fuel ih =>
    have hlast : n % base < base := Nat.mod_lt _ (by omega)
    rw [digitsInto]
    split
    · rename_i hquot
      have hsmall : n % base = n :=
        Nat.mod_eq_of_lt ((Nat.div_eq_zero_iff.mp hquot).resolve_left (by omega))
      refine ⟨[Nat.digitChar (n % base)], rfl, List.cons_ne_nil _ _,
        by simpa using ⟨_, hlast, rfl⟩, ?_⟩
      rw [hsmall] at hlast ⊢
      simp [readDigits?, digitValue?_digitChar hmax hlast]
    · rename_i hquot
      have hless : n / base < 2 ^ fuel := by
        have hhalf : n / base ≤ n / 2 := Nat.div_le_div_left hbase (by omega)
        rw [Nat.pow_succ] at h
        omega
      have hfuel : 0 < fuel := by
        rcases Nat.eq_zero_or_pos fuel with rfl | hpos
        · simp at hless
          exact absurd (Nat.div_eq_zero_iff.mpr (by omega)) hquot
        · exact hpos
      obtain ⟨ds, hds, -, hdigits, hread⟩ := ih hless hfuel (Nat.digitChar (n % base) :: acc)
      refine ⟨ds ++ [Nat.digitChar (n % base)], by simp [hds], by simp, ?_, ?_⟩
      · simp only [List.mem_append, List.mem_singleton]
        rintro c (hc | rfl)
        · exact hdigits c hc
        · exact ⟨_, hlast, rfl⟩
      · rw [readDigits?_append, hread, Option.bind_some, readDigits?,
          digitValue?_digitChar hmax hlast, Option.bind_some, readDigits?, Nat.div_add_mod']

theorem exists_natDigits (hbase : 2 ≤ base) (hmax : base ≤ 16) (n : Nat) :
    natDigits base n ≠ [] ∧ (∀ c ∈ natDigits base n, ∃ k < base, c = Nat.digitChar k) ∧
      readDigits? base 0 (natDigits base n) = some n := by
  obtain ⟨ds, hds, hne, hdigits, hread⟩ :=
    exists_digitsInto hbase hmax (n := n) Nat.lt_log2_self (Nat.succ_pos _) []
  rw [natDigits, hds, List.append_nil]
  exact ⟨hne, hdigits, hread⟩

-- A numeral is read as its number.
theorem readDigits?_natDigits (hbase : 2 ≤ base) (hmax : base ≤ 16) (n : Nat) :
    readDigits? base 0 (natDigits base n) = some n :=
  (exists_natDigits hbase hmax n).2.2

theorem digitsInto_append (base fuel n : Nat) (acc : List Char) :
    digitsInto base fuel n acc = digitsInto base fuel n [] ++ acc := by
  induction fuel generalizing n acc with
  | zero => rfl
  | succ fuel ih =>
    simp only [digitsInto]
    split
    · rfl
    · rw [ih, ih _ [_], List.append_assoc, List.singleton_append]

-- More fuel than enough changes nothing.
theorem digitsInto_eq_natDigits (hbase : 2 ≤ base) (h : n < 2 ^ (fuel + 1)) :
    digitsInto base (fuel + 1) n [] = natDigits base n := by
  have hagree : ∀ f g m, m < 2 ^ (f + 1) → m < 2 ^ (g + 1) →
      digitsInto base (f + 1) m [] = digitsInto base (g + 1) m [] := by
    intro f
    induction f with
    | zero =>
      intro g m hf _
      have hquot : m / base = 0 := Nat.div_eq_of_lt (by omega)
      simp [digitsInto, hquot]
    | succ f ih =>
      intro g m hf hg
      by_cases hquot : m / base = 0
      · simp [digitsInto, hquot]
      have hhalf : m / base ≤ m / 2 := Nat.div_le_div_left hbase (by omega)
      obtain ⟨g, rfl⟩ : ∃ g', g = g' + 1 := by
        refine ⟨g - 1, (Nat.succ_pred_eq_of_ne_zero fun hzero => hquot ?_).symm⟩
        subst hzero
        exact Nat.div_eq_of_lt (by omega)
      rw [Nat.pow_succ] at hf hg
      rw [digitsInto, if_neg hquot, digitsInto_append, ih g (m / base) (by omega) (by omega),
        ← digitsInto_append]
      exact (if_neg hquot).symm
  exact hagree fuel n.log2 n h Nat.lt_log2_self

theorem natDigits_of_lt (h : n < base) : natDigits base n = [Nat.digitChar n] := by
  rw [natDigits, digitsInto, if_pos (Nat.div_eq_of_lt h), Nat.mod_eq_of_lt h]

-- One more digit behind a number.
theorem natDigits_mul_add (hbase : 2 ≤ base) (hn : 0 < n) (hk : k < base) :
    natDigits base (n * base + k) = natDigits base n ++ [Nat.digitChar k] := by
  have hquot : (n * base + k) / base = n := by
    rw [Nat.mul_comm, Nat.mul_add_div (by omega), Nat.div_eq_of_lt hk, Nat.add_zero]
  have hmod : (n * base + k) % base = k := by
    rw [Nat.mul_comm, Nat.mul_add_mod, Nat.mod_eq_of_lt hk]
  have hgrow : n < n * base + k := by nlinarith
  have hfuel : (n * base + k).log2 = ((n * base + k).log2 - 1) + 1 := by
    have hne : (n * base + k).log2 ≠ 0 := by
      rw [Nat.log2_eq_log_two]
      exact (Nat.log_pos (by decide) (by nlinarith)).ne'
    omega
  have hless : n < 2 ^ ((n * base + k).log2 - 1 + 1) := by
    have hall := Nat.lt_log2_self (n := n * base + k)
    rw [← hfuel]
    rw [Nat.pow_succ] at hall
    nlinarith
  rw [natDigits, digitsInto, hquot, hmod, if_neg hn.ne', digitsInto_append, hfuel,
    digitsInto_eq_natDigits hbase hless]

theorem length_natDigits_le (hbase : 2 ≤ base) {width : Nat} (h : n < base ^ (width + 1)) :
    (natDigits base n).length ≤ width + 1 := by
  induction width generalizing n with
  | zero =>
    rw [natDigits_of_lt (by simpa using h)]
    rfl
  | succ width ih =>
    have hlast : n % base < base := Nat.mod_lt _ (by omega)
    rcases Nat.eq_zero_or_pos (n / base) with hquot | hquot
    · have hsmall := (Nat.div_eq_zero_iff.mp hquot).resolve_left (by omega)
      rw [natDigits_of_lt hsmall]
      exact Nat.succ_le_succ (Nat.zero_le _)
    · have hless : n / base < base ^ (width + 1) := by
        rw [Nat.div_lt_iff_lt_mul (by omega), ← Nat.pow_succ]
        exact h
      rw [← Nat.div_add_mod' n base, natDigits_mul_add hbase hquot hlast, List.length_append]
      exact Nat.succ_le_succ (ih hless)

-- Hexadecimal digits count in either case.
theorem readDigits?_map_toUpper {a : Nat} {ds : List Char}
    (hds : ∀ c ∈ ds, ∃ k < 16, c = Nat.digitChar k) :
    readDigits? 16 a (ds.map Char.toUpper) = readDigits? 16 a ds := by
  have hupper : ∀ k : Fin 16, digitValue? 16 (Nat.digitChar k).toUpper =
      digitValue? 16 (Nat.digitChar k) := by decide
  induction ds generalizing a with
  | nil => rfl
  | cons c ds ih =>
    obtain ⟨⟨k, hk, rfl⟩, hrest⟩ := List.forall_mem_cons.mp hds
    rw [List.map_cons, readDigits?, readDigits?, hupper ⟨k, hk⟩]
    exact Option.bind_congr fun v _ => ih hrest

end Digits

section Decimals

theorem natDigits_ne_nil (n : Nat) : natDigits 10 n ≠ [] :=
  (exists_natDigits (by decide) (by decide) n).1

theorem isDigit_of_mem_natDigits {n : Nat} {c : Char} (h : c ∈ natDigits 10 n) :
    isDigit c = true := by
  obtain ⟨k, hk, rfl⟩ := (exists_natDigits (by decide) (by decide) n).2.1 c h
  exact isDigit_digitChar hk

theorem readNat?_natDigits (n : Nat) : readNat? 10 (natDigits 10 n) = some n := by
  rw [readNat?, if_neg (by simp [natDigits_ne_nil]), readDigits?_natDigits (by decide) (by decide)]

theorem readInt?_of_isDigit {c : Char} {cs : List Char} (h : isDigit c = true) :
    readInt? 10 (c :: cs) = (readNat? 10 (c :: cs)).map Int.ofNat := by
  unfold readInt?
  split
  · rename_i heq
    obtain rfl := (List.cons.inj heq).1
    exact absurd h (by decide)
  · rename_i heq
    obtain rfl := (List.cons.inj heq).1
    exact absurd h (by decide)
  · rfl

theorem digit_of_isDigit {c : Char} (h : isDigit c = true) :
    ∃ k < 10, c = Nat.digitChar k := by
  have hrange : 48 ≤ c.toNat ∧ c.toNat ≤ 57 := by
    simpa [isDigit, Char.le_def, UInt32.le_iff_toNat_le] using h
  have hchar : ∀ k : Fin 10, Nat.digitChar k = Char.ofNat (48 + k) := by decide
  refine ⟨c.toNat - 48, by omega, ?_⟩
  rw [hchar ⟨c.toNat - 48, by omega⟩]
  simp only [Nat.add_sub_cancel' hrange.1, Char.ofNat_toNat]

theorem eq_digitChar_of_digitValue? {base v : Nat} {c : Char} (hbase : base ≤ 10)
    (h : digitValue? base c = some v) : v < base ∧ c = Nat.digitChar v := by
  simp only [digitValue?, Option.filter_eq_some_iff, decide_eq_true_eq] at h
  obtain ⟨hvalue, hless⟩ := h
  refine ⟨hless, ?_⟩
  split at hvalue
  · rename_i hrange
    obtain rfl := Option.some.inj hvalue
    simp only [Bool.and_eq_true, decide_eq_true_eq] at hrange
    have hdigit : isDigit c = true := by
      simpa [isDigit, Char.le_def, UInt32.le_iff_toNat_le] using hrange
    obtain ⟨k, hk, rfl⟩ := digit_of_isDigit hdigit
    have hall : ∀ k : Fin 10, (Nat.digitChar k).toNat - 0x30 = k := by decide
    rw [hall ⟨k, hk⟩]
  -- letters are no digits of such a base
  · split at hvalue
    · obtain rfl := Option.some.inj hvalue
      omega
    · split at hvalue
      · obtain rfl := Option.some.inj hvalue
        omega
      · cases hvalue

theorem isDigit_of_readDigits? {base a n : Nat} {cs : List Char} (hbase : base ≤ 10)
    (h : readDigits? base a cs = some n) : ∀ c ∈ cs, isDigit c = true := by
  induction cs generalizing a with
  | nil => exact List.forall_mem_nil _
  | cons c cs ih =>
    obtain ⟨v, hv, hrest⟩ := Option.bind_eq_some_iff.mp h
    obtain ⟨hless, rfl⟩ := eq_digitChar_of_digitValue? hbase hv
    exact List.forall_mem_cons.mpr ⟨isDigit_digitChar (hless.trans_le hbase), ih hrest⟩

theorem readNat?_eq_some_iff {base n : Nat} {cs : List Char} :
    readNat? base cs = some n ↔ cs ≠ [] ∧ readDigits? base 0 cs = some n := by
  rw [readNat?]
  split
  · rename_i h
    simp [List.isEmpty_iff.mp h]
  · rename_i h
    simp [List.isEmpty_iff] at h
    simp [h]

-- Octal digits are decimal digits, and denote less than a square in base ten.
theorem readDecimal_of_readOctal {a b v : Nat} {cs : List Char} (hab : b ≤ a * a + a)
    (h : readDigits? 8 a cs = some v) : ∃ n, readDigits? 10 b cs = some n ∧ n ≤ v * v + v := by
  induction cs generalizing a b with
  | nil =>
    obtain rfl := Option.some.inj h
    exact ⟨b, rfl, hab⟩
  | cons c cs ih =>
    obtain ⟨k, hk, hrest⟩ := Option.bind_eq_some_iff.mp h
    obtain ⟨hless, rfl⟩ := eq_digitChar_of_digitValue? (by decide) hk
    have hgrow : b * 10 + k ≤ (a * 8 + k) * (a * 8 + k) + (a * 8 + k) := by
      nlinarith [Nat.le_mul_self a, Nat.zero_le (a * k), Nat.zero_le (k * k)]
    obtain ⟨n, hn, hle⟩ := ih hgrow hrest
    refine ⟨n, ?_, hle⟩
    rw [readDigits?, digitValue?_digitChar (by decide) (hless.trans (by decide)),
      Option.bind_some, hn]

-- Digits without a zero in front are the numeral of their number.
theorem natDigits_of_readDigits? {cs : List Char} {n : Nat} (hne : cs ≠ [])
    (hdigits : ∀ c ∈ cs, isDigit c = true) (hhead : cs.head? ≠ some '0')
    (h : readDigits? 10 0 cs = some n) : natDigits 10 n = cs := by
  induction cs using List.reverseRecOn generalizing n with
  | nil => exact absurd rfl hne
  | append_singleton front c ih =>
    obtain ⟨k, hk, rfl⟩ := digit_of_isDigit (hdigits c (by simp))
    rw [readDigits?_append] at h
    obtain ⟨m, hm, h⟩ := Option.bind_eq_some_iff.mp h
    rw [readDigits?, digitValue?_digitChar (by decide) hk, Option.bind_some, readDigits?] at h
    obtain rfl := Option.some.inj h
    rcases eq_or_ne front [] with rfl | hfront
    · obtain rfl := Option.some.inj hm
      rw [Nat.zero_mul, Nat.zero_add, natDigits_of_lt hk, List.nil_append]
    · obtain ⟨d, rest, rfl⟩ := List.exists_cons_of_ne_nil hfront
      have hdigitsFront : ∀ c ∈ d :: rest, isDigit c = true := fun c hc =>
        hdigits c (List.mem_append_left _ hc)
      have hfront := ih hfront hdigitsFront hhead hm
      have hpos : 0 < m := by
        refine Nat.pos_of_ne_zero fun hzero => hhead ?_
        rw [hzero, natDigits_of_lt (by decide)] at hfront
        rw [List.cons_append, List.head?_cons, ← (List.cons.inj hfront).1]
        rfl
      rw [natDigits_mul_add (by decide) hpos hk, hfront]

theorem head?_natDigits {n : Nat} (h : 0 < n) : (natDigits 10 n).head? ≠ some '0' := by
  induction n using Nat.strongRecOn with
  | ind n ih =>
    rcases Nat.lt_or_ge n 10 with hless | hmore
    · rw [natDigits_of_lt hless]
      interval_cases n <;> decide
    · have hfront := ih (n / 10) (by omega) (by omega)
      obtain ⟨c, cs, hcs⟩ := List.exists_cons_of_ne_nil (natDigits_ne_nil (n / 10))
      rw [← Nat.div_add_mod' n 10, natDigits_mul_add (by decide) (by omega) (by omega), hcs]
      rwa [hcs] at hfront

-- A decimal numeral of more than one digit denotes less in base eight, if it denotes anything there.
theorem reread_octal {n m : Nat} (h : readDigits? 8 0 (natDigits 10 n) = some m) :
    m ≤ n ∧ (m = n ↔ n < 8) := by
  have hdigit {k : Nat} (hk : k < 10) : digitValue? 8 (Nat.digitChar k) =
      if k < 8 then some k else none := by
    have hall : ∀ k : Fin 10, digitValue? 8 (Nat.digitChar k) =
        if k.val < 8 then some k.val else none := by decide
    exact hall ⟨k, hk⟩
  induction n using Nat.strong_induction_on generalizing m with
  | h n ih =>
    rcases Nat.lt_or_ge n 10 with hsmall | hlarge
    · rw [natDigits_of_lt hsmall, readDigits?, hdigit hsmall] at h
      split at h
      · obtain rfl := Option.some.inj h
        omega
      · cases h
    · have hlast : n % 10 < 10 := Nat.mod_lt _ (by decide)
      have hsplit : natDigits 10 n = natDigits 10 (n / 10) ++ [Nat.digitChar (n % 10)] := by
        rw [← natDigits_mul_add (by decide) (Nat.div_pos hlarge (by decide)) hlast,
          Nat.div_add_mod']
      rw [hsplit, readDigits?_append] at h
      obtain ⟨q, hq, h⟩ := Option.bind_eq_some_iff.mp h
      rw [readDigits?, hdigit hlast] at h
      split at h
      · obtain rfl := Option.some.inj h
        have hless := (ih (n / 10) (by omega) hq).1
        omega
      · cases h

theorem toList_decimalInt (n : Int) : (decimalInt n).toList =
    (if n < 0 then ['-'] else []) ++ natDigits 10 n.natAbs := by
  rw [decimalInt]
  split <;> simp [decimal]

theorem mem_decimalInt {n : Int} {c : Char} (h : c ∈ (decimalInt n).toList) :
    c = '-' ∨ isDigit c = true := by
  rw [toList_decimalInt, List.mem_append] at h
  rcases h with h | h
  · refine .inl ?_
    split at h
    · exact List.mem_singleton.mp h
    · cases h
  · exact .inr (isDigit_of_mem_natDigits h)

theorem decimalInt_ne_empty (n : Int) : (decimalInt n).toList ≠ [] := by
  rw [toList_decimalInt]
  exact List.append_ne_nil_of_right_ne_nil _ (natDigits_ne_nil _)

theorem readInt?_decimalInt (n : Int) : readInt? 10 (decimalInt n).toList = some n := by
  rw [toList_decimalInt]
  split
  · rw [List.singleton_append, readInt?, readNat?_natDigits]
    change some (-(n.natAbs : Int)) = some n
    congr 1
    omega
  · obtain ⟨c, cs, hcs⟩ := List.exists_cons_of_ne_nil (natDigits_ne_nil n.natAbs)
    have hc : isDigit c = true := isDigit_of_mem_natDigits (hcs ▸ List.mem_cons_self)
    rw [List.nil_append, hcs, readInt?_of_isDigit hc, ← hcs, readNat?_natDigits, Option.map_some]
    congr 1
    exact Int.natAbs_of_nonneg (by omega)

-- Different integers have different numerals.
theorem decimalInt_injective : Function.Injective decimalInt := by
  intro m n h
  exact Option.some.inj ((readInt?_decimalInt m).symm.trans (h ▸ readInt?_decimalInt n))

end Decimals

end Skeleton.Text
