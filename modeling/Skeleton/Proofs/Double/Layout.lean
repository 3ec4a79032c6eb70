import Skeleton.Double.Reading
import Skeleton.Proofs.Double.Shortest
import Skeleton.Proofs.Text.Numerals
import Skeleton.Proofs.Text.Spans
import Skeleton.Yaml.Data

-- The texts of doubles: which number a text shows, and which doubles have one text.

namespace Skeleton.Double

section Reading

variable {whole fraction rest : List Char} {digits : Nat} {power : Int}

def splitFraction : List Char → List Char × List Char
  | '.' :: rest => (rest.takeWhile Text.isDigit, rest.dropWhile Text.isDigit)
  | rest => ([], rest)

def readDecimal? (cs : List Char) : Option Decimal := do
  let (fraction, rest) := splitFraction (cs.dropWhile Text.isDigit)
  let digits ← Text.readDigits? 10 0 (cs.takeWhile Text.isDigit ++ fraction)
  let power ← readPower? rest
  some ⟨digits, power - fraction.length⟩

theorem splitFraction_of_head? (h : ∀ c ∈ rest.head?, c ≠ '.') :
    splitFraction rest = ([], rest) := by
  unfold splitFraction
  split
  · exact absurd rfl (h '.' rfl)
  · rfl

theorem readDecimal?_point (hwhole : ∀ c ∈ whole, Text.isDigit c = true)
    (hfraction : ∀ c ∈ fraction, Text.isDigit c = true)
    (hrest : ∀ c ∈ rest.head?, Text.isDigit c = false)
    (hdigits : Text.readDigits? 10 0 (whole ++ fraction) = some digits)
    (hpower : readPower? rest = some power) :
    readDecimal? (whole ++ '.' :: (fraction ++ rest)) = some ⟨digits, power - fraction.length⟩ := by
  have hpoint : ∀ c ∈ ('.' :: (fraction ++ rest)).head?, Text.isDigit c = false := by
    simpa using (by decide : Text.isDigit '.' = false)
  simp only [readDecimal?, takeWhile_append_of_all hwhole hpoint,
    dropWhile_append_of_all hwhole hpoint, splitFraction, takeWhile_append_of_all hfraction hrest,
    dropWhile_append_of_all hfraction hrest, hdigits, hpower]
  rfl

theorem readDecimal?_whole (hwhole : ∀ c ∈ whole, Text.isDigit c = true)
    (hrest : ∀ c ∈ rest.head?, Text.isDigit c = false ∧ c ≠ '.')
    (hdigits : Text.readDigits? 10 0 whole = some digits) (hpower : readPower? rest = some power) :
    readDecimal? (whole ++ rest) = some ⟨digits, power⟩ := by
  have hdigit : ∀ c ∈ rest.head?, Text.isDigit c = false := fun c hc => (hrest c hc).1
  simp only [readDecimal?, takeWhile_append_of_all hwhole hdigit,
    dropWhile_append_of_all hwhole hdigit, splitFraction_of_head? fun c hc => (hrest c hc).2,
    List.append_nil, hdigits, hpower]
  simp

theorem readDecimal?_fixed (hwhole : ∀ c ∈ whole, Text.isDigit c = true)
    (hfraction : ∀ c ∈ fraction, Text.isDigit c = true)
    (hdigits : Text.readDigits? 10 0 (whole ++ fraction) = some digits) :
    readDecimal? (whole ++ '.' :: fraction) = some ⟨digits, -fraction.length⟩ := by
  have hrest : ∀ c ∈ ([] : List Char).head?, Text.isDigit c = false := nofun
  have hread := readDecimal?_point hwhole hfraction hrest hdigits rfl
  rwa [List.append_nil, zero_sub] at hread

theorem readDecimal?_integer (hwhole : ∀ c ∈ whole, Text.isDigit c = true)
    (hdigits : Text.readDigits? 10 0 whole = some digits) :
    readDecimal? whole = some ⟨digits, 0⟩ := by
  have hrest : ∀ c ∈ ([] : List Char).head?, Text.isDigit c = false ∧ c ≠ '.' := nofun
  have hread := readDecimal?_whole hwhole hrest hdigits rfl
  rwa [List.append_nil] at hread

end Reading

section Writing

variable {style : Layout}

-- Zeros behind the digits move the point.
theorem value_zeros (digits k : Nat) (point : Int) :
    Decimal.value ⟨digits * 10 ^ k, point⟩ = Decimal.value ⟨digits, point + k⟩ := by
  simp only [Decimal.value]
  rw [zpow_add₀ (by norm_num), zpow_natCast]
  push_cast
  ring

theorem isDigit_of_mem_zeros {k : Nat} {c : Char} (h : c ∈ List.replicate k '0') :
    Text.isDigit c = true := by
  obtain rfl := List.eq_of_mem_replicate h
  decide

section Fixed

variable {digits : List Char} {n : Nat} (hdigits : ∀ c ∈ digits, Text.isDigit c = true)
  (hread : Text.readDigits? 10 0 digits = some n)

include hdigits hread

-- Zeros between the point and the digits.
theorem readDecimal?_zerosBefore (k : Nat) :
    readDecimal? ('0' :: '.' :: (List.replicate k '0' ++ digits)) =
      some ⟨n, -(k + digits.length : Nat)⟩ := by
  have hwhole : ∀ c ∈ ['0'], Text.isDigit c = true := fun c => isDigit_of_mem_zeros (k := 1)
  have hfraction : ∀ c ∈ List.replicate k '0' ++ digits, Text.isDigit c = true :=
    List.forall_mem_append.mpr ⟨fun c => isDigit_of_mem_zeros, hdigits⟩
  have hfront : ['0'] ++ (List.replicate k '0' ++ digits) = List.replicate (k + 1) '0' ++ digits :=
    rfl
  have hzeros : Text.readDigits? 10 0 (['0'] ++ (List.replicate k '0' ++ digits)) = some n := by
    rw [hfront, Text.readDigits?_append, Text.readDigits?_zeros (by decide), Option.bind_some,
      Nat.zero_mul, hread]
  refine (readDecimal?_fixed hwhole hfraction hzeros).trans ?_
  rw [List.length_append, List.length_replicate]

-- Zeros between the digits and the point.
theorem readDecimal?_zerosBehind (k : Nat) (pointZero : Bool) :
    let padded := digits ++ List.replicate k '0'
    ∃ read, readDecimal? (if pointZero then padded ++ ['.', '0'] else padded) = some read ∧
      read.value = Decimal.value ⟨n, k⟩ := by
  have hpadded : ∀ c ∈ digits ++ List.replicate k '0', Text.isDigit c = true :=
    List.forall_mem_append.mpr ⟨hdigits, fun c => isDigit_of_mem_zeros⟩
  have hzeros : Text.readDigits? 10 0 (digits ++ List.replicate k '0') = some (n * 10 ^ k) := by
    rw [Text.readDigits?_append, hread, Option.bind_some, Text.readDigits?_zeros (by decide)]
  cases pointZero with
  | false =>
    refine ⟨_, readDecimal?_integer hpadded hzeros, ?_⟩
    rw [value_zeros, zero_add]
  | true =>
    have hone : Text.readDigits? 10 0 (digits ++ List.replicate k '0' ++ List.replicate 1 '0') =
        some (n * 10 ^ k * 10 ^ 1) := by
      rw [Text.readDigits?_append, hzeros, Option.bind_some, Text.readDigits?_zeros (by decide)]
    refine ⟨_, readDecimal?_fixed hpadded (fun c => isDigit_of_mem_zeros (k := 1)) hone, ?_⟩
    rw [value_zeros, value_zeros, List.length_singleton, neg_add_cancel, zero_add]

-- The point among the digits.
theorem readDecimal?_pointAmong (k : Nat) :
    readDecimal? (digits.take k ++ '.' :: digits.drop k) =
      some ⟨n, -(digits.length - k : Nat)⟩ := by
  have hsplit : Text.readDigits? 10 0 (digits.take k ++ digits.drop k) = some n := by
    rw [List.take_append_drop, hread]
  refine (readDecimal?_fixed (fun c hc => hdigits c (List.mem_of_mem_take hc))
    (fun c hc => hdigits c (List.mem_of_mem_drop hc)) hsplit).trans ?_
  rw [List.length_drop]

theorem readDecimal?_placePoint (point : Int) (pointZero : Bool) :
    ∃ read, readDecimal? (placePoint digits (digits.length + point) pointZero) = some read ∧
      read.value = Decimal.value ⟨n, point⟩ := by
  unfold placePoint
  split
  · refine ⟨_, readDecimal?_zerosBefore hdigits hread _, ?_⟩
    congr 2
    omega
  split
  · obtain ⟨k, rfl⟩ := Int.eq_ofNat_of_zero_le (show 0 ≤ point by omega)
    have hcount : ((digits.length : Int) + (k : Int)).toNat - digits.length = k := by omega
    rw [hcount]
    exact readDecimal?_zerosBehind hdigits hread k pointZero
  · refine ⟨_, readDecimal?_pointAmong hdigits hread _, ?_⟩
    congr 2
    omega

end Fixed

theorem readPower?_decimalInt (power : Int) (exponentPlus : Bool) :
    readPower? ('e' :: ((if 0 ≤ power && exponentPlus then ['+'] else []) ++
      (Text.decimalInt power).toList)) = some power := by
  rw [readPower?, if_pos (.inl rfl)]
  split
  · rename_i hplus
    have hnonneg : 0 ≤ power := of_decide_eq_true (Bool.and_eq_true_iff.mp hplus).1
    rw [Text.toList_decimalInt, if_neg (by omega), List.nil_append, List.singleton_append,
      Text.readInt?, Text.readNat?_natDigits, Option.map_some]
    congr 1
    exact Int.natAbs_of_nonneg hnonneg
  · exact Text.readInt?_decimalInt power

theorem readDecimal?_scientific {digits : List Char} {n : Nat} {point : Int} (exponentPlus : Bool)
    (hdigits : ∀ c ∈ digits, Text.isDigit c = true) (hne : digits ≠ [])
    (hread : Text.readDigits? 10 0 digits = some n) :
    readDecimal? (scientific digits (digits.length + point - 1) exponentPlus) =
      some ⟨n, point⟩ := by
  have hpower := readPower?_decimalInt (digits.length + point - 1) exponentPlus
  obtain ⟨c, fraction, rfl⟩ := List.exists_cons_of_ne_nil hne
  obtain ⟨hc, hfraction⟩ := List.forall_mem_cons.mp hdigits
  have hwhole : ∀ d ∈ [c], Text.isDigit d = true := by simpa using hc
  have hexponent (rest : List Char) :
      ∀ d ∈ ('e' :: rest).head?, Text.isDigit d = false ∧ d ≠ '.' := by
    intro d hd
    obtain rfl := Option.some.inj hd
    decide
  cases fraction with
  | nil =>
    refine (readDecimal?_whole hwhole (hexponent _) hread hpower).trans ?_
    simp
  | cons d fraction =>
    refine (readDecimal?_point hwhole hfraction (fun d hd => (hexponent _ d hd).1) hread
      hpower).trans ?_
    congr 2
    simp only [List.length_cons]
    omega

-- The text of a decimal number shows that number.
theorem readDecimal?_decimal (style : Layout) (d : Decimal) :
    ∃ read, readDecimal? (style.decimal d) = some read ∧ read.value = d.value := by
  have hread : Text.readDigits? 10 0 (Text.natDigits 10 d.digits) = some d.digits :=
    Text.readDigits?_natDigits (by decide) (by decide) d.digits
  have hdigits : ∀ c ∈ Text.natDigits 10 d.digits, Text.isDigit c = true :=
    fun c => Text.isDigit_of_mem_natDigits
  simp only [Layout.decimal]
  split
  · exact readDecimal?_placePoint hdigits hread _ _
  · exact ⟨d, readDecimal?_scientific _ hdigits (Text.natDigits_ne_nil _) hread, rfl⟩

theorem exists_placePoint {digits : List Char} {whole : Int} {pointZero : Bool} (hne : digits ≠ [])
    (hdigits : ∀ c ∈ digits, Text.isDigit c = true) :
    ∃ c rest, placePoint digits whole pointZero = c :: rest ∧ Text.isDigit c = true := by
  obtain ⟨c, rest, rfl⟩ := List.exists_cons_of_ne_nil hne
  have hc := hdigits c List.mem_cons_self
  unfold placePoint
  split
  · exact ⟨'0', _, rfl, by decide⟩
  · rename_i hwhole
    simp only
    split
    · split
      · exact ⟨c, _, rfl, hc⟩
      · exact ⟨c, _, rfl, hc⟩
    · obtain ⟨k, hk⟩ := Nat.exists_eq_succ_of_ne_zero (show whole.toNat ≠ 0 by omega)
      rw [hk]
      exact ⟨c, _, rfl, hc⟩

-- The text of a decimal number starts with a digit.
theorem exists_decimal (style : Layout) (d : Decimal) :
    ∃ c rest, style.decimal d = c :: rest ∧ Text.isDigit c = true := by
  have hne := Text.natDigits_ne_nil d.digits
  have hdigits : ∀ c ∈ Text.natDigits 10 d.digits, Text.isDigit c = true :=
    fun c => Text.isDigit_of_mem_natDigits
  simp only [Layout.decimal]
  split
  · exact exists_placePoint hne hdigits
  · generalize Text.natDigits 10 d.digits = digits at hne hdigits
    obtain ⟨c, rest, rfl⟩ := List.exists_cons_of_ne_nil hne
    exact ⟨c, _, rfl, hdigits c List.mem_cons_self⟩

-- With a point in every number that is written without an exponent, no number looks like an
-- integer.
theorem point_or_exponent_mem_decimal (hpoint : style.pointZero = true) (d : Decimal) :
    '.' ∈ style.decimal d ∨ 'e' ∈ style.decimal d := by
  simp only [Layout.decimal, hpoint]
  split
  · refine .inl ?_
    unfold placePoint
    split
    · simp
    · simp only [if_true]
      split <;> simp
  · exact .inr (by simp [scientific])

end Writing

section Words

variable {style : Layout} {d : Double}

def magnitude (style : Layout) (d : Double) : List Char :=
  if d.isNaN then style.nan.toList
  else if d.isInfinite then style.infinity.toList
  else if d.isZero then if style.pointZero then ['0', '.', '0'] else ['0']
  else style.decimal (d.shortest style.tie)

theorem toList_write (style : Layout) (d : Double) : (style.write d).toList =
    (if !d.isNaN && d.negative then ['-'] else []) ++ magnitude style d := by
  have hsign : (if d.negative then ['-'] else []) = (if d.negative then "-" else "").toList := by
    cases d.negative <;> rfl
  unfold Layout.write magnitude
  cases d.isNaN with
  | true => rfl
  | false =>
    simp only [Bool.false_eq_true, if_false, Bool.not_false, Bool.true_and, hsign]
    split
    · exact String.toList_append
    · split
      · cases style.pointZero <;> exact String.toList_append
      · rw [String.toList_append, String.toList_ofList]

theorem isNaN_of_isFinite (h : d.isFinite = true) : d.isNaN = false := by
  simp_all [isNaN, isFinite]

theorem magnitude_of_isFinite (style : Layout) (h : d.isFinite = true) : magnitude style d =
    if d.isZero then if style.pointZero then ['0', '.', '0'] else ['0']
    else style.decimal (d.shortest style.tie) := by
  have hinfinite : d.isInfinite = false := by simp_all [isInfinite, isFinite]
  simp [magnitude, isNaN_of_isFinite h, hinfinite]

variable {a b : Double}

-- The texts in the layout of documents: words that start with a point, and numbers.
theorem magnitude_cases (d : Double) :
    d.isNaN = true ∧ magnitude Yaml.floatLayout d = ['.', 'n', 'a', 'n'] ∨
      d.isNaN = false ∧ d.isInfinite = true ∧ magnitude Yaml.floatLayout d = ['.', 'i', 'n', 'f'] ∨
      d.isFinite = true ∧
        ∃ c rest, magnitude Yaml.floatLayout d = c :: rest ∧ Text.isDigit c = true := by
  cases hnan : d.isNaN with
  | true => exact .inl ⟨rfl, by simp [magnitude, hnan, Yaml.floatLayout]⟩
  | false =>
    cases hinfinite : d.isInfinite with
    | true => exact .inr (.inl ⟨rfl, rfl, by simp [magnitude, hnan, hinfinite, Yaml.floatLayout]⟩)
    | false =>
      have hfinite : d.isFinite = true := by
        simp_all [isNaN, isInfinite, isFinite]
      refine .inr (.inr ⟨hfinite, ?_⟩)
      rw [magnitude_of_isFinite _ hfinite]
      split
      · exact ⟨'0', ['.', '0'], rfl, by decide⟩
      · exact exists_decimal _ _

theorem head_magnitude (d : Double) : ∃ c rest, magnitude Yaml.floatLayout d = c :: rest ∧
    (c = '.' ∨ Text.isDigit c = true) := by
  rcases magnitude_cases d with ⟨-, h⟩ | ⟨-, -, h⟩ | ⟨-, c, rest, h, hc⟩
  · exact ⟨'.', _, h, .inl rfl⟩
  · exact ⟨'.', _, h, .inl rfl⟩
  · exact ⟨c, rest, h, .inr hc⟩

-- The text of a finite double other than zero shows its shortest decimal.
theorem readDecimal?_magnitude (style : Layout) (hfinite : d.isFinite = true) :
    ∃ read, readDecimal? (magnitude style d) = some read ∧
      read.value = if d.isZero then 0 else (d.shortest style.tie).value := by
  rw [magnitude_of_isFinite style hfinite]
  split
  · split
    · exact ⟨⟨0, -1⟩, by decide, by simp [Decimal.value]⟩
    · exact ⟨⟨0, 0⟩, by decide, by simp [Decimal.value]⟩
  · exact readDecimal?_decimal style _

-- The number that the text of a finite double shows rounds to no other double.
theorem eq_of_magnitude {style : Layout} (ha : a.isFinite = true) (hb : b.isFinite = true)
    (h : magnitude style a = magnitude style b) :
    a.exponent = b.exponent ∧ a.fraction = b.fraction := by
  obtain ⟨read, hread, hvalue⟩ := readDecimal?_magnitude style ha
  obtain ⟨other, hother, hsame⟩ := readDecimal?_magnitude style hb
  rw [h, hother] at hread
  obtain rfl := Option.some.inj hread
  rw [hvalue] at hsame
  have hpos {d : Double} (hfinite : d.isFinite = true) (hzero : d.isZero = false) :
      (d.shortest style.tie).value ≠ 0 :=
    ((rounds_shortest hfinite hzero _).pos hzero).ne'
  cases hazero : a.isZero <;> cases hbzero : b.isZero <;>
    simp only [hazero, hbzero, Bool.false_eq_true, if_false, if_true] at hsame
  · exact eq_of_shortest ha hb hazero hbzero hsame
  · exact absurd hsame (hpos ha hazero)
  · exact absurd hsame.symm (hpos hb hbzero)
  · simp only [isZero, Bool.and_eq_true, beq_iff_eq] at hazero hbzero
    exact ⟨hazero.1.trans hbzero.1.symm, hazero.2.trans hbzero.2.symm⟩

theorem sign_magnitude_of_write (h : Yaml.floatLayout.write a = Yaml.floatLayout.write b) :
    (!a.isNaN && a.negative) = (!b.isNaN && b.negative) ∧
      magnitude Yaml.floatLayout a = magnitude Yaml.floatLayout b := by
  have hminus {c : Char} (hc : c = '.' ∨ Text.isDigit c = true) : '-' ≠ c := by
    rintro rfl
    revert hc
    decide
  obtain ⟨c, rest, ha, hc⟩ := head_magnitude a
  obtain ⟨c', rest', hb, hc'⟩ := head_magnitude b
  have htexts := congrArg String.toList h
  rw [toList_write, toList_write, ha, hb] at htexts
  rw [ha, hb]
  cases hsign : (!a.isNaN && a.negative) <;> cases hother : (!b.isNaN && b.negative) <;>
    simp_all [(hminus hc).symm, hminus hc']

theorem sameFloat_of_eq (hnan : a.isNaN = false) (hnegative : a.negative = b.negative)
    (h : a.exponent = b.exponent ∧ a.fraction = b.fraction) : Yaml.Data.sameFloat a b = true := by
  obtain ⟨hexponent, hfraction⟩ := h
  obtain rfl : a = b := by
    cases a
    cases b
    simp_all
  simp [Yaml.Data.sameFloat, sameNumber, hnan]

-- Only doubles that are one key have one text.
theorem sameFloat_of_write (h : Yaml.floatLayout.write a = Yaml.floatLayout.write b) :
    Yaml.Data.sameFloat a b = true := by
  obtain ⟨hsign, hmagnitude⟩ := sign_magnitude_of_write h
  have hpoint {c : Char} {word rest : List Char} (hc : Text.isDigit c = true) :
      '.' :: word ≠ c :: rest := by
    rintro heq
    obtain rfl := (List.cons.inj heq).1
    exact absurd hc (by decide)
  rcases magnitude_cases a with ⟨ha, hatext⟩ | ⟨ha, hainf, hatext⟩ | ⟨ha, c, rest, hatext, hc⟩ <;>
    rcases magnitude_cases b with ⟨hb, hbtext⟩ | ⟨hb, hbinf, hbtext⟩ | ⟨hb, d, more, hbtext, hd⟩
  case inl.inl => simp [Yaml.Data.sameFloat, ha, hb]
  case inr.inl.inr.inl =>
    simp only [isInfinite, Bool.and_eq_true, beq_iff_eq] at hainf hbinf
    refine sameFloat_of_eq ha (by simpa [ha, hb] using hsign) ?_
    exact ⟨hainf.1.trans hbinf.1.symm, hainf.2.trans hbinf.2.symm⟩
  case inr.inr.inr.inr =>
    have hanan := isNaN_of_isFinite ha
    have hbnan := isNaN_of_isFinite hb
    exact sameFloat_of_eq hanan (by simpa [hanan, hbnan] using hsign)
      (eq_of_magnitude ha hb hmagnitude)
  -- the words and the numbers do not look alike
  all_goals rw [hatext, hbtext] at hmagnitude
  case inl.inr.inl => exact absurd hmagnitude (by decide)
  case inr.inl.inl => exact absurd hmagnitude (by decide)
  case inl.inr.inr => exact absurd hmagnitude (hpoint hd)
  case inr.inl.inr.inr => exact absurd hmagnitude (hpoint hd)
  case inr.inr.inl => exact absurd hmagnitude.symm (hpoint hc)
  case inr.inr.inr.inl => exact absurd hmagnitude.symm (hpoint hc)

-- No text of a double is that of an integer.
theorem point_or_exponent_mem_write (d : Double) :
    '.' ∈ (Yaml.floatLayout.write d).toList ∨ 'e' ∈ (Yaml.floatLayout.write d).toList := by
  rw [toList_write, List.mem_append, List.mem_append]
  suffices h : '.' ∈ magnitude Yaml.floatLayout d ∨ 'e' ∈ magnitude Yaml.floatLayout d from
    h.imp .inr .inr
  rcases magnitude_cases d with ⟨-, h⟩ | ⟨-, -, h⟩ | ⟨hfinite, -⟩
  · exact .inl (by simp [h])
  · exact .inl (by simp [h])
  · rw [magnitude_of_isFinite _ hfinite]
    split
    · exact .inl (by simp [Yaml.floatLayout])
    · exact point_or_exponent_mem_decimal rfl _

theorem head_write (d : Double) : ∃ c rest, (Yaml.floatLayout.write d).toList = c :: rest ∧
    (c = '-' ∨ c = '.' ∨ Text.isDigit c = true) := by
  obtain ⟨c, rest, h, hc⟩ := head_magnitude d
  rw [toList_write, h]
  split
  · exact ⟨'-', _, rfl, .inl rfl⟩
  · exact ⟨c, rest, rfl, .inr hc⟩

end Words

end Skeleton.Double
