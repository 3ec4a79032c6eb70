import Skeleton.Proofs.Blueprint.Expansion
import Skeleton.Proofs.Plan.Sites
import Skeleton.Proofs.Yaml.Decoding
import Skeleton.Proofs.Yaml.Scalars

-- The modes of files, and the scalars of a document that they are written as.

namespace Skeleton

open Yaml (Decoder HasEntry Scalar Tree)

namespace Yaml.Scalar

def digits (s : Scalar) : List Char := dropSign (dropOctalMarks (Text.trimBlanks s.text.toList))

-- The number that a scalar is read as, where a mark tells that its base is not ten.
def rebased? (s : Scalar) : Option Nat :=
  match foundOfScalar s.tag s.style s.text with
  | .ok (.integer n) =>
    if (prefixed? false (dropSign s.text.toList)).isSome then some n.toNat else none
  | _ => none

-- The mode that a scalar stands for: its digits in base eight. Of a number in a base of its own
-- these are the digits that it has in base ten.
def mode? (s : Scalar) : Option Nat :=
  match s.rebased? with
  | none => Text.readNat? 8 s.digits
  | some n => Text.readNat? 8 (Text.natDigits 10 n)

-- That the scalar is taken for a mode, wherever it stands.
def Gives (s : Scalar) (mode : Nat) : Prop :=
  ∀ path mark, ∃ d, ModeDraft.decode path (.scalar mark s.tag s.style s.text) = .ok d ∧
    d.mode? = some mode

end Yaml.Scalar

section Scalars

open Yaml (dropSign integer? prefixed?)

variable {m : Nat}

theorem isBlank_of_isDigit {c : Char} (h : Text.isDigit c = true) : Text.isBlank c = false := by
  obtain ⟨k, hk, rfl⟩ := Text.digit_of_isDigit h
  have hall : ∀ k : Fin 10, Text.isBlank (Nat.digitChar k) = false := by decide
  exact hall ⟨k, hk⟩

theorem dropOctalMarks_of_tail {cs : List Char} (h : ∀ c ∈ cs.tail, c ≠ 'o') :
    dropOctalMarks cs = cs := by
  unfold dropOctalMarks
  split
  · exact absurd rfl (h 'o' List.mem_cons_self)
  · rfl

-- Of digits behind a sign nothing but the sign is dropped.
theorem Yaml.Scalar.digits_of_signed {s : Scalar} {ds : List Char}
    (hdigits : ∀ c ∈ ds, Text.isDigit c = true)
    (h : s.text.toList = ds ∨ ∃ sign, (sign = '-' ∨ sign = '+') ∧ s.text.toList = sign :: ds) :
    s.digits = ds := by
  have hblank : ∀ c ∈ s.text.toList, Text.isBlank c = false := by
    rcases h with h | ⟨sign, hsign, h⟩ <;> rw [h]
    · exact fun c hc => isBlank_of_isDigit (hdigits c hc)
    · refine List.forall_mem_cons.mpr ⟨?_, fun c hc => isBlank_of_isDigit (hdigits c hc)⟩
      rcases hsign with rfl | rfl <;> decide
  have hletter : ∀ c ∈ s.text.toList.tail, c ≠ 'o' := by
    have hdigit (c : Char) (hc : c ∈ ds) : c ≠ 'o' := by
      rintro rfl
      exact absurd (hdigits 'o' hc) (by decide)
    rcases h with h | ⟨sign, -, h⟩ <;> rw [h]
    · exact fun c hc => hdigit c (List.mem_of_mem_tail hc)
    · exact hdigit
  rw [digits, Text.trimBlanks_of_ends (fun c hc => hblank c (List.mem_of_mem_head? hc))
    (fun c hc => hblank c (List.mem_of_getLast? hc)), dropOctalMarks_of_tail hletter]
  rcases h with h | ⟨sign, hsign, h⟩ <;> rw [h]
  · exact Yaml.dropSign_of_isDigit hdigits
  · rcases hsign with rfl | rfl <;> rfl

theorem ModeDraft.mode_of_mode? {d : ModeDraft} (h : d.mode? = some m) :
    m ≤ 0o7777 ∧ Text.readNat? 8 (dropSign d.digits.toList) = some m := by
  obtain ⟨hread, hle⟩ := Option.filter_eq_some_iff.mp h
  refine ⟨by simpa using hle, ?_⟩
  split at hread
  · rename_i rest hdigits
    rw [hdigits]
    exact hread
  · rename_i hplus
    unfold dropSign
    split
    · rename_i rest hdigits
      rw [hdigits] at hread
      cases (Text.readNat?_eq_some_iff.mp hread).2
    · rename_i rest hdigits
      exact absurd hdigits (hplus rest)
    · exact hread

-- A mode is what the scalar stands for that it was decoded from.
theorem Yaml.Scalar.mode?_of_decode {path : Yaml.DocumentPath} {tree : Tree} {d : ModeDraft}
    (h : ModeDraft.decode path tree = .ok d) (hm : d.mode? = some m) :
    ∃ s, tree.scalar? = some s ∧ m ≤ 0o7777 ∧ s.mode? = some m := by
  obtain ⟨s, found, hs, hfound, hchoose⟩ := Decoder.scalar_of_alternative h
  obtain ⟨hle, hread⟩ := ModeDraft.mode_of_mode? hm
  refine ⟨s, hs, hle, ?_⟩
  unfold mode? rebased?
  rw [hfound]
  split at hchoose
  · rename_i n
    split at hchoose
    · rename_i hrange
      obtain rfl := Option.some.inj hchoose
      have hall : ∀ c ∈ Text.natDigits 10 n.toNat, Text.isDigit c = true :=
        fun c hc => Text.isDigit_of_mem_natDigits hc
      rw [ModeDraft.digits, Text.decimal, String.toList_ofList, Yaml.dropSign_of_isDigit hall] at hread
      by_cases hmark : (prefixed? false (dropSign s.text.toList)).isSome = true
      · simpa only [hmark, if_true] using hread
      · rw [Bool.not_eq_true] at hmark
        simp only [hmark, Bool.false_eq_true, if_false]
        have hinteger : integer? s.text.toList = some n := Yaml.reads_of_foundOfScalar hfound
        obtain ⟨-, hdecimal, hsign⟩ := Yaml.digits_of_integer? hinteger hmark
        have hdigits := Text.isDigit_of_readDigits? (by decide)
          (Text.readNat?_eq_some_iff.mp hdecimal).2
        rw [digits_of_signed hdigits hsign, ← Yaml.natDigits_of_integer? hinteger hmark,
          ← Int.toNat_of_nonneg hrange.1, Int.natAbs_natCast]
        exact hread
    · cases hchoose
  · obtain rfl := Option.some.inj hchoose
    obtain rfl : _ = s.text := Yaml.reads_of_foundOfScalar hfound
    rw [ModeDraft.digits, String.toList_ofList] at hread
    exact hread
  · cases hchoose

end Scalars

section Drafts

def HasText (entries : List (Tree × Tree)) (field text : String) : Prop :=
  ∃ value, HasEntry entries field value ∧ value.text? = some text

-- What a mapping says about a mode: nothing, or the digits of a scalar.
inductive SaysMode (entries : List (Tree × Tree)) : Option Nat → Prop where
  | absent (h : ∀ value, HasEntry entries "mode" value → value.IsNull) : SaysMode entries none
  | written {value s m} (hentry : HasEntry entries "mode" value) (hs : value.scalar? = some s)
      (hle : m ≤ 0o7777) (hm : s.mode? = some m) : SaysMode entries (some m)

def FileKind.field : FileKind → String
  | template => "file"
  | literal => "literal"

namespace NodeDraft

def nameAs? (n : NodeDraft) : FileKind → Option String
  | .template => n.file
  | .literal => n.literal

theorem nameAs?_of_role? {n : NodeDraft} {kind : FileKind} {name : String}
    (h : n.role? = some (.file kind name)) : n.nameAs? kind = some name := by
  unfold role? at h
  split at h <;> cases h <;> assumption

-- A draft of a node that was read from a mapping in a tree, as were those in it.
inductive IsFrom (tree : Tree) : NodeDraft → Prop where
  | mk {n entries} (hholds : tree.HoldsMapping entries)
      (hname : ∀ kind name, n.nameAs? kind = some name → HasText entries kind.field name)
      (hmode : ∀ mode, n.HasMode mode → SaysMode entries mode)
      (hchildren : ∀ child ∈ n.children, IsFrom tree child) : IsFrom tree n

end NodeDraft

def HasPart {α : Type} (d : Decoder α) (entries : List (Tree × Tree)) (a : α) : Prop :=
  ∃ field value path part, HasEntry entries field value ∧ value.Contains part ∧ d path part = .ok a

section Entries

variable {entries : List (Tree × Tree)} {key value : Tree} {field : String}

theorem HasText.snoc {name text : String} (h : HasText entries name text) :
    HasText (entries ++ [(key, value)]) name text := by
  obtain ⟨other, hentry, htext⟩ := h
  exact ⟨other, Yaml.hasEntry_append_singleton.mpr (.inl hentry), htext⟩

theorem SaysMode.snoc {mode : Option Nat} (hkey : key.text? = some field) (hne : field ≠ "mode")
    (h : SaysMode entries mode) : SaysMode (entries ++ [(key, value)]) mode := by
  cases h with
  | absent h =>
    refine .absent fun other hentry => ?_
    rcases Yaml.hasEntry_append_singleton.mp hentry with hentry | ⟨hmode, -⟩
    · exact h other hentry
    · exact absurd (Option.some.inj (hkey.symm.trans hmode)) hne
  | written hentry hs hle hm =>
    exact .written (Yaml.hasEntry_append_singleton.mpr (.inl hentry)) hs hle hm

theorem HasPart.snoc {α : Type} {d : Decoder α} {a : α} (h : HasPart d entries a) :
    HasPart d (entries ++ [(key, value)]) a := by
  obtain ⟨name, other, path, part, hentry, hpart⟩ := h
  exact ⟨name, other, path, part, Yaml.hasEntry_append_singleton.mpr (.inl hentry), hpart⟩

theorem HasPart.of_last {α : Type} {d : Decoder α} {a : α} {path : Yaml.DocumentPath} {part : Tree}
    (hkey : key.text? = some field) (hpart : value.Contains part) (h : d path part = .ok a) :
    HasPart d (entries ++ [(key, value)]) a :=
  ⟨field, value, path, part, Yaml.hasEntry_append_singleton.mpr (.inr ⟨hkey, rfl⟩), hpart, h⟩

end Entries

namespace NodeDraft

section Fields

variable {readNode : Decoder NodeDraft} {field : String} {n n' : NodeDraft}
  {path : Yaml.DocumentPath} {value : Tree}

theorem nameAs?_of_readField (h : readField readNode field n path value = .ok n')
    (kind : FileKind) : n'.nameAs? kind = n.nameAs? kind ∨
      field = kind.field ∧ Decoder.optional Decoder.text path value = .ok (n'.nameAs? kind) := by
  unfold readField at h
  split at h <;> obtain ⟨x, hx, h⟩ := bind_eq_ok_iff.mp h <;> obtain rfl := Except.ok.inj h <;>
    cases kind <;> first | exact .inl rfl | exact .inr ⟨rfl, hx⟩

theorem mode_of_readField (h : readField readNode field n path value = .ok n') :
    field ≠ "mode" ∧ n'.mode = n.mode ∨
      field = "mode" ∧ Decoder.optional ModeDraft.decode path value = .ok n'.mode := by
  unfold readField at h
  split at h <;> obtain ⟨x, hx, h⟩ := bind_eq_ok_iff.mp h <;> obtain rfl := Except.ok.inj h <;>
    first | exact .inr ⟨rfl, hx⟩ | exact .inl ⟨by assumption, rfl⟩ | exact .inl ⟨by decide, rfl⟩

theorem children_of_readField (h : readField readNode field n path value = .ok n') :
    n'.children = n.children ∨ Decoder.list readNode path value = .ok n'.children := by
  unfold readField at h
  split at h <;> obtain ⟨x, hx, h⟩ := bind_eq_ok_iff.mp h <;> obtain rfl := Except.ok.inj h <;>
    first | exact .inl rfl | exact .inr hx

-- What is known of a draft when some of the entries of its mapping are read.
structure Reads (readNode : Decoder NodeDraft) (done : List (Tree × Tree)) (n : NodeDraft) :
    Prop where
  name : ∀ kind name, n.nameAs? kind = some name → HasText done kind.field name
  mode : ∀ mode, n.HasMode mode → SaysMode done mode
  children : ∀ child ∈ n.children, HasPart readNode done child

theorem reads_empty : Reads readNode [] empty where
  name kind name h := by cases kind <;> cases h
  mode mode h := by
    cases mode with
    | none => exact .absent fun value hentry => absurd hentry.choose_spec.1 List.not_mem_nil
    | some m => cases h
  children := List.forall_mem_nil _

theorem Reads.snoc {done : List (Tree × Tree)} {key : Tree} (hkey : key.text? = some field)
    (hnew : ∀ other, ¬ HasEntry done field other) (h : Reads readNode done n)
    (hread : readField readNode field n path value = .ok n') :
    Reads readNode (done ++ [(key, value)]) n' where
  name kind name hname := by
    rcases nameAs?_of_readField hread kind with heq | ⟨rfl, hvalue⟩
    · exact (h.name kind name (heq ▸ hname)).snoc
    · rw [hname] at hvalue
      exact ⟨value, Yaml.hasEntry_append_singleton.mpr (.inr ⟨hkey, rfl⟩),
        Decoder.of_optional (P := fun t => t.text? = some name)
          (fun _ _ h => Decoder.text?_of_text h) (fun _ _ h => h) hvalue⟩
  mode mode hmode := by
    rcases mode_of_readField hread with ⟨hne, heq⟩ | ⟨rfl, hvalue⟩
    · exact (h.mode mode (by rwa [HasMode, ← heq])).snoc hkey hne
    · unfold HasMode at hmode
      cases hdraft : n'.mode with
      | none =>
        rw [hdraft] at hvalue hmode
        obtain rfl := Option.map_eq_none_iff.mp hmode.symm
        refine .absent fun other hentry => ?_
        rcases Yaml.hasEntry_append_singleton.mp hentry with hentry | ⟨-, rfl⟩
        · exact absurd hentry (hnew other)
        · exact Decoder.isNull_of_optional hvalue
      | some d =>
        rw [hdraft] at hvalue hmode
        obtain ⟨m, rfl, hm⟩ := Option.map_eq_some_iff.mp hmode.symm
        obtain ⟨s, hs, hle, hmode⟩ := Decoder.of_optional
          (P := fun t => ∃ s, t.scalar? = some s ∧ m ≤ 0o7777 ∧ s.mode? = some m)
          (fun _ _ h => Scalar.mode?_of_decode h hm.symm) (fun _ _ h => h) hvalue
        exact .written (Yaml.hasEntry_append_singleton.mpr (.inr ⟨hkey, rfl⟩)) hs hle hmode
  children child hchild := by
    rcases children_of_readField hread with heq | hvalue
    · exact (h.children child (heq ▸ hchild)).snoc
    · obtain ⟨path', part, hpart, hok⟩ := Decoder.contains_of_list hvalue child hchild
      exact .of_last hkey hpart hok

end Fields

theorem isFrom_of_decodeWithin {tree part : Tree} {depth : Nat} {path : Yaml.DocumentPath}
    {n : NodeDraft} (hpart : tree.Contains part) (h : decodeWithin depth path part = .ok n) :
    n.IsFrom tree := by
  induction depth generalizing part path n with
  | zero => exact absurd h (Decoder.wrongType_ne_ok _ _ _)
  | succ depth ih =>
    obtain ⟨entries, last, hholds, hreads, hlast⟩ := Decoder.of_record
      (I := Reads (decodeWithin depth)) reads_empty
      (fun done key field path value s s' hkey hnew h hread => h.snoc hkey hnew hread) h
    obtain rfl := Except.ok.inj hlast
    have hholds : tree.HoldsMapping entries :=
      hholds.imp_right fun ⟨m, tag, h⟩ => ⟨m, tag, hpart.trans h⟩
    refine .mk hholds hreads.name hreads.mode fun child hchild => ?_
    obtain ⟨field, value, path', inner, hentry, hinner, hok⟩ := hreads.children child hchild
    exact ih ((Tree.contains_of_hasEntry hholds hentry).trans hinner) hok

end NodeDraft

namespace Draft

structure Reads (done : List (Tree × Tree)) (f : Fields) : Prop where
  root : ∀ n, f.root = some n → HasPart NodeDraft.decode done n
  templates : ∀ name drafts, f.templates.get? name = some drafts →
    ∀ n ∈ drafts, HasPart NodeDraft.decode done n

theorem Reads.snoc {done : List (Tree × Tree)} {key value : Tree} {field : String}
    {path : Yaml.DocumentPath} {f f' : Fields} (hkey : key.text? = some field) (h : Reads done f)
    (hread : readField field f path value = .ok f') : Reads (done ++ [(key, value)]) f' := by
  have hroot (n : NodeDraft) (hn : f.root = some n) :
      HasPart NodeDraft.decode (done ++ [(key, value)]) n := (h.root n hn).snoc
  have htemplates (name : String) (drafts : List NodeDraft)
      (hdrafts : f.templates.get? name = some drafts) (n : NodeDraft) (hn : n ∈ drafts) :
      HasPart NodeDraft.decode (done ++ [(key, value)]) n := (h.templates name drafts hdrafts n hn).snoc
  unfold readField at hread
  split at hread <;> obtain ⟨x, hx, hread⟩ := bind_eq_ok_iff.mp hread <;>
    obtain rfl := Except.ok.inj hread
  case h_4 =>
    refine ⟨hroot, fun name drafts hdrafts n hn => ?_⟩
    obtain ⟨path, list, hlist, hok⟩ := Decoder.contains_of_dictionary hx hdrafts
    obtain ⟨path, part, hpart, hok⟩ := Decoder.contains_of_list hok n hn
    exact .of_last hkey (hlist.trans hpart) hok
  case h_5 =>
    refine ⟨fun n hn => ?_, htemplates⟩
    obtain rfl := Option.some.inj hn
    exact .of_last hkey (.self value) hx
  all_goals exact ⟨hroot, htemplates⟩

-- All drafts in a document were read from mappings in it.
theorem isFrom_of_decode {path : Yaml.DocumentPath} {tree : Tree} {draft : Draft}
    (h : decode path tree = .ok draft) : draft.root.IsFrom tree ∧
      ∀ name drafts, draft.templates.get? name = some drafts → ∀ n ∈ drafts, n.IsFrom tree := by
  obtain ⟨entries, last, hholds, hreads, hfinish⟩ := Decoder.of_record (I := Reads)
    ⟨fun n hn => (by cases hn), fun name drafts hdrafts => (by cases hdrafts)⟩
    (fun done key field path value s s' hkey hnew h hread => h.snoc hkey hread) h
  obtain ⟨name, -, hfinish⟩ := bind_eq_ok_iff.mp hfinish
  obtain ⟨root, hroot, hfinish⟩ := bind_eq_ok_iff.mp hfinish
  obtain rfl := Except.ok.inj hfinish
  have hfrom (n : NodeDraft) (hn : HasPart NodeDraft.decode entries n) : n.IsFrom tree := by
    obtain ⟨field, value, path, part, hentry, hpart, hok⟩ := hn
    exact NodeDraft.isFrom_of_decodeWithin
      ((Tree.contains_of_hasEntry hholds hentry).trans hpart) hok
  refine ⟨hfrom root (hreads.root root ?_), fun name drafts hdrafts n hn => ?_⟩
  · unfold Decoder.required at hroot
    split at hroot
    · rename_i heq
      rw [heq, Except.ok.inj hroot]
    · cases hroot
  · exact hfrom n (hreads.templates name drafts hdrafts n hn)

end Draft

end Drafts

namespace Node

-- A node whose files were read from mappings in a tree, each with its mode.
inductive IsFrom (tree : Tree) : Node → Prop where
  | directory {name condition children} (hchildren : ∀ child ∈ children, IsFrom tree child) :
      IsFrom tree (.directory name condition children)
  | file {name condition kind content mode mark tag entries}
      (hpart : tree.Contains (.mapping mark tag entries)) (hname : HasText entries kind.field name)
      (hmode : SaysMode entries mode) : IsFrom tree (.file name condition kind content mode)

variable {tree : Tree} {n : Node}

theorem IsFrom.children (h : n.IsFrom tree) : ∀ child ∈ n.children, child.IsFrom tree := by
  cases h with
  | directory hchildren => exact hchildren
  | file _ _ _ => exact List.forall_mem_nil _

theorem IsFrom.gated (gate : Condition) (h : n.IsFrom tree) : (n.gated gate).IsFrom tree := by
  cases h with
  | directory hchildren => exact .directory hchildren
  | file hpart hname hmode => exact .file hpart hname hmode

theorem isFrom_of_expands {s : Sources} {stack : List String} {drafts : List NodeDraft}
    {nodes : List Node}
    (htemplates : ∀ name drafts, s.templates.get? name = some drafts → ∀ n ∈ drafts, n.IsFrom tree)
    (hdrafts : ∀ n ∈ drafts, n.IsFrom tree) (h : Expands s stack drafts nodes) :
    ∀ n ∈ nodes, n.IsFrom tree := by
  induction h with
  | nil => exact List.forall_mem_nil _
  | directory _ _ _ _ _ ihchildren ihrest =>
    obtain ⟨hfirst, hrest⟩ := List.forall_mem_cons.mp hdrafts
    cases hfirst with
    | mk _ _ _ hchildren =>
      exact List.forall_mem_cons.mpr ⟨.directory (ihchildren hchildren), ihrest hrest⟩
  | file hrole _ _ _ _ hmode _ ihrest =>
    obtain ⟨hfirst, hrest⟩ := List.forall_mem_cons.mp hdrafts
    cases hfirst with
    | mk hholds hname hmodes _ =>
      have hname := hname _ _ (NodeDraft.nameAs?_of_role? hrole)
      rcases hholds with rfl | ⟨mark, tag, hpart⟩
      · exact absurd hname.choose_spec.1.choose_spec.1 List.not_mem_nil
      · exact List.forall_mem_cons.mpr ⟨.file hpart hname (hmodes _ hmode), ihrest hrest⟩
  | included _ _ _ hfound _ _ ihinner ihrest =>
    have hinner := ihinner (htemplates _ _ hfound)
    exact List.forall_mem_append.mpr ⟨forall_gatedAll (fun _ gate hn => hn.gated gate) hinner,
      ihrest (List.forall_mem_cons.mp hdrafts).2⟩

end Node

section Spellings

open Yaml (fitsLong foundOfPlain foundOfScalar hasLeadingZero integer? prefixed?)

variable {style : Yaml.ScalarStyle} {text : String} {n v m : Nat} {ds : List Char}
  {path : Yaml.DocumentPath} {mark : Yaml.Mark}

theorem ModeDraft.decode_string {s : String} (h : foundOfScalar none style text = .ok (.string s)) :
    decode path (.scalar mark none style text) = .ok (.text s) :=
  Decoder.alternative_of_found h rfl

theorem ModeDraft.decode_integer (h : foundOfScalar none style text = .ok (.integer n))
    (hn : n < UInt32.size) : decode path (.scalar mark none style text) = .ok (.number n) :=
  have hrange : 0 ≤ (n : Int) ∧ (n : Int) < UInt32.size :=
    ⟨Int.natCast_nonneg n, Int.ofNat_lt.mpr hn⟩
  Decoder.alternative_of_found h (if_pos hrange)

theorem ModeDraft.mode?_of_digits {d : ModeDraft} (hd : d.digits.toList = ds)
    (hdigits : ∀ c ∈ ds, Text.isDigit c = true) :
    d.mode? = (Text.readNat? 8 ds).filter (· ≤ 0o7777) := by
  rw [mode?, hd]
  congr 2
  split
  · exact absurd (hdigits '+' List.mem_cons_self) (by decide)
  · rfl

namespace Yaml.Scalar

variable {s : Scalar}

theorem mode?_of_gives (h : s.Gives m) : s.mode? = some m ∧ m ≤ 0o7777 := by
  obtain ⟨d, hd, hm⟩ := h .root ⟨0, 0⟩
  obtain ⟨t, ht, hle, hmode⟩ := mode?_of_decode hd hm
  obtain rfl : s = t := Option.some.inj ht
  exact ⟨hmode, hle⟩

theorem rebased?_of_quoted (htag : s.tag = none) (hstyle : s.style ≠ .plain) :
    s.rebased? = none := by
  rw [rebased?, htag, foundOfScalar, if_neg hstyle]

theorem rebased?_of_isDigit (htext : s.text.toList = ds)
    (hdigits : ∀ c ∈ ds, Text.isDigit c = true) : s.rebased? = none := by
  unfold rebased?
  split
  · rw [htext, Yaml.dropSign_of_isDigit hdigits, Yaml.prefixed?_of_isDigit hdigits]
    rfl
  · rfl

-- Octal digits stand for themselves, in quotes or not, with zeros in front or not.
theorem gives_of_digits (htag : s.tag = none) (htext : s.text.toList = ds)
    (hread : Text.readNat? 8 ds = some v) (hle : v ≤ 0o7777) : s.Gives v := by
  obtain ⟨hne, hdenote⟩ := Text.readNat?_eq_some_iff.mp hread
  have hdigits := Text.isDigit_of_readDigits? (by decide) hdenote
  have hmode (d : ModeDraft) (hd : d.digits.toList = ds) : d.mode? = some v := by
    rw [ModeDraft.mode?_of_digits hd hdigits, hread, Option.filter_some, if_pos (by simpa using hle)]
  have htextual (hfound : foundOfScalar none s.style s.text = .ok (.string s.text)) :
      s.Gives v := by
    intro path mark
    rw [htag]
    refine ⟨_, ModeDraft.decode_string hfound, hmode _ ?_⟩
    rw [ModeDraft.digits, String.toList_ofList, htext, Text.trimBlanks_of_ends, dropOctalMarks_of_tail]
    · rintro c hc rfl
      exact absurd (hdigits 'o' (List.mem_of_mem_tail hc)) (by decide)
    · exact fun c hc => isBlank_of_isDigit (hdigits c (List.mem_of_mem_head? hc))
    · exact fun c hc => isBlank_of_isDigit (hdigits c (List.mem_of_getLast? hc))
  by_cases hstyle : s.style = .plain
  · obtain ⟨n, hn, hbound⟩ := Text.readDecimal_of_readOctal (b := 0) le_rfl hdenote
    have hsmall : n ≤ 0o7777 * 0o7777 + 0o7777 :=
      hbound.trans (Nat.add_le_add (Nat.mul_le_mul hle hle) hle)
    have hdecimal := Text.readNat?_eq_some_iff.mpr ⟨hne, hn⟩
    have hplain := Yaml.foundOfPlain_of_isDigit htext hdecimal (Yaml.fitsLong_iff.mpr (by omega))
    by_cases hzero : hasLeadingZero ds = true
    · exact htextual (by rw [foundOfScalar, if_pos hstyle, hplain, if_pos hzero])
    · intro path mark
      have hfound : foundOfScalar none s.style s.text = .ok (.integer n) := by
        rw [foundOfScalar, if_pos hstyle, hplain, if_neg hzero]
      have hsmall : n < UInt32.size := by
        have hsize : UInt32.size = 2 ^ 32 := by decide +kernel
        omega
      rw [htag]
      refine ⟨_, ModeDraft.decode_integer hfound hsmall, hmode _ ?_⟩
      rw [ModeDraft.digits, Text.decimal, String.toList_ofList]
      have hplain : (prefixed? false (Yaml.dropSign ds)).isSome = false := by
        rw [Yaml.dropSign_of_isDigit hdigits, Yaml.prefixed?_of_isDigit hdigits]
        rfl
      have hinteger : integer? ds = some (n : Int) := by
        rw [Yaml.integer?_of_isDigit hdigits, if_neg hzero, hdecimal]
        rfl
      have hnumeral := Yaml.natDigits_of_integer? hinteger hplain
      rwa [Int.natAbs_natCast, Yaml.dropSign_of_isDigit hdigits] at hnumeral
  · exact htextual (by rw [foundOfScalar, if_neg hstyle])

theorem dropOctalMarks_of_marked (htext : text.toList = '0' :: 'o' :: ds)
    (hread : Text.readNat? 8 ds = some v) : dropOctalMarks (Text.trimBlanks text.toList) = ds := by
  have hdigits := Text.isDigit_of_readDigits? (by decide) (Text.readNat?_eq_some_iff.mp hread).2
  have hblank : ∀ c ∈ text.toList, Text.isBlank c = false := by
    rw [htext]
    refine List.forall_mem_cons.mpr ⟨by decide, List.forall_mem_cons.mpr ⟨by decide, ?_⟩⟩
    exact fun c hc => isBlank_of_isDigit (hdigits c hc)
  rw [Text.trimBlanks_of_ends (fun c hc => hblank c (List.mem_of_mem_head? hc))
    (fun c hc => hblank c (List.mem_of_getLast? hc)), htext, dropOctalMarks, dropOctalMarks_of_tail]
  rintro c hc rfl
  exact absurd (hdigits 'o' (List.mem_of_mem_tail hc)) (by decide)

-- In quotes a mark for octal numbers does not matter.
theorem gives_of_quoted_mark (htag : s.tag = none) (hstyle : s.style ≠ .plain)
    (htext : s.text.toList = '0' :: 'o' :: ds) (hread : Text.readNat? 8 ds = some v)
    (hle : v ≤ 0o7777) : s.Gives v := by
  have hdigits := Text.isDigit_of_readDigits? (by decide) (Text.readNat?_eq_some_iff.mp hread).2
  have hdropped : (ModeDraft.text s.text).digits.toList = ds := by
    rw [ModeDraft.digits, String.toList_ofList, dropOctalMarks_of_marked htext hread]
  intro path mark
  rw [htag]
  refine ⟨_, ModeDraft.decode_string (by rw [foundOfScalar, if_neg hstyle]), ?_⟩
  rw [ModeDraft.mode?_of_digits hdropped hdigits, hread, Option.filter_some,
    if_pos (by simpa using hle)]

-- Without quotes it makes a number, whose digits in base ten are taken for octal ones.
theorem gives_marked_iff (htag : s.tag = none) (hstyle : s.style = .plain)
    (htext : s.text.toList = '0' :: 'o' :: ds) (hread : Text.readNat? 8 ds = some v)
    (hle : v ≤ 0o7777) :
    s.Gives m ↔ Text.readNat? 8 (Text.natDigits 10 v) = some m ∧ m ≤ 0o7777 := by
  have hinteger : integer? s.text.toList = some (v : Int) := by
    rw [htext]
    simp [integer?, prefixed?, hread]
  have hfound : foundOfScalar none s.style s.text = .ok (.integer v) := by
    have hkept : (some (v : Int)).filter fitsLong = some (v : Int) := by
      rw [Option.filter_some, if_pos (Yaml.fitsLong_iff.mpr (by omega))]
    rw [foundOfScalar, if_pos hstyle, foundOfPlain, Yaml.meaning_of_head htext (by decide), hinteger,
      hkept]
  have hsmall : v < UInt32.size := by
    have hsize : UInt32.size = 2 ^ 32 := by decide +kernel
    omega
  have hmode : (ModeDraft.number v).mode? =
      (Text.readNat? 8 (Text.natDigits 10 v)).filter (· ≤ 0o7777) :=
    ModeDraft.mode?_of_digits (by rw [ModeDraft.digits, Text.decimal, String.toList_ofList])
      fun c hc => Text.isDigit_of_mem_natDigits hc
  have hgives : s.Gives m ↔ (ModeDraft.number v).mode? = some m := by
    constructor
    · intro h
      obtain ⟨d, hd, hm⟩ := h .root ⟨0, 0⟩
      rw [htag, ModeDraft.decode_integer hfound hsmall] at hd
      obtain rfl := Except.ok.inj hd
      exact hm
    · intro h path mark
      rw [htag]
      exact ⟨_, ModeDraft.decode_integer hfound hsmall, h⟩
  rw [hgives, hmode, Option.filter_eq_some_iff, decide_eq_true_eq]

theorem gives_digits_iff (htag : s.tag = none) (htext : s.text.toList = ds)
    (hread : Text.readNat? 8 ds = some v) : s.Gives m ↔ m = v ∧ m ≤ 0o7777 := by
  have hdigits := Text.isDigit_of_readDigits? (by decide) (Text.readNat?_eq_some_iff.mp hread).2
  constructor
  · intro h
    obtain ⟨hmode, hle⟩ := mode?_of_gives h
    rw [mode?, rebased?_of_isDigit htext hdigits] at hmode
    rw [digits_of_signed hdigits (.inl htext), hread] at hmode
    exact ⟨(Option.some.inj hmode).symm, hle⟩
  · rintro ⟨rfl, hle⟩
    exact gives_of_digits htag htext hread hle

theorem gives_quoted_mark_iff (htag : s.tag = none) (hstyle : s.style ≠ .plain)
    (htext : s.text.toList = '0' :: 'o' :: ds) (hread : Text.readNat? 8 ds = some v) :
    s.Gives m ↔ m = v ∧ m ≤ 0o7777 := by
  constructor
  · intro h
    obtain ⟨hmode, hle⟩ := mode?_of_gives h
    rw [mode?, rebased?_of_quoted htag hstyle] at hmode
    have hdigits := Text.isDigit_of_readDigits? (by decide) (Text.readNat?_eq_some_iff.mp hread).2
    rw [digits, dropOctalMarks_of_marked htext hread, Yaml.dropSign_of_isDigit hdigits,
      hread] at hmode
    exact ⟨(Option.some.inj hmode).symm, hle⟩
  · rintro ⟨rfl, hle⟩
    exact gives_of_quoted_mark htag hstyle htext hread hle

theorem gives_marked_self_iff (htag : s.tag = none) (hstyle : s.style = .plain)
    (htext : s.text.toList = '0' :: 'o' :: ds) (hread : Text.readNat? 8 ds = some v) :
    s.Gives v ↔ v < 8 := by
  constructor
  · intro h
    have hle := (mode?_of_gives h).2
    have hreread := ((gives_marked_iff htag hstyle htext hread hle).mp h).1
    exact (Text.reread_octal (Text.readNat?_eq_some_iff.mp hreread).2).2.mp rfl
  · intro h
    have hall : ∀ k : Fin 8, Text.readNat? 8 (Text.natDigits 10 k) = some k.val := by decide
    have hle : v ≤ 0o7777 := by omega
    exact (gives_marked_iff htag hstyle htext hread hle).mpr ⟨hall ⟨v, h⟩, hle⟩

end Yaml.Scalar

end Spellings

namespace Blueprint

theorem isFrom_of_load {disk : Disk} {baseDir : Path} {text : String} {b : Blueprint}
    (h : load disk baseDir text = .ok b) :
    ∃ tree, Yaml.treeOf text = .ok tree ∧ b.outline.root.IsFrom tree := by
  obtain ⟨draft, hdraft, h⟩ := ofDraft_of_load h
  obtain ⟨-, hexpands, -⟩ := parts_of_ofDraft h
  unfold Decoder.run at hdraft
  split at hdraft
  · cases hdraft
  · rename_i tree htree
    obtain ⟨hroot, htemplates⟩ := Draft.isFrom_of_decode (mapError_eq_ok_iff.mp hdraft)
    exact ⟨tree, htree, Node.isFrom_of_expands htemplates (List.forall_mem_singleton.mpr hroot)
      hexpands b.outline.root List.mem_cons_self⟩

-- The mode of a file is the one that its mapping in the document says: the octal digits as they
-- are written, unless the scalar is a number with a mark for its base. Digits say the same in
-- quotes and without, with zeros in front and without, and in quotes with a mark. A mark without
-- quotes says the same only where there is one digit.
theorem modes_as_written (disk : Disk) (baseDir : Path) (text : String) :
    (∀ b, load disk baseDir text = .ok b →
      ∃ tree, Yaml.treeOf text = .ok tree ∧
        ∀ site ∈ b.outline.root.sites [], ∀ name condition kind content mode,
          site.node = .file name condition kind content mode →
            ∃ mark tag entries, tree.Contains (.mapping mark tag entries) ∧
              HasText entries kind.field name ∧ SaysMode entries mode) ∧
    ∀ ds v, Text.readNat? 8 ds = some v → ∀ s : Scalar, s.tag = none →
      (s.text.toList = ds ∨ s.text.toList = '0' :: ds →
        ∀ m, s.Gives m ↔ m = v ∧ m ≤ 0o7777) ∧
      (s.text.toList = '0' :: 'o' :: ds →
        if s.style = .plain then s.Gives v ↔ v < 8 else ∀ m, s.Gives m ↔ m = v ∧ m ≤ 0o7777) := by
  refine ⟨fun b h => ?_, fun ds v hread s htag => ⟨?_, fun htext => ?_⟩⟩
  · obtain ⟨tree, htree, hroot⟩ := isFrom_of_load h
    refine ⟨tree, htree, fun site hsite name condition kind content mode hnode => ?_⟩
    have hfrom := Plan.forall_sites (fun n hn => Node.IsFrom.children hn) b.outline.root hroot hsite
    rw [hnode] at hfrom
    cases hfrom with
    | file hpart hname hmode => exact ⟨_, _, _, hpart, hname, hmode⟩
  · rintro (htext | htext) m
    · exact Scalar.gives_digits_iff htag htext hread
    · have hzero : Text.readNat? 8 ('0' :: ds) = some v :=
        Text.readNat?_eq_some_iff.mpr ⟨List.cons_ne_nil _ _, (Text.readNat?_eq_some_iff.mp hread).2⟩
      exact Scalar.gives_digits_iff htag htext hzero
  · split
    · rename_i hstyle
      exact Scalar.gives_marked_self_iff htag hstyle htext hread
    · rename_i hstyle
      exact fun m => Scalar.gives_quoted_mark_iff htag hstyle htext hread

def spelled : String :=
  "name: x\nroot: \x7b dir: d, children: [ \x7b file: a, mode: '0644' \x7d, " ++
    "\x7b literal: b, mode: 0o644 \x7d ] \x7d\n"

theorem modes_as_written_spelled : ∃ b, load .blank .empty spelled = .ok b ∧
    (b.outline.root.children.map fun n =>
      match n with
      | .file _ _ _ _ mode => mode
      | .directory _ _ _ => none) = [some 0o644, some 0o420] ∧
    (∃ tree, Yaml.treeOf spelled = .ok tree ∧
      ∀ site ∈ b.outline.root.sites [], ∀ name condition kind content mode,
        site.node = .file name condition kind content mode →
          ∃ mark tag entries, tree.Contains (.mapping mark tag entries) ∧
            HasText entries kind.field name ∧ SaysMode entries mode) ∧
    ∀ m, (Scalar.mk none .single "0644").Gives m ↔ m = 0o644 ∧ m ≤ 0o7777 := by
  have hloads : ((load .blank .empty spelled).toOption.any fun b =>
      (b.outline.root.children.map fun n =>
        match n with
        | .file _ _ _ _ mode => mode
        | .directory _ _ _ => none) == [some 0o644, some 0o420]) = true := by
    decide +kernel
  simp only [Option.any_eq_true, toOption_eq_some_iff, beq_iff_eq] at hloads
  obtain ⟨b, hload, hmodes⟩ := hloads
  obtain ⟨hfiles, hspellings⟩ := modes_as_written .blank .empty spelled
  have hscalar := hspellings ['6', '4', '4'] 0o644 (by decide) (Scalar.mk none .single "0644") rfl
  exact ⟨b, hload, hmodes, hfiles b hload, hscalar.1 (.inr (by decide +kernel))⟩

-- A mark without quotes: the digits are octal, but their number is taken for decimal digits.
def marked : String := "name: x\nroot: \x7b literal: a, mode: 0o644 \x7d\n"

theorem digits_reread : ∃ b, load .blank .empty marked = .ok b ∧
    (match b.outline.root with
      | .file _ _ _ _ mode => mode
      | .directory _ _ _ => none) = some 0o420 ∧
    (Scalar.mk none .plain "0o644").digits = ['6', '4', '4'] ∧
    Text.readNat? 8 ['6', '4', '4'] = some 0o644 := by
  have hloads : ((load .blank .empty marked).toOption.any fun b =>
      (match b.outline.root with
        | .file _ _ _ _ mode => mode
        | .directory _ _ _ => none) == some 0o420) = true := by
    decide +kernel
  simp only [Option.any_eq_true, toOption_eq_some_iff, beq_iff_eq] at hloads
  obtain ⟨b, hload, hmode⟩ := hloads
  exact ⟨b, hload, hmode, by decide +kernel, by decide⟩

end Blueprint

end Skeleton
