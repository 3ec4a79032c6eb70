import Skeleton.Proofs.Disk.Siblings
import Skeleton.Proofs.Execution.Steps
import Skeleton.Proofs.Text.Numerals

-- Which name a copy of a file gets, and what it holds.

namespace Skeleton.Execution

open Disk

def backupName (name : String) (n : Nat) : String :=
  name ++ ".bak" ++ if n = 0 then "" else "." ++ Text.decimal n

-- Whether something stands under a path already. It may be anything, and a link may lead nowhere.
def Taken (d : Disk) (p : Path) : Prop := ∃ s, d.find false p = .ok s ∧ s.found.isSome = true

section Names

variable {name : String} {target : Path}

theorem backupPath_eq (h : target.fileName? = some name) (n : Nat) :
    backupPath target n = target.withFileName (backupName name n) := by
  rw [backupPath, h]
  rfl

theorem toList_backupName (name : String) (n : Nat) : (backupName name n).toList =
    name.toList ++ '.' :: 'b' :: 'a' :: 'k' ::
      if n = 0 then [] else '.' :: Text.natDigits 10 n := by
  unfold backupName
  split <;> simp [Text.decimal]

theorem isPlain_backupName (name : String) (n : Nat) : Path.IsPlain (backupName name n) := by
  have hlength : 4 ≤ (backupName name n).toList.length := by
    simp [toList_backupName]
    omega
  refine ⟨?_, ?_⟩
  · simp only [Path.isIdle, Bool.or_eq_false_iff, decide_eq_false_iff_not]
    constructor <;> intro h <;> simp [h] at hlength
  · intro h
    simp [h] at hlength

theorem nul_notMem_backupName (h : '\x00' ∉ name.toList) (n : Nat) :
    '\x00' ∉ (backupName name n).toList := by
  intro hmem
  rw [toList_backupName, List.mem_append] at hmem
  rcases hmem with hmem | hmem
  · exact h hmem
  · split at hmem
    · revert hmem
      decide
    · simp only [List.mem_cons] at hmem
      rcases hmem with hc | hc | hc | hc | hc | hc
      iterate 5 exact absurd hc (by decide)
      have hdigit := Text.isDigit_of_mem_natDigits hc
      revert hdigit
      decide

-- No name is tried twice.
theorem backupName_injective (name : String) : Function.Injective (backupName name) := by
  intro m n h
  have hdigits : (if m = 0 then [] else '.' :: Text.natDigits 10 m) =
      if n = 0 then [] else '.' :: Text.natDigits 10 n := by
    have hchars := congrArg String.toList h
    simpa only [toList_backupName, List.append_cancel_left_eq, List.cons.injEq, true_and]
      using hchars
  by_cases hm : m = 0 <;> by_cases hn : n = 0
  · rw [hm, hn]
  · simp [hm, hn] at hdigits
  · simp [hm, hn] at hdigits
  · simp only [hm, hn, if_false, List.cons.injEq, true_and] at hdigits
    exact Option.some.inj ((Text.readNat?_natDigits m).symm.trans
      (hdigits ▸ Text.readNat?_natDigits n))

end Names

section Search

variable {d : Disk} {target : Path}

-- As many names are passed over as are taken. Nothing is changed on the way, and what was read of
-- the file is still there.
theorem copyFrom_skip (w : Writer) (first : Nat) {n : Nat}
    (h : ∀ k < n, Taken d (backupPath target (first + k)))
    (content : ByteArray) (mode : Mode) (left : Nat) :
    copyFrom w d target content mode first (n + left) =
      copyFrom w d target content mode (first + n) left := by
  induction n generalizing first with
  | zero => rw [Nat.zero_add, Nat.add_zero]
  | succ n ih =>
    obtain ⟨b, hfind, hsome⟩ := h 0 (Nat.succ_pos n)
    have hrest : ∀ k < n, Taken d (backupPath target (first + 1 + k)) := fun k hk => by
      rw [Nat.add_assoc, Nat.add_comm 1 k]
      exact h (k + 1) (Nat.succ_lt_succ hk)
    calc copyFrom w d target content mode first (n + 1 + left)
      _ = copyFrom w d target content mode first (n + left + 1) := by rw [Nat.add_right_comm]
      _ = copyFrom w d target content mode (first + 1) (n + left) :=
        copyFrom_of_taken target w hfind hsome content mode _
      _ = copyFrom w d target content mode (first + 1 + n) left := ih (first + 1) hrest
      _ = copyFrom w d target content mode (first + (n + 1)) left := by
        rw [Nat.add_assoc, Nat.add_comm 1 n]

theorem backUp_of_lookup (w : Writer) {l : Location} {mode : Mode} {content : ByteArray}
    (h : d.lookup target = .ok (l, .file mode content)) :
    backUp w d target = copyFrom w d target content mode 0 maxBackups := by
  have hopen : d.openFile target = .ok (content, mode) := by simp [openFile, h, bind, Except.bind]
  rw [backUp, hopen]

end Search

-- The copy of a file stands next to it under the first name that is free, and holds what the file
-- holds. Whatever stands under the names before stays as it is, and so does everything else. Where
-- no name is free there is no copy, and without a copy nothing changes, however much of it was
-- written.
theorem backUp_exact {d : Disk} {target : Path} {l : Location} {mode : Mode} {content : ByteArray}
    (hfile : d.lookup target = .ok (l, .file mode content)) :
    ∃ dir name, target.fileName? = some name ∧ d.IsDirAt dir ∧
      Function.Injective (backupName name) ∧
      (∀ n, ¬TooLong (backupPath target n) → d.find false (backupPath target n) =
        .ok ⟨dir ++ [backupName name n], d.get? (dir ++ [backupName name n]), false⟩) ∧
      (∀ n < maxBackups, (∀ k ≤ n, ¬TooLong (backupPath target k)) →
        (∀ k < n, Taken d (backupPath target k)) → ¬Taken d (backupPath target n) →
        ∃ d', backUp store d target = (d', .ok (backupPath target n)) ∧ d'.cwd = d.cwd ∧
          d'.find false (backupPath target n) =
            .ok ⟨dir ++ [backupName name n], some (.file mode content), false⟩ ∧
          ∀ i, i ≠ dir ++ [backupName name n] → d'.get? i = d.get? i) ∧
      ((∀ n < maxBackups, Taken d (backupPath target n)) →
        ∀ w, backUp w d target = (d, .error (.conflict (backupPath target 0) .noBackupName))) ∧
      ∀ w, Faithful w → ∀ d' failure, backUp w d target = (d', .error failure) → d' = d := by
  obtain ⟨dir, name, hname, hclean, hdir, hsibling⟩ := find_sibling hfile rfl
  have hnames : ∀ n, ¬TooLong (backupPath target n) → d.find false (backupPath target n) =
      .ok ⟨dir ++ [backupName name n], d.get? (dir ++ [backupName name n]), false⟩ := by
    intro n hlong
    rw [backupPath_eq hname] at hlong ⊢
    exact hsibling _ (isPlain_backupName name n) (nul_notMem_backupName hclean n) hlong
  have hstart := backUp_of_lookup store hfile
  refine ⟨dir, name, hname, hdir, backupName_injective name, hnames, ?_, ?_, ?_⟩
  · intro n hn hlong hbefore hfree
    have hfind := hnames n (hlong n (Nat.le_refl n))
    have hnone : d.get? (dir ++ [backupName name n]) = none := by
      cases hget : d.get? (dir ++ [backupName name n]) with
      | none => rfl
      | some e => exact absurd ⟨_, hfind, by simp [hget]⟩ hfree
    obtain ⟨left, hleft⟩ := Nat.exists_eq_add_of_lt hn
    have hskip := copyFrom_skip store 0 (by simpa using hbefore) content mode (left + 1)
    rw [Nat.zero_add, copyFrom_of_free target hfind hnone rfl] at hskip
    refine ⟨_, ?_, cwd_put .., find_put hfind hnone (by simp) (.inr rfl), ?_⟩
    · rw [hstart, hleft, Nat.add_assoc, hskip]
    · exact fun i hi => get?_put_of_ne d _ hi
  · intro htaken w
    have hskip := copyFrom_skip w 0 (by simpa using htaken) content mode 0
    rw [Nat.zero_add] at hskip
    exact (backUp_of_lookup w hfile).trans hskip
  · intro w hw d' failure hfailed
    have hkept := backUp_sound hw d target
    rwa [hfailed] at hkept

-- A disk with a file, and a link that leads nowhere and a directory where its first copies would be.
def cellar : Disk :=
  (((blank.put ["d"] .newDir).put ["d", "a"] (.file 0o600 "old".toUTF8)).put ["d", "a.bak"]
    (.link ⟨["gone"]⟩)).put ["d", "a.bak.1"] .newDir

theorem backUp_exact_cellar :
    let target : Path := ⟨["", "d", "a"]⟩
    cellar.lookup target = .ok (["d", "a"], .file 0o600 "old".toUTF8) ∧
      (∀ k ≤ 2, ¬TooLong (backupPath target k)) ∧
      (∀ k < 2, Taken cellar (backupPath target k)) ∧ ¬Taken cellar (backupPath target 2) ∧
      ∃ d', backUp store cellar target = (d', .ok ⟨["", "d", "a.bak.2"]⟩) ∧
        d'.find false ⟨["", "d", "a.bak.2"]⟩ =
          .ok ⟨["d", "a.bak.2"], some (.file 0o600 "old".toUTF8), false⟩ ∧
        ∀ i, i ≠ ["d", "a.bak.2"] → d'.get? i = cellar.get? i := by
  intro target
  have hfile : cellar.lookup target = .ok (["d", "a"], .file 0o600 "old".toUTF8) := by cbv
  have hpath : backupPath target 2 = ⟨["", "d", "a.bak.2"]⟩ := by cbv
  have hfind : cellar.find false (backupPath target 2) = .ok ⟨["d", "a.bak.2"], none, false⟩ := by
    cbv
  have hlong : ∀ k ≤ 2, ¬TooLong (backupPath target k) := by decide +kernel
  have htaken : ∀ k < 2, Taken cellar (backupPath target k) := by
    intro k hk
    obtain rfl | rfl : k = 0 ∨ k = 1 := by omega
    · exact ⟨⟨["d", "a.bak"], some (.link ⟨["gone"]⟩), false⟩, by cbv, rfl⟩
    · exact ⟨⟨["d", "a.bak.1"], some .newDir, false⟩, by cbv, rfl⟩
  have hfree : ¬Taken cellar (backupPath target 2) := by
    rintro ⟨s, hs, hsome⟩
    obtain rfl := Except.ok.inj (hfind.symm.trans hs)
    cases hsome
  obtain ⟨dir, name, -, -, -, hnames, hfirst, -, -⟩ := backUp_exact hfile
  have hplace := hnames 2 (hlong 2 (Nat.le_refl 2))
  obtain ⟨hat, -⟩ := Spot.mk.inj (Except.ok.inj (hfind.symm.trans hplace))
  obtain ⟨d', hdone, -, hcopy, hothers⟩ := hfirst 2 (by decide) hlong htaken hfree
  rw [← hat] at hcopy hothers
  rw [hpath] at hdone hcopy
  exact ⟨hfile, hlong, htaken, hfree, d', hdone, hcopy, hothers⟩

end Skeleton.Execution
