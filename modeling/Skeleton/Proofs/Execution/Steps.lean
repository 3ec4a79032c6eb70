import Mathlib.Logic.Relation
import Skeleton.Execution.Basic
import Skeleton.Proofs.Disk.Operations

-- What carrying out one operation can do to a disk without devices.

namespace Skeleton.Execution

open Disk
open Relation (ReflTransGen)

def modeOf (given : Option Nat) (old : Mode) : Mode := (given.map Mode.ofNat).getD old

-- The ways in which a file gets to be written: the disk that the content is put on, where it is
-- put, and the mode that the file has without one of its own.
inductive Prepares (p : Policy) (d : Disk) (target : Path) :
    Change → Disk → Location → Mode → Prop where
  | created {s} (hfind : d.find false target = .ok s) (hnone : s.found = none)
      (hslash : s.wantsDir = false) : Prepares p d target .createdFile d s.location 0o644
  | copied {s m old backup b} (hoverwrite : p.overwrite = true) (hbackups : p.backups = true)
      (hfind : d.find true target = .ok s) (hfound : s.found = some (.file m old))
      (hbackup : d.find false backup = .ok b) (hnone : b.found = none)
      (hslash : b.wantsDir = false) :
      Prepares p d target (.replacedFile (some backup)) (d.put b.location (.file m old))
        s.location m
  | overwritten {s m old} (hoverwrite : p.overwrite = true) (hbackups : p.backups = false)
      (hfind : d.find true target = .ok s) (hfound : s.found = some (.file m old)) :
      Prepares p d target (.replacedFile none) d s.location m
  -- a link at the end of the path leads where nothing stands
  | throughLink {s} (hoverwrite : p.overwrite = true) (hbackups : p.backups = false)
      (hfind : d.find true target = .ok s) (hnone : s.found = none) (hslash : s.wantsDir = false) :
      Prepares p d target (.replacedFile none) d s.location 0o644

-- One rule for each way in which an operation at a path succeeds. A failed operation changes
-- nothing and has no rule.
inductive Applies (p : Policy) (d : Disk) (target : Path) : Operation → Change → Disk → Prop where
  | createdDir {path s} (hfind : d.find false target = .ok s) (hnone : s.found = none) :
      Applies p d target (.makeDir path) .createdDir (d.put s.location .newDir)
  | existingDir {path s m} (hfind : d.find true target = .ok s) (hfound : s.found = some (.dir m)) :
      Applies p d target (.makeDir path) .existingDir d
  | wrote {path content mode change base l m} (h : Prepares p d target change base l m) :
      Applies p d target (.writeFile path content mode) change
        (base.put l (.file (modeOf mode m) content.toUTF8))

inductive Alters (target : Path) : Disk → Disk → Prop where
  | content {d d'} (change : ByteArray → ByteArray) (h : d.changeFile target change = .ok d') :
      Alters target d d'
  | mode {d d'} (n : Nat) (h : d.setMode target n = .ok d') : Alters target d d'

-- A writer touches nothing but the file, and all of the content is in it when there is no fault.
structure Faithful (w : Writer) : Prop where
  alters : ∀ d target content, ReflTransGen (Alters target) d (w d target content).1
  written : ∀ d target content d', w d target content = (d', .ok ()) →
    d.writeFile target content = .ok d'

theorem faithful_store : Faithful store where
  alters d target content := by
    unfold store attempt
    cases hwrite : d.writeFile target content with
    | ok d' => exact .single (.content (fun _ => content) hwrite)
    | error fault => exact .refl
  written d target content d' h := by
    unfold store attempt at h
    cases hwrite : d.writeFile target content with
    | ok d'' =>
      rw [hwrite] at h
      exact congrArg Except.ok (Prod.mk.inj h).1
    | error fault =>
      rw [hwrite] at h
      cases (Prod.mk.inj h).2

structure Created (d d' : Disk) (target : Path) (l : Location) (e : Entry) : Prop where
  free : d.get? l = none
  inDir : d.IsDirAt l.dropLast
  put : d' = d.put l e
  target : d'.find false target = .ok ⟨l, some e, false⟩

structure Replaced (d d' : Disk) (target backup : Path) (l k : Location) (m : Mode)
    (old : ByteArray) : Prop where
  was : d.get? l = some (.file m old)
  free : d.get? k = none
  others : ∀ i, i ≠ l → i ≠ k → d'.get? i = d.get? i
  target : ∃ m' new, d'.find true target = .ok ⟨l, some (.file m' new), false⟩
  copy : d'.find false backup = .ok ⟨k, some (.file m old), false⟩

section

variable {p : Policy} {d d' base : Disk} {target path : Path} {operation : Operation}
  {change : Change} {s : Spot} {l : Location} {m : Mode} {content : String}

-- Where nothing stands there is not what was found.
theorem location_ne {follow follow' : Bool} {q : Path} {b : Spot} {e : Entry}
    (h : d.find follow target = .ok s) (hfound : s.found = some e)
    (hb : d.find follow' q = .ok b) (hnone : b.found = none) : s.location ≠ b.location := by
  intro heq
  have hs := (find_spot h).1.symm.trans hfound
  rw [heq, ← (find_spot hb).1, hnone] at hs
  cases hs

theorem get?_put_copy {follow : Bool} {old : ByteArray} {backup : Path} {b : Spot}
    (h : d.find follow target = .ok s) (hfound : s.found = some (.file m old))
    (hb : d.find false backup = .ok b) (hnone : b.found = none) (e : Entry) :
    (d.put b.location e).get? s.location = some (.file m old) := by
  rw [get?_put_of_ne d e (location_ne h hfound hb hnone), ← (find_spot h).1, hfound]

theorem Prepares.canPut (h : Prepares p d target change base l m) (e : Entry) :
    base.canPut l e = true := by
  cases h with
  | created hfind hnone => exact canPut_of_find hfind hnone e
  | copied _ _ hfind hfound hbackup hnone =>
    exact canPut_of_present (get?_put_copy hfind hfound hbackup hnone _) rfl e
  | overwritten _ _ hfind hfound =>
    exact canPut_of_present ((find_spot hfind).1.symm.trans hfound) rfl e
  | throughLink _ _ hfind hnone => exact canPut_of_find hfind hnone e

theorem Prepares.grows (h : Prepares p d target change base l m) (m' : Mode) (bytes : ByteArray) :
    d.Grows (base.put l (.file m' bytes)) := by
  cases h with
  | created hfind hnone => exact grows_put ((find_spot hfind).1.symm.trans hnone) _
  | copied _ _ hfind hfound hbackup hnone =>
    refine Grows.trans ?_ (grows_rewrite (get?_put_copy hfind hfound hbackup hnone _))
    exact grows_put ((find_spot hbackup).1.symm.trans hnone) _
  | overwritten _ _ hfind hfound => exact grows_rewrite ((find_spot hfind).1.symm.trans hfound)
  | throughLink _ _ hfind hnone => exact grows_put ((find_spot hfind).1.symm.trans hnone) _

-- The path leads to what is written.
theorem Prepares.find (h : Prepares p d target change base l m) (m' : Mode) (bytes : ByteArray) :
    (base.put l (.file m' bytes)).find true target = .ok ⟨l, some (.file m' bytes), false⟩ := by
  have hgrow := h.grows m' bytes
  have hentry := get?_put (h.canPut (.file m' bytes)) l
  rw [if_pos rfl] at hentry
  cases h with
  | created hfind hnone hslash =>
    exact find_followed (find_put hfind hnone (by simp) (.inr hslash)) (by simp)
  | copied _ _ hfind hfound => exact find_grow hfind hgrow hentry (by simp [hfound])
  | overwritten _ _ hfind hfound => exact find_grow hfind hgrow hentry (by simp [hfound])
  | throughLink _ _ hfind hnone hslash => exact find_put hfind hnone (by simp) (.inr hslash)

theorem lookup_eq_of_find {e : Entry} (h : d.find true target = .ok s)
    (hlookup : d.lookup target = .ok (l, e)) : s.found = some e := by
  obtain ⟨s', h', -, hfound⟩ := lookup_eq_ok_iff.mp hlookup
  obtain rfl := Except.ok.inj (h.symm.trans h')
  exact hfound

-- A file that is there already keeps its mode.
theorem Prepares.mode_eq {k : Location} {m' : Mode} {old : ByteArray}
    (h : Prepares p d target change base l m) (hlookup : d.lookup target = .ok (k, .file m' old)) :
    m = m' := by
  cases h with
  | created hfind hnone =>
    simp [lookup_eq_of_find (find_followed hfind (by simp [hnone])) hlookup] at hnone
  | copied _ _ hfind hfound =>
    cases hfound.symm.trans (lookup_eq_of_find hfind hlookup)
    rfl
  | overwritten _ _ hfind hfound =>
    cases hfound.symm.trans (lookup_eq_of_find hfind hlookup)
    rfl
  | throughLink _ _ hfind hnone => simp [lookup_eq_of_find hfind hlookup] at hnone

theorem Applies.grows (h : Applies p d target operation change d') : d.Grows d' := by
  cases h with
  | createdDir hfind hnone => exact grows_put ((find_spot hfind).1.symm.trans hnone) _
  | existingDir => exact .refl d
  | wrote h => exact h.grows _ _

theorem get?_of_put_plain {k : Location} {e e' : Entry} (h : (d.put l e).get? k = some e')
    (he : e.isPlain = true) (he' : e'.isPlain = false) : d.get? k = some e' := by
  rcases eq_or_get?_of_put h with rfl | h
  · simp [he] at he'
  · exact h

-- Links and devices are never made.
theorem Applies.old {k : Location} {e : Entry} (h : Applies p d target operation change d')
    (hget : d'.get? k = some e) (he : e.isPlain = false) : d.get? k = some e := by
  cases h with
  | createdDir => exact get?_of_put_plain hget rfl he
  | existingDir => exact hget
  | wrote h =>
    have hbase := get?_of_put_plain hget rfl he
    cases h with
    | copied => exact get?_of_put_plain hbase rfl he
    | _ => exact hbase

-- Setting the mode of a file that was just written is as good as writing it with that mode.
theorem Prepares.setMode (h : Prepares p d target change base l m) (bytes : ByteArray) (n : Nat) :
    (base.put l (.file m bytes)).setMode target n =
      .ok (base.put l (.file (Mode.ofNat n) bytes)) := by
  rw [setMode_of_find (h.find m bytes) rfl, Entry.withMode, put_put (h.canPut _) rfl]

-- What is written again is what counts.
theorem Prepares.rewrite (h : Prepares p d target change base l m) (m' : Mode)
    (bytes bytes' : ByteArray) :
    (base.put l (.file m' bytes)).writeFile target bytes' = .ok (base.put l (.file m' bytes')) := by
  rw [writeFile_of_file (h.find m' bytes) rfl, put_put (h.canPut _) rfl]

theorem Prepares.alters {d₂ : Disk} {m' : Mode} {bytes : ByteArray}
    (h : Prepares p d target change base l m)
    (halter : Alters target (base.put l (.file m' bytes)) d₂) :
    ∃ m₂ bytes₂, d₂ = base.put l (.file m₂ bytes₂) := by
  have hfile := h.find m' bytes
  have hagain (e : Entry) : (base.put l (.file m' bytes)).put l e = base.put l e :=
    put_put (h.canPut _) rfl e
  cases halter with
  | content f hchange =>
    have hput := changeFile_of_file hfile rfl f
    rw [hagain] at hput
    exact ⟨m', f bytes, Except.ok.inj (hchange.symm.trans hput)⟩
  | mode n hmode =>
    have hput := setMode_of_find hfile rfl n
    rw [hagain] at hput
    exact ⟨Mode.ofNat n, bytes, Except.ok.inj (hmode.symm.trans hput)⟩

-- By induction on the alterations: all of them are of the one file that was written.
theorem Prepares.altered {d₂ : Disk} {m' : Mode} {bytes : ByteArray}
    (h : Prepares p d target change base l m)
    (halter : ReflTransGen (Alters target) (base.put l (.file m' bytes)) d₂) :
    ∃ m₂ bytes₂, d₂ = base.put l (.file m₂ bytes₂) := by
  induction halter with
  | refl => exact ⟨m', bytes, rfl⟩
  | tail _ hlast ih =>
    obtain ⟨m₁, bytes₁, rfl⟩ := ih
    exact h.alters hlast

theorem Applies.exists_createdDir (h : Applies p d target operation .createdDir d') :
    ∃ l, Created d d' target l .newDir := by
  cases h with
  | @createdDir _ s hfind hnone =>
    obtain ⟨hget, hdir⟩ := find_spot hfind
    have hnew := find_put hfind hnone (e := .newDir) (by simp [Entry.newDir]) (.inl rfl)
    exact ⟨s.location, hget.symm.trans hnone, hdir, rfl, hnew⟩
  | wrote h => cases h

-- A change of a file, whatever it is that gets written.
theorem Prepares.created_file (h : Prepares p d target .createdFile base l m) (m' : Mode)
    (bytes : ByteArray) :
    Created d (base.put l (.file m' bytes)) target l (.file m' bytes) := by
  cases h with
  | created hfind hnone hslash =>
    obtain ⟨hget, hdir⟩ := find_spot hfind
    exact ⟨hget.symm.trans hnone, hdir, rfl, find_put hfind hnone (by simp) (.inr hslash)⟩

theorem Prepares.exists_replaced {backup : Path}
    (h : Prepares p d target (.replacedFile (some backup)) base l m) (m' : Mode)
    (bytes : ByteArray) :
    ∃ k old, Replaced d (base.put l (.file m' bytes)) target backup l k m old := by
  have hgrow := h.grows m' bytes
  have hfile := h.find m' bytes
  cases h with
  | @copied s _ old _ b _ _ hfind hfound hbackup hnone hslash =>
    have hne := location_ne hfind hfound hbackup hnone
    have hcopy := get?_put (canPut_of_find hbackup hnone (.file m old)) b.location
    rw [if_pos rfl, ← get?_put_of_ne _ (.file m' bytes) hne.symm] at hcopy
    refine ⟨b.location, old, ?_, ?_, ?_, ⟨_, _, hfile⟩, ?_⟩
    · exact (find_spot hfind).1.symm.trans hfound
    · exact (find_spot hbackup).1.symm.trans hnone
    · intro i hl hk
      rw [get?_put_of_ne _ _ hl, get?_put_of_ne _ _ hk]
    · exact find_grow hbackup hgrow hcopy fun _ => ⟨by simp, .inr hslash⟩

theorem Applies.exists_createdFile (h : Applies p d target operation .createdFile d') :
    ∃ l m content, Created d d' target l (.file m content) := by
  cases h with
  | wrote h => exact ⟨_, _, _, h.created_file _ _⟩

theorem Applies.exists_replaced {backup : Path}
    (h : Applies p d target operation (.replacedFile (some backup)) d') :
    ∃ l k m old, Replaced d d' target backup l k m old := by
  cases h with
  | wrote h =>
    obtain ⟨k, old, hreplaced⟩ := h.exists_replaced _ _
    exact ⟨_, k, _, old, hreplaced⟩

end

section Sound

variable (p : Policy) {d : Disk} (target : Path)

-- What becomes of a disk: a success does what `q` says, and a failure does nothing.
def AllOrNothing {α : Type} (d : Disk) (q : α → Disk → Prop) : Disk × Except Failure α → Prop
  | (d', .ok a) => q a d'
  | (d', .error _) => d' = d

theorem AllOrNothing.imp {α : Type} {q q' : α → Disk → Prop} {result : Disk × Except Failure α}
    (h : AllOrNothing d q result) (hq : ∀ a d', q a d' → q' a d') : AllOrNothing d q' result := by
  obtain ⟨d', result⟩ := result
  cases result with
  | ok a => exact hq a d' h
  | error failure => exact h

def Copies (d : Disk) (content : ByteArray) (mode : Mode) (backup : Path) (d' : Disk) : Prop :=
  ∃ b, d.find false backup = .ok b ∧ b.found = none ∧ b.wantsDir = false ∧
    d' = d.put b.location (.file mode content)

-- A file that was just made is filled, or else it can be taken away again.
theorem fill_made {w : Writer} (hw : Faithful w) {backup : Path} {b : Spot}
    (h : d.find false backup = .ok b) (hnone : b.found = none) (hslash : b.wantsDir = false)
    (content : ByteArray) (mode : Mode) :
    let made := d.put b.location (.newFile .empty)
    fill w made backup content mode = (d.put b.location (.file mode content), .ok ()) ∨
      ∃ d' fault, fill w made backup content mode = (d', .error fault) ∧
        d'.removeFile backup = .ok d := by
  intro made
  have hnew : Prepares ⟨true, true⟩ d backup .createdFile d b.location 0o644 :=
    .created h hnone hslash
  have halter := hw.alters made backup content
  cases hwrite : w made backup content with
  | mk d' result =>
    cases result with
    | ok =>
      left
      have hmode := hnew.setMode content mode
      rw [Mode.ofNat_val] at hmode
      obtain rfl := Except.ok.inj
        ((hw.written _ _ _ _ hwrite).symm.trans (hnew.rewrite 0o644 .empty content))
      simp only [fill, hwrite, hmode, attempt]
    | error fault =>
      right
      rw [hwrite] at halter
      obtain ⟨m, bytes, rfl⟩ := hnew.altered halter
      obtain ⟨hfree, hdir, -, hfile⟩ := hnew.created_file m bytes
      refine ⟨d.put b.location (.file m bytes), fault, by simp only [fill, hwrite], ?_⟩
      rw [removeFile_of_find hfile rfl rfl, remove_put hfree hdir]

theorem fill_store {backup : Path} {b : Spot} (h : d.find false backup = .ok b)
    (hnone : b.found = none) (hslash : b.wantsDir = false) (content : ByteArray) (mode : Mode) :
    fill store (d.put b.location (.newFile .empty)) backup content mode =
      (d.put b.location (.file mode content), .ok ()) := by
  have hnew : Prepares ⟨true, true⟩ d backup .createdFile d b.location 0o644 :=
    .created h hnone hslash
  have hmode := hnew.setMode content mode
  rw [Mode.ofNat_val] at hmode
  simp only [fill, store, Entry.newFile, hnew.rewrite, hmode, attempt]

-- A name that is taken is passed over, whatever stands there.
theorem copyFrom_of_taken (w : Writer) {b : Spot} {attempt : Nat}
    (h : d.find false (backupPath target attempt) = .ok b) (hsome : b.found.isSome = true)
    (content : ByteArray) (mode : Mode) (left : Nat) :
    copyFrom w d target content mode attempt (left + 1) =
      copyFrom w d target content mode (attempt + 1) left := by
  have hcreate : d.createFile (backupPath target attempt) = .error .alreadyExists := by
    simp [createFile, h, hsome, bind, Except.bind]
  rw [copyFrom, hcreate]

theorem copyFrom_of_free {b : Spot} {attempt : Nat}
    (h : d.find false (backupPath target attempt) = .ok b) (hnone : b.found = none)
    (hslash : b.wantsDir = false) (content : ByteArray) (mode : Mode) (left : Nat) :
    copyFrom store d target content mode attempt (left + 1) =
      (d.put b.location (.file mode content), .ok (backupPath target attempt)) := by
  have hcreate := createFile_eq_ok_iff.mpr ⟨b, h, hnone, hslash, rfl⟩
  simp only [copyFrom, hcreate, fill_store h hnone hslash]

theorem copyFrom_sound {w : Writer} (hw : Faithful w) (d : Disk) (target : Path)
    (content : ByteArray) (mode : Mode) (attempt left : Nat) :
    AllOrNothing d (Copies d content mode) (copyFrom w d target content mode attempt left) := by
  induction left generalizing attempt with
  | zero => rfl
  | succ left ih =>
    cases hcreate : d.createFile (backupPath target attempt) with
    | error fault =>
      rw [copyFrom, hcreate]
      cases fault
      case alreadyExists => exact ih (attempt + 1)
      all_goals rfl
    | ok made =>
      obtain ⟨b, hfind, hnone, hslash, rfl⟩ := createFile_eq_ok_iff.mp hcreate
      rcases fill_made hw hfind hnone hslash content mode with hfill | ⟨d', fault, hfill, hremove⟩
      · simp only [copyFrom, hcreate, hfill]
        exact ⟨b, hfind, hnone, hslash, rfl⟩
      · simp only [copyFrom, hcreate, hfill, hremove]
        rfl

theorem backUp_sound {w : Writer} (hw : Faithful w) (d : Disk) (target : Path) :
    AllOrNothing d (fun backup d' => ∃ content mode, d.openFile target = .ok (content, mode) ∧
      Copies d content mode backup d') (backUp w d target) := by
  unfold backUp
  cases d.openFile target with
  | error fault => rfl
  | ok file =>
    obtain ⟨content, mode⟩ := file
    exact (copyFrom_sound hw d target content mode 0 maxBackups).imp fun backup d' hcopy =>
      ⟨content, mode, rfl, hcopy⟩

theorem makeDir_sound (path : Path) :
    AllOrNothing d (Applies p d target (.makeDir path)) (makeDir d target) := by
  unfold makeDir
  cases hmake : d.makeDir target with
  | ok d' =>
    obtain ⟨s, hfind, hnone, rfl⟩ := makeDir_eq_ok hmake
    exact .createdDir hfind hnone
  | error fault =>
    cases fault
    case alreadyExists =>
      cases hlookup : d.lookup target with
      | error fault => rfl
      | ok found =>
        obtain ⟨l, e⟩ := found
        obtain ⟨s, hfind, -, hfound⟩ := lookup_eq_ok_iff.mp hlookup
        cases e with
        | dir m => exact .existingDir hfind hfound
        | _ => rfl
    all_goals rfl

def BacksUp (p : Policy) (d : Disk) (target : Path) : Option Path → Disk → Prop
  | none, d' => p.backups = false ∧ d' = d
  | some backup, d' => p.backups = true ∧ ∃ s m old, d.find true target = .ok s ∧
      s.found = some (.file m old) ∧ Copies d old m backup d'

theorem prepareBackup_sound {w : Writer} (hw : Faithful w) (hd : d.DeviceFree) :
    AllOrNothing d (BacksUp p d target) (prepareBackup w p d target) := by
  unfold prepareBackup
  by_cases hbackups : p.backups = true
  · rw [if_pos hbackups]
    have hcopy := backUp_sound hw d target
    cases hresult : backUp w d target with
    | mk d' result =>
      rw [hresult] at hcopy
      cases result with
      | error failure => exact hcopy
      | ok backup =>
        obtain ⟨old, m, hopen, hcopies⟩ := hcopy
        obtain ⟨s, hfind, hfound⟩ := openFile_eq_ok hd hopen
        exact ⟨hbackups, s, m, old, hfind, hfound, hcopies⟩
  · rw [if_neg hbackups]
    exact ⟨by simpa using hbackups, rfl⟩

-- The end of writing a file: what was changed before counts only if the content got there.
def settled (w : Writer) (d : Disk) (target : Path) (content : ByteArray) (change : Change) :
    Disk × Except Failure Change :=
  settle (w d target content).1 target change ((w d target content).2.mapError (.io target))

-- One rule for each way in which a file is written: it is refused, a file that is ready for it is
-- filled, or what is there is written over without a copy.
inductive Writes (w : Writer) (p : Policy) (d : Disk) (target : Path) (content : ByteArray) :
    Disk × Except Failure Change → Prop where
  | refused (failure : Failure) : Writes w p d target content (d, .error failure)
  | filled {change base l m bytes} (h : Prepares p d target change base l m) :
      Writes w p d target content (settled w (base.put l (.file m bytes)) target content change)
  | uncopied (hoverwrite : p.overwrite = true) (hbackups : p.backups = false) :
      Writes w p d target content (settled w d target content (.replacedFile none))

theorem replaceFile_writes {w : Writer} (hw : Faithful w) (hd : d.DeviceFree)
    (content : ByteArray) : Writes w p d target content (replaceFile w p d target content) := by
  unfold replaceFile
  by_cases hoverwrite : p.overwrite = true
  · rw [if_neg (by simp [hoverwrite])]
    have hprepare := prepareBackup_sound p target hw hd
    cases hresult : prepareBackup w p d target with
    | mk base result =>
      rw [hresult] at hprepare
      cases result with
      | error failure =>
        obtain rfl : base = d := hprepare
        exact .refused failure
      | ok backup =>
        cases backup with
        | none =>
          obtain ⟨hbackups, hsame⟩ := hprepare
          subst base
          exact .uncopied hoverwrite hbackups
        | some backup =>
          obtain ⟨hbackups, s, m, old, hfind, hfound, b, hb, hnone, hslash, rfl⟩ := hprepare
          have hready : Prepares p d target (.replacedFile (some backup)) _ _ m :=
            .copied hoverwrite hbackups hfind hfound hb hnone hslash
          -- the file is still there as it was
          have hsame := put_of_get? (get?_put_copy hfind hfound hb hnone (.file m old)) rfl
          rw [← hsame]
          exact .filled hready
  · rw [if_pos (by simpa using hoverwrite)]
    exact .refused _

theorem writeFile_writes {w : Writer} (hw : Faithful w) (hd : d.DeviceFree)
    (content : ByteArray) : Writes w p d target content (writeFile w p d target content) := by
  have hreplace := replaceFile_writes p target hw hd content
  unfold writeFile
  cases hlookup : d.lookup target with
  | ok found =>
    obtain ⟨l, e⟩ := found
    cases e with
    | dir m => exact .refused _
    | _ => exact hreplace
  | error fault =>
    cases fault
    case notFound =>
      cases hcreate : d.createFile target with
      | ok made =>
        obtain ⟨s, hfind, hnone, hslash, rfl⟩ := createFile_eq_ok_iff.mp hcreate
        exact .filled (.created hfind hnone hslash)
      | error fault =>
        cases fault
        case alreadyExists => exact hreplace
        all_goals exact .refused _
    all_goals exact .refused _

theorem writeFile_sound (hd : d.DeviceFree) (path : Path) (content : String) :
    AllOrNothing d (Applies p d target (.writeFile path content none))
      (writeFile store p d target content.toUTF8) := by
  have hwrites := writeFile_writes p target faithful_store hd content.toUTF8
  generalize writeFile store p d target content.toUTF8 = result at hwrites ⊢
  cases hwrites with
  | refused failure => rfl
  | filled h =>
    simp only [settled, store, h.rewrite, attempt, Except.mapError, settle]
    exact .wrote h
  | uncopied hoverwrite hbackups =>
    cases hwrite : d.writeFile target content.toUTF8 with
    | error fault =>
      simp only [settled, store, hwrite, attempt, Except.mapError, settle, revert]
      rfl
    | ok d' =>
      simp only [settled, store, hwrite, attempt, Except.mapError, settle]
      obtain ⟨s, hfind, ⟨hnone, hslash, rfl⟩ | ⟨m, old, hfound, rfl⟩⟩ := writeFile_eq_ok hd hwrite
      · exact .wrote (.throughLink hoverwrite hbackups hfind hnone hslash)
      · exact .wrote (.overwritten hoverwrite hbackups hfind hfound)

theorem apply_sound (hd : d.DeviceFree) (operation : Operation) :
    AllOrNothing d (Applies p d target operation) (apply p d target operation) := by
  cases operation with
  | makeDir path => exact makeDir_sound p target path
  | writeFile path content mode =>
    have hwrite := writeFile_sound p target hd path content
    simp only [apply]
    cases hresult : writeFile store p d target content.toUTF8 with
    | mk d' result =>
      rw [hresult] at hwrite
      cases result with
      | error failure => exact hwrite
      | ok change =>
        cases mode with
        | none => exact hwrite
        | some n =>
          cases hwrite with
          | wrote h =>
            have hmode := h.setMode content.toUTF8 n
            simp only [modeOf, Option.map_none, Option.getD_none, hmode, attempt, settle,
              Except.mapError]
            exact .wrote h

end Sound

end Skeleton.Execution
