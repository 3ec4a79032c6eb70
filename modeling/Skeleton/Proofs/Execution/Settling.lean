import Skeleton.Proofs.Execution.Rollback

-- Steps that fail after a file was written. Whatever they made of the file, its change is taken
-- back and the disk is as it was before.

namespace Skeleton.Execution

open Disk
open Relation (ReflTransGen)

variable {p : Policy} {d d' d₁ d₂ base : Disk} {target : Path} {change : Change} {l : Location}
  {m m' : Mode} {bytes : ByteArray}

-- Without overwriting nothing is replaced, and with backups nothing without a copy.
theorem Prepares.ne_replaced_none (h : Prepares p d target change base l m)
    (hpolicy : p.overwrite = false ∨ p.backups = true) : change ≠ .replacedFile none := by
  rintro rfl
  cases h with
  | overwritten hoverwrite hbackups | throughLink hoverwrite hbackups =>
    rcases hpolicy with hpolicy | hpolicy
    · simp [hoverwrite] at hpolicy
    · simp [hbackups] at hpolicy

theorem Prepares.linkFree_put (h : Prepares p d target change base l m) (hd : d.LinkFree)
    (m' : Mode) (bytes : ByteArray) : (base.put l (.file m' bytes)).LinkFree := by
  intro k link hk
  have hbase := get?_of_put_plain hk rfl rfl
  cases h with
  | copied => exact hd k link (get?_of_put_plain hbase rfl rfl)
  | _ => exact hd k link hbase

-- Whatever has become of the file, the change of it is taken back.
theorem Prepares.settle_altered (h : Prepares p d target change base l m) (hd : d.LinkFree)
    (hpolicy : p.overwrite = false ∨ p.backups = true)
    (halter : ReflTransGen (Alters target) (base.put l (.file m' bytes)) d₂) (failure : Failure) :
    settle d₂ target change (.error failure) = (d, .error failure) := by
  obtain ⟨m₂, bytes₂, rfl⟩ := h.altered halter
  have hlinks := h.linkFree_put hd m₂ bytes₂
  have hrevert := h.revert_put m₂ bytes₂ fun backup hbackup => by
    constructor
    · rintro rfl
      exact h.ne_replaced_none hpolicy hbackup
    · rintro ⟨s, link, hfind, hfound⟩
      exact hlinks s.location link ((find_spot hfind).1.symm.trans hfound)
  simp only [settle, hrevert]
  rfl

-- When the step after a file was written fails, the disk is the one before the file was written,
-- whatever has become of the file in between.
theorem settle_of_alters (hd : d.Plain) (hpolicy : p.overwrite = false ∨ p.backups = true)
    {content : String} (hwrite : writeFile store p d target content.toUTF8 = (d₁, .ok change))
    (halter : ReflTransGen (Alters target) d₁ d₂) (failure : Failure) :
    settle d₂ target change (.error failure) = (d, .error failure) := by
  have hsound := writeFile_sound p target hd.deviceFree target content
  rw [hwrite] at hsound
  cases hsound with
  | wrote h => exact h.settle_altered hd.linkFree hpolicy halter failure

-- A file beside which the first two names for a copy are taken, and the disk after a failure in the
-- middle of writing it.
def crowded : Disk :=
  (noted.put ["a.bak"] (.file 0o644 "older".toUTF8)).put ["a.bak.1"] .newDir

def overCrowded : Disk := (writeFile store ⟨true, true⟩ crowded ⟨["", "a"]⟩ "new".toUTF8).1

def torn : Disk := overCrowded.put ["a"] (.file 0o600 "ne".toUTF8)

theorem plain_crowded : crowded.Plain := (plain_noted.put rfl).put rfl

theorem settle_of_alters_crowded :
    let target : Path := ⟨["", "a"]⟩
    let change : Change := .replacedFile (some ⟨["", "a.bak.2"]⟩)
    let left := torn.put ["a"] (.file 0o7777 "ne".toUTF8)
    writeFile store ⟨true, true⟩ crowded target "new".toUTF8 = (overCrowded, .ok change) ∧
      ReflTransGen (Alters target) overCrowded left ∧
      settle left target change (.error .cancelled) = (crowded, .error .cancelled) := by
  intro target change left
  have hwrite : writeFile store ⟨true, true⟩ crowded target "new".toUTF8 = (overCrowded, .ok change) :=
    Prod.ext rfl (by cbv)
  have hwhole : overCrowded.find true target =
      .ok ⟨["a"], some (.file 0o600 "new".toUTF8), false⟩ := by cbv
  have htorn : torn.find true target = .ok ⟨["a"], some (.file 0o600 "ne".toUTF8), false⟩ := by
    cbv
  have halter : ReflTransGen (Alters target) overCrowded left :=
    .tail (.single (.content _ (changeFile_of_file hwhole rfl fun _ => "ne".toUTF8)))
      (.mode _ (setMode_of_find htorn rfl 0o7777))
  exact ⟨hwrite, halter, settle_of_alters plain_crowded (.inr rfl) hwrite halter .cancelled⟩

section Faults

variable {w : Writer} {content : ByteArray} {failure : Failure}

-- A file that cannot be written whole leaves nothing behind, however much of it was written.
theorem writeFile_eq_error (hw : Faithful w) (hd : d.Plain)
    (hpolicy : p.overwrite = false ∨ p.backups = true)
    (h : writeFile w p d target content = (d', .error failure)) : d' = d := by
  have hwrites := writeFile_writes p target hw hd.deviceFree content
  rw [h] at hwrites
  generalize hresult : (d', Except.error failure) = result at hwrites
  cases hwrites with
  | refused => exact (Prod.mk.inj hresult).1
  | @filled _ base l m bytes hready =>
    have halter := hw.alters (base.put l (.file m bytes)) target content
    unfold settled at hresult
    cases hwritten : (w (base.put l (.file m bytes)) target content).2 with
    | ok =>
      rw [hwritten] at hresult
      cases (Prod.mk.inj hresult).2
    | error fault =>
      rw [hwritten, Except.mapError, hready.settle_altered hd.linkFree hpolicy halter] at hresult
      exact (Prod.mk.inj hresult).1
  | uncopied hoverwrite hbackups => simp [hoverwrite, hbackups] at hpolicy

-- A writer on a disk with room for so many bytes more.
def storeUpTo (room : Nat) : Writer := fun d p content =>
  match d.writeFile p (content.extract 0 room) with
  | .ok d => (d, if content.size ≤ room then .ok () else .error .noSpace)
  | .error fault => (d, .error fault)

theorem faithful_storeUpTo (room : Nat) : Faithful (storeUpTo room) where
  alters d target content := by
    unfold storeUpTo
    cases hwrite : d.writeFile target (content.extract 0 room) with
    | ok d' => exact .single (.content (fun _ => content.extract 0 room) hwrite)
    | error fault => exact .refl
  written d target content d' h := by
    unfold storeUpTo at h
    cases hwrite : d.writeFile target (content.extract 0 room) with
    | ok d'' =>
      rw [hwrite] at h
      obtain ⟨rfl, hroom⟩ := Prod.mk.inj h
      split at hroom
      · rename_i hsize
        have hwhole : content.extract 0 room = content := by
          apply ByteArray.ext
          simp [ByteArray.data_extract, hsize]
        rwa [hwhole] at hwrite
      · cases hroom
    | error fault =>
      rw [hwrite] at h
      cases (Prod.mk.inj h).2

-- There is room for the copy but not for what replaces the file.
example : (writeFile (storeUpTo 3) ⟨true, true⟩ crowded ⟨["", "a"]⟩ "newer".toUTF8).1 = crowded := by
  have hfails : (writeFile (storeUpTo 3) ⟨true, true⟩ crowded ⟨["", "a"]⟩ "newer".toUTF8).2 =
      .error (.io ⟨["", "a"]⟩ .noSpace) := by cbv
  exact writeFile_eq_error (faithful_storeUpTo 3) plain_crowded (.inr rfl) (Prod.ext rfl hfails)

end Faults

end Skeleton.Execution
