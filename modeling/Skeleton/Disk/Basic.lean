import Skeleton.Dictionary
import Skeleton.Path

-- Disks: what stands at which location, and where relative paths start. Every entry stands in a
-- directory, up to the root, which is always there.

namespace Skeleton

-- Permissions: twelve bits.
abbrev Mode := Fin 0o10000

-- Every mode that is written as a number needs this, with the zero that `Fin` asks for.
instance Mode.neZero : @NeZero Nat Zero.ofOfNat0 0o10000 := ⟨Nat.succ_ne_zero _⟩

-- The permissions in a number, whose other bits do not count.
def Mode.ofNat (n : Nat) : Mode := Fin.ofNat 0o10000 n

@[simp]
theorem Mode.ofNat_val (m : Mode) : Mode.ofNat m = m := Fin.ofNat_val_eq_self m

-- A link holds a path. A device takes what is written to it, or has no space for any of it.
inductive Entry where
  | dir (mode : Mode)
  | file (mode : Mode) (content : ByteArray)
  | link (target : Path)
  | device (mode : Mode) (isFull : Bool)

namespace Entry

def isDir : Entry → Bool
  | dir _ => true
  | _ => false

def mode : Entry → Mode
  | dir m => m
  | file m _ => m
  | link _ => 0o777
  | device m _ => m

def withMode (m : Mode) : Entry → Entry
  | dir _ => dir m
  | file _ content => file m content
  | link target => link target
  | device _ isFull => device m isFull

end Entry

-- The modes of what is made without a mode of its own.
def Entry.newDir : Entry := .dir 0o755

def Entry.newFile (content : ByteArray) : Entry := .file 0o644 content

-- The names from the root down.
abbrev Location := List String

def dirAt (entries : Dictionary Location Entry) (l : Location) : Bool :=
  l = [] || (entries.get? l).any Entry.isDir

structure Disk where
  entries : Dictionary Location Entry
  cwd : Location
  rooted : ∀ l, (entries.get? l).isSome = true → l ≠ [] ∧ dirAt entries l.dropLast = true

namespace Disk

def get? (d : Disk) (l : Location) : Option Entry :=
  if l = [] then some .newDir else d.entries.get? l

def isPlaced (d : Disk) (l : Location) : Bool := l ≠ [] && dirAt d.entries l.dropLast

-- Whether an entry can take the place of what stands at a location. What is in a directory needs
-- the directory.
def canPut (d : Disk) (l : Location) (e : Entry) : Bool :=
  d.isPlaced l && (e.isDir || !(d.entries.get? l).any Entry.isDir)

theorem rooted_insert {d : Disk} {l : Location} {e : Entry} (h : d.canPut l e = true) :
    ∀ k, ((d.entries.insert l e).get? k).isSome = true →
      k ≠ [] ∧ dirAt (d.entries.insert l e) k.dropLast = true := by
  simp only [canPut, isPlaced, Bool.and_eq_true, decide_eq_true_eq, Bool.or_eq_true,
    Bool.not_eq_true'] at h
  obtain ⟨⟨hl, hparent⟩, hkind⟩ := h
  have keeps : ∀ k, dirAt d.entries k = true → dirAt (d.entries.insert l e) k = true := by
    intro k hk
    simp only [dirAt, Bool.or_eq_true, decide_eq_true_eq] at hk ⊢
    refine hk.imp_right fun hk => ?_
    rw [Dictionary.get?_insert]
    split
    · rename_i hkl
      subst hkl
      rcases hkind with hkind | hkind
      · simpa using hkind
      · simp [hk] at hkind
    · exact hk
  intro k hk
  rw [Dictionary.get?_insert] at hk
  split at hk
  · rename_i hkl
    subst hkl
    exact ⟨hl, keeps _ hparent⟩
  · obtain ⟨hne, hdir⟩ := d.rooted k hk
    exact ⟨hne, keeps _ hdir⟩

def put (d : Disk) (l : Location) (e : Entry) : Disk :=
  if h : d.canPut l e = true then ⟨d.entries.insert l e, d.cwd, rooted_insert h⟩ else d

def isBare (d : Disk) (l : Location) : Bool := d.entries.keys.all fun k => k.dropLast != l || k = []

theorem rooted_erase {d : Disk} {l : Location} (h : d.isBare l = true) :
    ∀ k, ((d.entries.erase l).get? k).isSome = true →
      k ≠ [] ∧ dirAt (d.entries.erase l) k.dropLast = true := by
  intro k hk
  rw [Dictionary.get?_erase] at hk
  split at hk
  · simp at hk
  · obtain ⟨hne, hdir⟩ := d.rooted k hk
    refine ⟨hne, ?_⟩
    have hbare := List.all_eq_true.mp h k (Dictionary.mem_keys_of_get? hk)
    simp only [bne_iff_ne, ne_eq, Bool.or_eq_true, decide_eq_true_eq, hne, or_false] at hbare
    simp only [dirAt, Bool.or_eq_true, decide_eq_true_eq] at hdir ⊢
    refine hdir.imp_right fun hdir => ?_
    rwa [Dictionary.get?_erase, if_neg (Ne.symm hbare)]

-- Takes away what stands at a location, unless something stands in it.
def remove (d : Disk) (l : Location) : Disk :=
  if h : d.isBare l = true then ⟨d.entries.erase l, d.cwd, rooted_erase h⟩ else d

theorem rooted_empty :
    ∀ l, ((Dictionary.empty : Dictionary Location Entry).get? l).isSome = true →
      l ≠ [] ∧ dirAt .empty l.dropLast = true := by
  intro l h
  simp at h

def blank : Disk := ⟨.empty, [], rooted_empty⟩

def withDirs (d : Disk) (l : Location) : Disk :=
  ((List.range (l.length + 1)).map l.take).foldl
    (fun d k => if (d.get? k).isSome then d else d.put k .newDir) d

-- A disk with an empty working directory and the devices.
def fresh (cwd : Location) : Disk :=
  let d := (blank.withDirs cwd).withDirs ["dev"]
  let d := d.put ["dev", "null"] (.device 0o666 false)
  let d := d.put ["dev", "full"] (.device 0o666 true)
  { d with cwd }

def namesIn (d : Disk) (l : Location) : List String :=
  d.entries.keys.filterMap fun k => if k ≠ [] ∧ k.dropLast = l then k.getLast? else none

-- The entries in a location and deeper, with their ways from there.
def below (d : Disk) (l : Location) : List (Location × Entry) :=
  d.entries.entries.filterMap fun (k, e) =>
    if l.isPrefixOf k && k != l then some (k.drop l.length, e) else none

end Disk

end Skeleton
