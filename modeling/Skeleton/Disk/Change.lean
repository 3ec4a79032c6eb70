import Skeleton.Disk.Basic

-- What differs between two disks, in an order in which one can be made from the other.

namespace Skeleton

namespace Entry

def isSame : Entry → Entry → Bool
  | dir m, dir n => m = n
  | file m content, file n other => m = n && content.data = other.data
  | link target, link other => target = other
  | device m isFull, device n other => m = n && isFull = other
  | _, _ => false

def canBecome : Entry → Entry → Bool
  | dir _, dir _ => true
  | file _ _, file _ _ => true
  | old, new => old.isSame new

end Entry

-- What was at a location before comes with what is put there, if it can become that.
inductive Disk.Change where
  | remove (l : Location) (before : Entry)
  | put (l : Location) (before : Option Entry) (after : Entry)

namespace Disk

-- What has to go, the deepest first.
def removals (before after : Disk) : List Change :=
  (before.entries.entries.filter fun (l, e) =>
    !(after.entries.get? l).any e.canBecome).reverse.map fun (l, e) => .remove l e

-- What has to be put, the highest first.
def additions (before after : Disk) : List Change :=
  after.entries.entries.filterMap fun (l, e) =>
    let old := before.entries.get? l
    if old.any fun old => old.isSame e then none
    else some (.put l (old.filter fun old => old.canBecome e) e)

def changes (before after : Disk) : List Change :=
  removals before after ++ additions before after

end Disk

end Skeleton
