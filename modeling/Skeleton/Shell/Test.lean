import Skeleton.Disk.Lookup
import Skeleton.Text.Digits

-- Questions about texts, numbers and files.

namespace Skeleton.Shell

def testOne (d : Disk) (question s : String) : Option Bool :=
  let entry := (d.lookup (.ofText s)).toOption.map Prod.snd
  let ofFile (p : Nat → ByteArray → Bool) : Option Bool :=
    match entry with
    | some (.file mode content) => some (p mode content)
    | _ => some false
  match question with
  | "-n" => some (!s.isEmpty)
  | "-z" => some s.isEmpty
  | "-e" => some entry.isSome
  | "-r" => some entry.isSome
  | "-w" => some entry.isSome
  | "-d" => some (entry.any Entry.isDir)
  | "-f" => ofFile fun _ _ => true
  | "-s" => if entry.any Entry.isDir then some true else ofFile fun _ content => !content.isEmpty
  | "-x" => some (entry.any fun e => e.isDir || e.mode &&& 0o111 ≠ 0)
  | "-L" => testLink d s
  | "-h" => testLink d s
  | _ => none
where
  testLink (d : Disk) (s : String) : Option Bool :=
    match d.find false (.ofText s) with
    | .ok ⟨_, some (.link _), _⟩ => some true
    | _ => some false

def compareInts (question : String) (a b : Int) : Option Bool :=
  match question with
  | "-eq" => some (a == b)
  | "-ne" => some (a != b)
  | "-lt" => some (a < b)
  | "-le" => some (a ≤ b)
  | "-gt" => some (a > b)
  | "-ge" => some (a ≥ b)
  | _ => none

-- Answers a question about two texts, which may have to be numbers.
def testTwo (question a b : String) : Option (Except String Bool) :=
  if question = "=" then some (.ok (a = b))
  else if question = "!=" then some (.ok (a ≠ b))
  else if (compareInts question 0 0).isNone then none
  else
    match Text.readInt? 10 a.toList, Text.readInt? 10 b.toList with
    | some m, some n => (compareInts question m n).map .ok
    | none, _ => some (.error ("Illegal number: " ++ a))
    | _, none => some (.error ("Illegal number: " ++ b))

def test (d : Disk) : List String → Except String Bool
  | [] => .ok false
  | [a] => .ok (!a.isEmpty)
  | [question, a] =>
    if question = "!" then .ok a.isEmpty
    else
      match testOne d question a with
      | some b => .ok b
      | none => .error (question ++ ": unexpected operator")
  | [a, question, b] =>
    match testTwo question a b with
    | some answer => answer
    | none =>
      if a = "!" then (test d [question, b]).map not
      else if question = "-a" then .ok (!a.isEmpty && !b.isEmpty)
      else if question = "-o" then .ok (!a.isEmpty || !b.isEmpty)
      else .error (question ++ ": unexpected operator")
  | a :: rest =>
    if a = "!" then (test d rest).map not else testChain d (a :: rest) (rest.length + 1)
where
  -- Questions of two or three words between `-a` and `-o`.
  testChain (d : Disk) (words : List String) : Nat → Except String Bool
    | 0 => .ok false
    | fuel + 1 =>
      let first := words.takeWhile fun w => w ≠ "-a" && w ≠ "-o"
      if first.length = words.length then .error (words.headD "" ++ ": unexpected operator")
      else do
        let answer ←
          match first with
          | [a] => .ok (!a.isEmpty)
          | [question, a] => .ok ((testOne d question a).getD false)
          | [a, question, b] => (testTwo question a b).getD (.ok false)
          | _ => .error (words.headD "" ++ ": unexpected operator")
        let rest := words.drop (first.length + 1)
        let more ← if rest.length ≤ 3 then testShort d rest else testChain d rest fuel
        .ok (if words[first.length]? = some "-a" then answer && more else answer || more)
  testShort (d : Disk) : List String → Except String Bool
    | [a] => .ok (!a.isEmpty)
    | [question, a] => .ok ((testOne d question a).getD false)
    | [a, question, b] => (testTwo question a b).getD (.ok false)
    | _ => .ok false

end Skeleton.Shell
