import Skeleton.Shell.Script
import Skeleton.Shell.State

-- Words made into the texts that they stand for.

namespace Skeleton.Shell

-- What comes of the pieces of a word. A gap ends a text; quotes make one even if it is empty.
inductive Bit where
  | char (c : Char) (quoted : Bool)
  | quotes
  | gap
  deriving DecidableEq

-- A text, some of whose characters are quoted.
abbrev Field := List (Char × Bool)

def Field.text (f : Field) : String := String.ofList (f.map Prod.fst)

-- The bits of a text. Blanks separate unless they are quoted.
def bitsOf (quoted : Bool) (text : String) : List Bit :=
  if quoted then .quotes :: text.toList.map fun c => .char c true
  else text.toList.map fun c => if c = ' ' || c = '\t' || c = '\n' then .gap else .char c false

def shellNumber : String := "4321"

def State.parameter (s : State) (name : String) : String :=
  if name = "?" then Text.decimal s.status
  else if name = "$" then shellNumber
  else if name = "#" then Text.decimal s.args.length
  else if name = "PWD" then (Disk.pathOf s.disk.cwd).text
  else
    match Text.readNat? 10 name.toList with
    | some 0 => s.name
    | some (n + 1) => s.args[n]?.getD ""
    | none => (s.bindings.get? name).getD ""

def State.hasParameter (s : State) (name : String) : Bool :=
  match Text.readNat? 10 name.toList with
  | some 0 => true
  | some (n + 1) => n < s.args.length
  | none => ["?", "$", "#", "PWD"].contains name || s.bindings.contains name

-- The bits of a parameter. All arguments together stay apart, unless they are quoted as one.
def State.parameterBits (s : State) (name : String) (quoted : Bool) : List Bit :=
  if name = "@" || (name = "*" && !quoted) then
    (s.args.map (bitsOf quoted)).intersperse [.gap] |>.flatten
  else if name = "*" then bitsOf quoted (" ".intercalate s.args)
  else bitsOf quoted (s.parameter name)

def withoutLastBreaks (s : String) : String :=
  String.ofList (Text.dropEndWhile (· = '\n') s.toList)

-- The bits of a word. `run` runs a script for its output.
def bits (run : List Char → State → State) (s : State) : Word → State × List Bit
  | [] => (s, [])
  | piece :: rest =>
    let (s, first) :=
      match piece with
      | .char c quoted => (s, [.char c quoted])
      | .emptyQuotes => (s, [.quotes])
      | .parameter name none quoted => (s, s.parameterBits name quoted)
      | .parameter name (some f) quoted =>
        let isMissing := !s.hasParameter name || f.emptyCounts && (s.parameter name).isEmpty
        (s, if f.ifMissing = isMissing then bitsOf quoted f.text
          else if f.ifMissing then s.parameterBits name quoted
          else [])
      | .output source quoted =>
        let (s, bytes) := s.capture (run source)
        (s, bitsOf quoted (withoutLastBreaks (Text.ofBytes bytes)))
    let (s, more) := bits run s rest
    (s, first ++ more)

-- The texts between gaps. `current` is the one that is being made.
def fieldsFrom (current : Option Field) : List Bit → List Field
  | [] => current.toList
  | .gap :: rest => current.toList ++ fieldsFrom none rest
  | .quotes :: rest => fieldsFrom (some (current.getD [])) rest
  | .char c quoted :: rest => fieldsFrom (some (current.getD [] ++ [(c, quoted)])) rest

def Field.isPattern (f : Field) : Bool := f.contains ('*', false) || f.contains ('?', false)

def fits : Field → List Char → Bool
  | [], cs => cs.isEmpty
  | (c, quoted) :: pattern, cs =>
    if c = '*' && !quoted then
      fits pattern cs ||
        match cs with
        | [] => false
        | _ :: rest => fits ((c, quoted) :: pattern) rest
    else
      match cs with
      | [] => false
      | d :: rest => ((c = '?' && !quoted) || c = d) && fits pattern rest
termination_by pattern cs => pattern.length + cs.length

def patternOf (w : Word) : Field :=
  w.filterMap fun
    | .char c quoted => some (c, quoted)
    | _ => none

def namesAt (d : Disk) (path : String) : List String :=
  match d.lookup (.ofText path) with
  | .ok (l, .dir _) => d.namesIn l
  | _ => []

-- The names that fit a part of a pattern. Hidden ones need a dot.
def fittingNames (d : Disk) (dir : String) (part : Field) : List String :=
  (namesAt d (if dir.isEmpty then "." else dir)).filter fun name =>
    fits part name.toList && (name.toList.head? ≠ some '.' || part.head?.map Prod.fst = some '.')

-- Whether something stands at a path, even a link to nothing.
def stands (d : Disk) (p : Path) : Bool :=
  ((d.find false p).toOption.bind Disk.Spot.found).isSome

def fittingPaths (d : Disk) (dir : String) : List Field → List String
  | [] => []
  | part :: rest =>
    let names := if part.isPattern then fittingNames d dir part else [part.text]
    let paths := names.map (dir ++ ·)
    if rest.isEmpty then paths.filter fun p => stands d (.ofText p)
    else paths.flatMap fun p => fittingPaths d (p ++ "/") rest

def Field.parts : Field → List Field
  | [] => [[]]
  | (c, quoted) :: rest =>
    match Field.parts rest with
    | [] => [[(c, quoted)]]
    | part :: parts => if c = '/' then [] :: part :: parts else ((c, quoted) :: part) :: parts

-- The paths that a pattern stands for, or else itself.
def Field.texts (d : Disk) (f : Field) : List String :=
  if f.isPattern then
    match fittingPaths d "" f.parts with
    | [] => [f.text]
    | paths => paths
  else [f.text]

def expand (run : List Char → State → State) (s : State) (w : Word) : State × List String :=
  let (s, bits) := bits run s w
  (s, (fieldsFrom none bits).flatMap (Field.texts s.disk))

def expandAll (run : List Char → State → State) (s : State) : List Word → State × List String
  | [] => (s, [])
  | w :: rest =>
    let (s, first) := expand run s w
    let (s, more) := expandAll run s rest
    (s, first ++ more)

def expandWhole (run : List Char → State → State) (s : State) (w : Word) : State × String :=
  let quoted := w.map fun
    | .parameter name fallback _ => .parameter name fallback true
    | .output source _ => .output source true
    | piece => piece
  let (s, bits) := bits run s quoted
  (s, String.ofList (bits.filterMap fun
    | .char c _ => some c
    | .gap => some ' '
    | .quotes => none))

end Skeleton.Shell
