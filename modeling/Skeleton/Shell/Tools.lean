import Skeleton.Shell.Printf
import Skeleton.Shell.State
import Skeleton.Shell.Test

-- Programs that shells and hooks start by name.

namespace Skeleton.Shell

abbrev Program := State → List String → State

-- The letters of the options among arguments, and what is no option.
def splitOptions : List String → List Char × List String
  | [] => ([], [])
  | arg :: rest =>
    if arg = "--" then ([], rest)
    else
      let (letters, operands) := splitOptions rest
      match arg.toList with
      | '-' :: c :: more => (c :: more ++ letters, operands)
      | _ => (letters, arg :: operands)

def inQuotes (s : String) : String := "'" ++ s ++ "'"

-- Changes the disk for one argument after another. Failures are told, and the others go on.
def State.changeAll (s : State) (args : List String)
    (change : Disk → String → Except String Disk) : State :=
  args.foldl (fun s arg =>
    match change s.disk arg with
    | .ok disk => { s with disk }
    | .error text => s.failWith 1 text) s.succeed

def State.missingOperand (s : State) (what : String) : State :=
  s.failWith 1 (s.name ++ ": missing " ++ what ++ "\nTry " ++ inQuotes (s.name ++ " --help")
    ++ " for more information.")

def runTouch (s : State) (args : List String) : State :=
  let (_, operands) := splitOptions args
  if operands.isEmpty then s.missingOperand "file operand"
  else
    s.changeAll operands fun d arg =>
      let p := Path.ofText arg
      if d.hasDir p then .ok d
      else
        (d.appendFile p .empty).mapError fun fault =>
          s.name ++ ": cannot touch " ++ inQuotes arg ++ ": " ++ fault.reason

def runMkdir (s : State) (args : List String) : State :=
  let (letters, operands) := splitOptions args
  if operands.isEmpty then s.missingOperand "operand"
  else
    s.changeAll operands fun d arg =>
      let made :=
        if letters.contains 'p' then
          match d.makeDirs (.ofText arg) with
          | (d, .ok ()) => .ok d
          | (_, .error fault) => .error fault
        else d.makeDir (.ofText arg)
      made.mapError fun fault =>
        s.name ++ ": cannot create directory " ++ inQuotes arg ++ ": " ++ fault.reason

def runRmdir (s : State) (args : List String) : State :=
  let (_, operands) := splitOptions args
  if operands.isEmpty then s.missingOperand "operand"
  else
    s.changeAll operands fun d arg =>
      (d.removeDir (.ofText arg)).mapError fun fault =>
        s.name ++ ": failed to remove " ++ inQuotes arg ++ ": " ++ fault.reason

def runRm (s : State) (args : List String) : State :=
  let (letters, operands) := splitOptions args
  let deep := letters.contains 'r' || letters.contains 'R'
  let force := letters.contains 'f'
  if operands.isEmpty && !force then s.missingOperand "operand"
  else
    s.changeAll operands fun d arg =>
      let p := Path.ofText arg
      match if deep then d.removeAll p else d.removeFile p with
      | .ok d => .ok d
      | .error fault =>
        if force && fault = .notFound then .ok d
        else .error (s.name ++ ": cannot remove " ++ inQuotes arg ++ ": " ++ fault.reason)

-- The path that something gets in a directory, or else the one that is given.
def placeIn (d : Disk) (source target : String) : Path :=
  let p := Path.ofText target
  if d.hasDir p then p.join (.ofName (((Path.ofText source).fileName?).getD source)) else p

def State.changePair (s : State) (args : List String)
    (change : Disk → Path → Path → Except IoFault Disk) : State :=
  let (_, operands) := splitOptions args
  match operands with
  | [source, target] =>
    match change s.disk (.ofText source) (placeIn s.disk source target) with
    | .ok disk => { s with disk }.succeed
    | .error fault =>
      s.failWith 1 (s.name ++ ": cannot stat " ++ inQuotes source ++ ": " ++ fault.reason)
  | _ => s.missingOperand "file operand"

-- Copies a file. A new one gets the mode of the old one, as far as new files may have it.
def copyFile (d : Disk) (source target : Path) : Except IoFault Disk := do
  let (content, mode) ← d.openFile source
  let isNew := !d.contains target
  let d ← d.writeFile target content
  if isNew then d.setMode target (mode &&& 0o755) else .ok d

def runLn (s : State) (args : List String) : State :=
  let (letters, operands) := splitOptions args
  match operands with
  | [target, link] =>
    let p := placeIn s.disk target link
    let d := if letters.contains 'f' then (s.disk.removeFile p).toOption.getD s.disk else s.disk
    match d.makeLink p (.ofText target) with
    | .ok disk => { s with disk }.succeed
    | .error fault =>
      s.failWith 1
        (s.name ++ ": failed to create symbolic link " ++ inQuotes p.text ++ ": " ++ fault.reason)
  | _ => s.missingOperand "file operand"

def changedMode? (text : String) (mode : Nat) : Option Nat :=
  match text with
  | "+x" => some (mode ||| 0o111)
  | "a+x" => some (mode ||| 0o111)
  | "u+x" => some (mode ||| 0o100)
  | "-x" => some (mode &&& 0o666)
  | _ => Text.readNat? 8 text.toList

def runChmod (s : State) (args : List String) : State :=
  match args with
  | mode :: operands =>
    s.changeAll operands fun d arg =>
      let p := Path.ofText arg
      match d.lookup p with
      | .error fault =>
        .error (s.name ++ ": cannot access " ++ inQuotes arg ++ ": " ++ fault.reason)
      | .ok (_, e) =>
        match changedMode? mode e.mode with
        | some mode => (d.setMode p mode).mapError IoFault.reason
        | none => .error (s.name ++ ": invalid mode: " ++ inQuotes mode)
  | [] => s.missingOperand "operand"

def runCat (s : State) (args : List String) : State :=
  let (_, operands) := splitOptions args
  (if operands.isEmpty then ["-"] else operands).foldl (fun s arg =>
    if arg = "-" then { s.write 1 ⟨s.input.toArray⟩ with input := [] }
    else
      match s.disk.openFile (.ofText arg) with
      | .ok (content, _) => s.write 1 content
      | .error fault => s.failWith 1 (s.name ++ ": " ++ arg ++ ": " ++ fault.reason)) s.succeed

def State.listing (s : State) (all : Bool) (arg : String) : Except String (List String) :=
  let d := s.disk
  match d.lookup (.ofText arg) with
  | .ok (l, .dir _) =>
    .ok ((if all then [".", ".."] else [])
      ++ (d.namesIn l).filter fun name => all || name.toList.head? ≠ some '.')
  | .ok _ => .ok [arg]
  | .error fault => .error (s.name ++ ": cannot access " ++ inQuotes arg ++ ": " ++ fault.reason)

def runLs (s : State) (args : List String) : State :=
  let (letters, operands) := splitOptions args
  (if operands.isEmpty then ["."] else operands).foldl (fun s arg =>
    match s.listing (letters.contains 'a') arg with
    | .ok names => s.print (String.join (names.map (· ++ "\n")))
    | .error text => s.failWith 2 text) s.succeed

def runPwd (s : State) (_ : List String) : State :=
  (s.print ((Disk.pathOf s.disk.cwd).text ++ "\n")).succeed

-- Prints words with blanks between them. Escapes count if `escapes` says so, and `breaks` tells
-- whether the line ends.
def State.printWords (s : State) (escapes breaks : Bool) (words : List String) : State :=
  let line := " ".intercalate words
  let (bytes, stopped) := if escapes then escapedBytes line else (bytesOf line, false)
  let ending : List UInt8 := if breaks && !stopped then [10] else []
  (s.write 1 ⟨(bytes ++ ending).toArray⟩).succeed

def isEchoOption (arg : String) : Bool :=
  match arg.toList with
  | '-' :: c :: rest => (c :: rest).all "neE".toList.contains
  | _ => false

def runEcho (s : State) (args : List String) : State :=
  let options := args.takeWhile isEchoOption
  let letters := options.flatMap String.toList
  let last := letters.filter fun c => c = 'e' || c = 'E'
  s.printWords (last.getLast? = some 'e') (!letters.contains 'n') (args.drop options.length)

-- How complaints about arguments of formats are worded, and the status for an unknown place.
structure FormatWording where
  origin : String
  notNumber : String → String
  unknown : String
  unknownStatus : Nat

def State.printArguments (s : State) (w : FormatWording) (format : String)
    (args : List String) : State :=
  let p := printFormat format args
  let s := s.write 1 ⟨p.bytes.toArray⟩
  let s := p.notNumbers.foldl (fun s arg => s.complain (w.origin ++ w.notNumber arg)) s
  match p.unknown with
  | some text => s.failWith w.unknownStatus (w.origin ++ text ++ ": " ++ w.unknown)
  | none => s.withStatus (if p.notNumbers.isEmpty then 0 else 1)

def runPrintf (s : State) (args : List String) : State :=
  match args with
  | [] => s.missingOperand "operand"
  | format :: args =>
    s.printArguments ⟨s.name ++ ": ", fun arg => inQuotes arg ++ ": expected a numeric value",
      "invalid conversion specification", 1⟩ format args

def State.answer (s : State) (origin : String) (words : List String) : State :=
  match test s.disk words with
  | .ok b => s.withStatus (if b then 0 else 1)
  | .error text => s.failWith 2 (origin ++ text)

def State.answerInBrackets (s : State) (origin : String) (words : List String) : State :=
  if words.getLast? = some "]" then s.answer origin words.dropLast
  else s.failWith 2 (origin ++ "missing ]")

def tools : List (String × Program) :=
  [("true", fun s _ => s.succeed),
    ("false", fun s _ => s.withStatus 1),
    ("sleep", fun s _ => s.succeed),
    ("echo", runEcho),
    ("printf", runPrintf),
    ("pwd", runPwd),
    ("cat", runCat),
    ("ls", runLs),
    ("touch", runTouch),
    ("mkdir", runMkdir),
    ("rmdir", runRmdir),
    ("rm", runRm),
    ("cp", fun s args => s.changePair args copyFile),
    ("mv", fun s args => s.changePair args Disk.rename),
    ("ln", runLn),
    ("chmod", runChmod),
    ("test", fun s args => s.answer (s.name ++ ": ") args),
    ("[", fun s args => s.answerInBrackets (s.name ++ ": ") args)]

end Skeleton.Shell
