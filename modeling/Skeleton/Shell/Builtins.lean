import Skeleton.Shell.Expansion
import Skeleton.Shell.Tools

-- Commands that a shell carries out itself.

namespace Skeleton.Shell

-- What a shell needs for starting more: a program in its own right, and a script as a part of the
-- shell.
structure Starter where
  start : State → String → List String → Except IoFault State
  run : List Char → State → State

def State.origin (s : State) : String := s.name ++ ": " ++ Text.decimal s.line ++ ": "

def State.object (s : State) (status : Nat) (text : String) : State :=
  s.failWith status (s.origin ++ text)

def openReason (missing : String) (fault : IoFault) : String :=
  match fault with
  | .notFound => missing
  | .notDirectory => missing
  | fault => fault.reason

-- Starts a program from a shell. A file that is no program is taken for a script.
def startFromShell (k : Starter) (s : State) (program : String) (args : List String) : State :=
  let given : State := { s with bindings := s.exportedBindings }
  match k.start given program args with
  | .ok inner => s.after inner
  | .error .notExecutable =>
    match k.start given "sh" (program :: args) with
    | .ok inner => s.after inner
    | .error fault => s.object 126 (program ++ ": " ++ fault.reason)
  | .error fault =>
    let status := if [.notFound, .notDirectory, .linkLoop, .nameTooLong].contains fault then 127
      else 126
    s.object status (program ++ ": " ++ openReason "not found" fault)

def State.set (s : State) (name value : String) : State :=
  { s with bindings := s.bindings.insert name value }

def exitShell (s : State) (args : List String) : State :=
  match args with
  | [] => s.finish (.exited s.status)
  | code :: _ =>
    match Text.readNat? 10 code.toList with
    | some n => s.finish (.exited (n % 256))
    | none => (s.object 2 ("exit: Illegal number: " ++ code)).finish (.exited 2)

def changeDir (s : State) (args : List String) : State :=
  let target := args.headD ((s.bindings.get? "HOME").getD "")
  match s.disk.lookup (.ofText target) with
  | .ok (l, .dir _) => { s with disk := { s.disk with cwd := l } }.succeed
  | _ => s.object 2 ("cd: can't cd to " ++ target)

def signal? (text : String) : Option Nat :=
  match Text.readNat? 10 text.toList with
  | some n => some n
  | none =>
    (signalNames.findIdx? fun name => text = name || text = "SIG" ++ name).map (· + 1)

-- Signals that do not end a program.
def harmlessSignals : List Nat := [0, 17, 18, 23, 28]

def kill (s : State) (args : List String) : State :=
  let (signal, targets) :=
    match args with
    | "-s" :: name :: targets => (signal? name, targets)
    | first :: targets =>
      match first.toList with
      | '-' :: name => (signal? (String.ofList name), targets)
      | _ => (some 15, args)
    | [] => (some 15, [])
  match signal with
  | none => s.object 2 "kill: Illegal option"
  | some n =>
    if targets.contains shellNumber then
      if harmlessSignals.contains n then s.succeed else s.finish (.killed n)
    else s.object 1 "kill: No such process"

def setOptions (s : State) (args : List String) : State :=
  match args with
  | "-e" :: _ => { s with stopsAtFailure := true }.succeed
  | "+e" :: _ => { s with stopsAtFailure := false }.succeed
  | "--" :: args => { s with args }.succeed
  | _ => s.succeed

def assignAll (s : State) (args : List String) : State :=
  args.foldl (fun s arg =>
    match Text.splitOnce '=' arg.toList with
    | some (name, value) => s.set (String.ofList name) (String.ofList value)
    | none => s) s.succeed

-- Reads a line into a variable, or its words into more.
def assignWords (s : State) (words : List String) : List String → State
  | [] => s
  | [name] => s.set name (" ".intercalate words)
  | name :: names => assignWords (s.set name (words.headD "")) words.tail names

def readLine (s : State) (args : List String) : State :=
  let line := s.input.takeWhile (· ≠ 10)
  let rest := s.input.drop line.length
  let text := Text.ofBytes ⟨line.toArray⟩
  let words := ((Text.splitAtEvery ' ' text.toList).map String.ofList).filter (· ≠ "")
  let s := assignWords { s with input := rest.tail } words (args.filter (· ≠ "-r"))
  s.withStatus (if rest.isEmpty then 1 else 0)

def shift (s : State) (args : List String) : State :=
  let n := (Text.readNat? 10 (args.headD "1").toList).getD 1
  if s.args.length < n then (s.object 2 "shift: can't shift that many").finish (.exited 2)
  else { s with args := s.args.drop n }.succeed

def includeFile (k : Starter) (s : State) (file : String) : State :=
  match s.disk.openFile (.ofText file) with
  | .ok (content, _) => k.run (Text.ofBytes content).toList s
  | .error fault =>
    (s.object 2 (".: cannot open " ++ file ++ ": " ++ openReason "No such file" fault)).finish
      (.exited 2)

def runCommand (k : Starter) (s : State) (args : List String) : State :=
  match args with
  | [] => s.succeed
  | program :: args => startFromShell k s program args

def replaceShell (k : Starter) (s : State) (args : List String) : State :=
  match args with
  | [] => s.succeed
  | program :: args =>
    match k.start { s with bindings := s.exportedBindings } program args with
    | .ok s => s.finish s.finalEnding
    | .error _ => (s.object 127 ("exec: " ++ program ++ ": not found")).finish (.exited 127)

def builtins (k : Starter) : List (String × Program) :=
  [(":", fun s _ => s.succeed),
    ("true", fun s _ => s.succeed),
    ("false", fun s _ => s.withStatus 1),
    ("wait", fun s _ => s.succeed),
    ("echo", fun s args =>
      if args.head? = some "-n" then s.printWords true false args.tail
      else s.printWords true true args),
    ("printf", fun s args =>
      match args with
      | [] => s.object 2 "printf: usage: printf format [arg ...]"
      | format :: args =>
        s.printArguments ⟨s.origin ++ "printf: ", fun arg => arg ++ ": expected numeric value",
          "invalid directive", 2⟩ format args),
    ("pwd", runPwd),
    ("cd", changeDir),
    ("exit", exitShell),
    ("kill", kill),
    ("set", setOptions),
    ("shift", shift),
    (".", fun s args => includeFile k s (args.headD "")),
    ("command", runCommand k),
    ("export", fun s args =>
      let names := args.map fun arg => String.ofList (arg.toList.takeWhile (· ≠ '='))
      assignAll { s with exported := names ++ s.exported } args),
    ("readonly", assignAll),
    ("unset", fun s args =>
      { s with bindings := args.foldl (fun v name => v.erase name) s.bindings }.succeed),
    ("read", readLine),
    ("eval", fun s args => k.run (" ".intercalate args).toList s),
    ("exec", replaceShell k),
    ("test", fun s args => s.answer (s.origin ++ "test: ") args),
    ("[", fun s args => s.answerInBrackets (s.origin ++ "[: ") args)]

end Skeleton.Shell
