import Skeleton.Shell.Evaluation

-- Starting programs: tools by name, and scripts by the file that they are in.

namespace Skeleton.Shell

inductive Executable where
  | tool (run : Program)
  | shell
  | wrapper
  | script (interpreter : String) (args : List String)

def shellNames : List String := ["sh", "dash", "bash"]

def wrapperName : String := "env"

def toolOf? (name : String) : Option Executable :=
  if shellNames.contains name then some .shell
  else if name = wrapperName then some .wrapper
  else (tools.lookup name).map .tool

def toolDirs : List String := ["/bin", "/usr/bin"]

-- The interpreter and its argument on the first line of a script.
def interpreterOf? (content : ByteArray) : Option (String × List String) :=
  match (Text.ofBytes content).toList with
  | '#' :: '!' :: rest =>
    let line := Text.trimBlanks (rest.takeWhile (· ≠ '\n'))
    let name := line.takeWhile fun c => c ≠ ' ' && c ≠ '\t'
    let arg := Text.trimBlanks (line.drop name.length)
    if name.isEmpty then none
    else some (String.ofList name, if arg.isEmpty then [] else [String.ofList arg])
  | _ => none

-- What stands in a file. It must be allowed to run.
def executableFile (d : Disk) (program : String) : Except IoFault Executable := do
  match ← d.lookup (.ofText program) with
  | (_, .file mode content) =>
    if mode &&& 0o111 = 0 then .error .accessDenied
    else
      match interpreterOf? content with
      | some (interpreter, args) => .ok (.script interpreter args)
      | none => .error .notExecutable
  | _ => .error .accessDenied

-- What a program is. Names without a slash are those of tools.
def executable (d : Disk) (program : String) : Except IoFault Executable :=
  let p := Path.ofText program
  if p.parts.length ≤ 1 then
    match toolOf? program with
    | some e => .ok e
    | none => .error .notFound
  else
    match if toolDirs.contains ((p.parent?.map Path.text).getD "") then
        p.fileName?.bind toolOf? else none with
    | some e => .ok e
    | none => executableFile d program

def runScriptFile (k : Starter) (s : State) (file : String) : State :=
  match s.disk.openFile (.ofText file) with
  | .error fault =>
    ({ s with name := "sh", line := 0 } : State).object 2
      ("cannot open " ++ file ++ ": " ++ openReason "No such file" fault)
  | .ok (content, _) => evaluateText k (Text.ofBytes content).toList s

def runShell (k : Starter) (shell : String) (s : State) : List String → State
  | [] =>
    let text := (Text.ofBytes ⟨s.input.toArray⟩).toList
    evaluateText k text { s with name := shell, args := [], input := [] }
  | arg :: rest =>
    match arg.toList with
    | '-' :: c :: letters =>
      let s := if (c :: letters).contains 'e' then { s with stopsAtFailure := true } else s
      if (c :: letters).contains 'c' then
        match rest with
        | [] => ({ s with name := shell, line := 0 } : State).object 2 "-c requires an argument"
        | text :: rest =>
          evaluateText k text.toList { s with name := rest.headD shell, args := rest.tail }
      else runShell k shell s rest
    | _ => runScriptFile k { s with name := arg, args := rest } arg

-- Starts a program. The state is that of whoever starts it, and the program begins with fresh
-- parameters.
def startWith (k : Starter) (s : State) (program : String) (args : List String) :
    Except IoFault State := do
  let fresh : State :=
    { s with
      exported := s.bindings.keys, status := 0, ending := none, line := 1, stopsAtFailure := false }
  match ← executable s.disk program with
  | .tool run => .ok (run { fresh with name := program } args)
  | .shell => .ok (runShell k program fresh args)
  | .wrapper =>
    match args.dropWhile fun arg => arg.toList.contains '=' with
    | [] => .ok fresh
    | program :: args =>
      match k.start s program args with
      | .ok s => .ok s
      | .error fault =>
        .ok (fresh.failWith (if fault = .notFound then 127 else 126)
          ("env: " ++ inQuotes program ++ ": " ++ fault.reason))
  | .script interpreter more => k.start s interpreter (more ++ program :: args)

-- A program in its own right: its signals are not for the one that started it.
def apart (s : State) : State :=
  { s with status := statusOf s.finalEnding, ending := some (.exited (statusOf s.finalEnding)) }

def starter : Nat → Starter
  | 0 => ⟨fun _ _ _ => .error (.other "Resource temporarily unavailable"), fun _ s => s⟩
  | depth + 1 =>
    ⟨fun s program args => (startWith (starter depth) s program args).map apart,
      fun text s => evaluateText (starter depth) text s⟩

def maxDepth : Nat := 64

def runner (bindings : Dictionary String String) : Runner := fun d i =>
  let texts := i.program :: i.workingDir.text :: i.args
  if texts.any fun t => t.toList.contains '\x00' then (d, .error .nulArgument)
  else
    match d.lookup i.workingDir with
    | .error fault => (d, .error fault)
    | .ok (l, .dir _) =>
      let s := State.initial { d with cwd := l } bindings i.program []
      match startWith (starter maxDepth) s i.program i.args with
      | .error fault => (d, .error fault)
      | .ok s =>
        ({ s.disk with cwd := d.cwd }, .ok ⟨s.finalEnding, s.buffer 0, s.buffer 1, 0⟩)
    | .ok _ => (d, .error .notDirectory)

end Skeleton.Shell
