import Skeleton.Shell.Builtins
import Skeleton.Shell.Parser

-- Scripts carried out.

namespace Skeleton.Shell

def openSink (s : State) (r : Redirection) (target : String)
    (changed : Except IoFault Disk) : State × Bool :=
  match changed with
  | .error fault =>
    (s.object 2 ("cannot create " ++ target ++ ": " ++ openReason "Directory nonexistent" fault),
      false)
  | .ok disk =>
    match disk.lookup (.ofText target) with
    | .ok (l, .file _ _) => ({ s with disk }.redirect r.descriptor (.file l), true)
    | _ => ({ s with disk }.redirect r.descriptor .nowhere, true)

-- Takes in a redirection. The flag tells whether it could be.
def redirectOne (k : Starter) (s : State) (r : Redirection) : State × Bool :=
  let (s, target) := expandWhole k.run s r.target
  let p := Path.ofText target
  match r.direction with
  | .input =>
    match s.disk.openFile p with
    | .ok (content, _) => ({ s with input := content.toList }, true)
    | .error fault =>
      (s.object 2 ("cannot open " ++ target ++ ": " ++ openReason "No such file" fault), false)
  | .output => openSink s r target (s.disk.writeFile p .empty)
  | .append => openSink s r target (s.disk.appendFile p .empty)
  | .duplicate =>
    match Text.readNat? 10 target.toList with
    | some n => (s.redirect r.descriptor (s.sink n), true)
    | none => (s.redirect r.descriptor .nowhere, true)

def redirectAll (k : Starter) (s : State) : List Redirection → State × Bool
  | [] => (s, true)
  | r :: rest =>
    match redirectOne k s r with
    | (s, true) => redirectAll k s rest
    | failed => failed

def withRedirections (k : Starter) (rs : List Redirection) (run : State → State) (s : State) :
    State :=
  let (inner, opened) := redirectAll k s rs
  let ended := if opened then run inner else inner
  { ended with sinks := s.sinks, input := if rs.isEmpty then ended.input else s.input }

def assign (k : Starter) (s : State) : List (String × Word) → State
  | [] => s
  | (name, w) :: rest =>
    let (s, value) := expandWhole k.run s w
    assign k (s.set name value) rest

-- Whether the value of a word comes from a script, whose status then counts.
def runsScript (w : Word) : Bool :=
  w.any fun
    | .output _ _ => true
    | _ => false

def runWords (k : Starter) (s : State) (assignments : List (String × Word)) :
    List String → State
  | [] =>
    let status := if assignments.any fun a => runsScript a.2 then s.status else 0
    let s := assign k (s.withStatus status) assignments
    if assignments.any fun a => runsScript a.2 then s else s.withStatus 0
  | name :: args =>
    match (builtins k).lookup name with
    | some run => run (assign k s assignments) args
    | none =>
      let named := assignments.map Prod.fst
      let given := assign k { s with exported := named ++ s.exported } assignments
      let started := startFromShell k given name args
      { started with bindings := s.bindings, exported := s.exported }

def State.checkFailure (s : State) (lenient : Bool) : State :=
  if s.stopsAtFailure && !lenient && s.status ≠ 0 && s.isRunning then s.finish (.exited s.status)
  else s

def maxRounds : Nat := 100000

-- Goes round a loop as long as the test says so. The status is that of the last round.
def repeatWhile (test : State → State × Bool) (body : State → State) (s : State) : Nat → State
  | 0 => s
  | rounds + 1 =>
    match test s with
    | (tested, true) =>
      let after := body tested
      if after.isRunning then repeatWhile test body after rounds else after
    | (tested, false) => if tested.isRunning then tested.withStatus s.status else tested

mutual

-- Carries out a command. In a lenient place no failure stops a shell.
def evaluate (k : Starter) (lenient : Bool) : Command → State → State
  | .nothing, s => s
  | .simple line assignments words redirections, s =>
    if !s.isRunning then s
    else
      let (s, words) := expandAll k.run { s with line } words
      (withRedirections k redirections (fun s => runWords k s assignments words) s).checkFailure
        lenient
  | .both first second, s => evaluate k lenient second (evaluate k lenient first s)
  | .andThen first second, s =>
    let s := evaluate k true first s
    if s.isRunning && s.status = 0 then evaluate k lenient second s else s
  | .orElse first second, s =>
    let s := evaluate k true first s
    if s.isRunning && s.status ≠ 0 then evaluate k lenient second s else s
  | .negated command, s =>
    let s := evaluate k true command s
    s.withStatus (if s.status = 0 then 1 else 0)
  | .pipe first second, s =>
    if !s.isRunning then s
    else
      let (middle, bytes) := s.capture (evaluate k true first)
      let ended := evaluate k true second { middle with input := bytes.toList }
      ({ middle.after ended with input := s.input } : State).checkFailure lenient
  | .group body redirections, s =>
    if !s.isRunning then s else withRedirections k redirections (evaluate k lenient body) s
  | .subshell body redirections, s =>
    if !s.isRunning then s
    else
      withRedirections k redirections
        (fun s => (s.after (evaluate k lenient body s)).checkFailure lenient) s
  | .choice test accepted refused, s =>
    let tested := evaluate k true test s
    if !tested.isRunning then tested
    else if tested.status = 0 then evaluate k lenient accepted tested
    else evaluate k lenient refused tested.succeed
  | .loop expected test body, s =>
    if !s.isRunning then s
    else
      repeatWhile
        (fun s =>
          let tested := evaluate k true test s
          (tested, tested.isRunning && (tested.status = 0) = expected))
        (evaluate k lenient body) s maxRounds
  | .cases word arms, s =>
    if !s.isRunning then s
    else
      let (s, text) := expandWhole k.run s word
      evaluateArms k lenient text arms s.succeed
  | .each name words body, s =>
    if !s.isRunning then s
    else
      let (s, values) := expandAll k.run s words
      values.foldl (fun s value =>
        if s.isRunning then evaluate k lenient body (s.set name value) else s) s.succeed

def evaluateArms (k : Starter) (lenient : Bool) (text : String) :
    List (List Word × Command) → State → State
  | [], s => s
  | (patterns, body) :: rest, s =>
    if patterns.any fun w => fits (patternOf w) text.toList then evaluate k lenient body s
    else evaluateArms k lenient text rest s

end

-- Carries out a script as a part of a shell. A fault in it ends the shell.
def evaluateText (k : Starter) (text : List Char) (s : State) : State :=
  let script := parseScript (String.ofList text)
  let s := script.lines.foldl (fun s command => evaluate k false command s) s
  match script.fault with
  | some (line, fault) =>
    if s.isRunning then (({ s with line } : State).object 2 fault.message).finish (.exited 2) else s
  | none => s

end Skeleton.Shell
