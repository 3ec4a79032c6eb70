import Skeleton.Blueprint.Loading
import Skeleton.Command.Fault

-- Where the values of variables come from: a file of defaults for all scaffolds, the scaffold, a
-- file of values, and the command line, each over the one before.

namespace Skeleton

-- A file of defaults that must exist, or one that need not.
inductive DefaultsFile where
  | explicit (path : Path)
  | perUser (path : Path)

def DefaultsFile.path : DefaultsFile → Path
  | explicit p => p
  | perUser p => p

namespace Command

-- The variables in a file, which holds a mapping or nothing.
def readVariables (disk : Disk) (p : Path) : Except ConfigFault (List (String × Value)) := do
  let text ← (disk.readText p).mapError (.unreadable p)
  if Text.isAllBlank text then .ok []
  else
    let data ← (Yaml.dataOf text).mapError (.document p)
    match ← (Value.ofData data).mapError (.unsupported p) with
    | .mapping fields => .ok fields
    | v => .error (.notMapping p v.kind)

def readLayer (disk : Disk) (p : Path) : Except CommandFault Context := do
  let fields ← (readVariables disk p).mapError .config
  (Context.empty.push "global" fields).mapError fun e => .config (.binding (.duplicateBinding e))

def loadDefaults (disk : Disk) : Option DefaultsFile → Except CommandFault Context
  | none => .ok .empty
  | some (.explicit p) => readLayer disk p
  | some (.perUser p) => if disk.contains p then readLayer disk p else .ok .empty

def pushLayer (c : Context) (label : String) (bindings : List (String × Value)) :
    Except CommandFault Context :=
  (c.push label bindings).mapError fun e => .scaffold (.build (.duplicateBinding e))

def pushFile (disk : Disk) (b : Blueprint) (file : Option Path) (c : Context) :
    Except CommandFault Context :=
  match file with
  | none => .ok c
  | some p => do
    let fields ← (readVariables disk p).mapError .config
    let bindings ← fields.mapM fun (name, v) => do
      let v ← (b.coerceValue name v).mapError CommandFault.scaffold
      return (name, v)
    pushLayer c "vars-file" bindings

def pushOverrides (b : Blueprint) (overrides : List (String × String)) (c : Context) :
    Except CommandFault Context :=
  if overrides.isEmpty then .ok c
  else do
    let bindings ← overrides.mapM fun (name, text) => do
      let v ← (b.coerceText name text).mapError CommandFault.scaffold
      return (name, v)
    pushLayer c "command-line" bindings

-- All layers of a scaffold. Every declared variable must have a value.
def buildContext (disk : Disk) (b : Blueprint) (globals : Context) (file : Option Path)
    (overrides : List (String × String)) : Except CommandFault Context := do
  let c ← (b.context globals).mapError .scaffold
  let c ← pushFile disk b file c
  let c ← pushOverrides b overrides c
  match b.missing c with
  | [] => .ok c
  | names => .error (.missingVariables names)

inductive AssignmentFault where
  | noSeparator (text : String)
  | noName (text : String)

def AssignmentFault.message : AssignmentFault → String
  | noSeparator text => "expected KEY=VALUE, got `" ++ text ++ "`"
  | noName text => "empty variable name in `" ++ text ++ "`"

-- The name and the value around the first equals sign. Blanks around the name do not count.
def parseAssignment (s : String) : Except AssignmentFault (String × String) :=
  match Text.splitOnce '=' s.toList with
  | none => .error (.noSeparator s)
  | some (name, value) =>
    let name := Text.trimBlanks name
    if name.isEmpty then .error (.noName s) else .ok (String.ofList name, String.ofList value)

-- How much is logged. Asking for quiet counts more than asking for details.
def logLevel (verbose : Nat) (quiet : Bool) : String :=
  if quiet then "error"
  else
    match verbose with
    | 0 => "warn"
    | 1 => "info"
    | 2 => "debug"
    | _ => "trace"

end Command

end Skeleton
