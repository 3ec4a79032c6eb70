import Skeleton.Command.Request

-- The arguments of the program read into a request.
--
-- Options are written `--name` or by a letter. A value follows as the next argument or, in the
-- same one, behind `=` or right behind the letter. Letters without values can be joined. Behind
-- `--` there are no options.

namespace Skeleton.Command

inductive Verb where
  | plan
  | apply
  deriving DecidableEq

def Verb.ofName? (name : String) : Option Verb :=
  if name = "plan" then some .plan else if name = "apply" then some .apply else none

def helpName : String := "help"

def isVerb (name : String) : Bool := name = helpName || (Verb.ofName? name).isSome

inductive Flag where
  | verbose
  | quiet
  | help
  | version
  | override
  | varsFile
  | noGlobalDefaults
  | format
  | output
  | overwrite
  | noBackup
  | rollbackOnFailure
  | skipHooks
  deriving DecidableEq

namespace Flag

def name : Flag → String
  | verbose => "verbose"
  | quiet => "quiet"
  | help => "help"
  | version => "version"
  | override => "var"
  | varsFile => "vars-file"
  | noGlobalDefaults => "no-global-defaults"
  | format => "format"
  | output => "output"
  | overwrite => "overwrite"
  | noBackup => "no-backup"
  | rollbackOnFailure => "rollback-on-failure"
  | skipHooks => "skip-hooks"

def letter? : Flag → Option Char
  | verbose => some 'v'
  | quiet => some 'q'
  | help => some 'h'
  | version => some 'V'
  | output => some 'o'
  | _ => none

def takesValue : Flag → Bool
  | override => true
  | varsFile => true
  | format => true
  | output => true
  | _ => false

def mayRepeat : Flag → Bool
  | verbose => true
  | override => true
  | _ => false

-- The flags before a verb, and behind each.
def before : List Flag := [verbose, quiet, help, version]

def behind : Verb → List Flag
  | .plan => [verbose, quiet, help, override, varsFile, noGlobalDefaults, format]
  | .apply => [verbose, quiet, help, override, varsFile, noGlobalDefaults, format, output,
      overwrite, noBackup, rollbackOnFailure, skipHooks]

end Flag

inductive UsageFault where
  | helpAsked
  | versionAsked
  | nothingGiven
  | noVerb
  | unknownVerb
  | unknownArgument
  | noSpec
  | noValue (flag : Option Flag)
  | unknownValue (flag : Flag)
  | refusedValue (fault : AssignmentFault)
  | unwantedValue (flag : Flag)
  | repeated (flag : Flag)

-- Asking for advice is no failure.
def UsageFault.exitCode : UsageFault → Nat
  | helpAsked => 0
  | versionAsked => 0
  | _ => 2

structure Settings where
  given : List Flag
  spec : Option Path
  overrides : List (String × String)
  varsFile : Option Path
  format : Format
  output : Path

namespace Settings

def initial : Settings := ⟨[], none, [], none, .text, .ofName "."⟩

def has (s : Settings) (flag : Flag) : Bool := s.given.contains flag

-- A path, which has at least one character.
def pathValue (flag : Option Flag) (value : String) : Except UsageFault Path :=
  if value.isEmpty then .error (.noValue flag) else .ok (.ofText value)

def setValue (s : Settings) (flag : Flag) (value : String) : Except UsageFault Settings :=
  match flag with
  | .override =>
    match parseAssignment value with
    | .ok pair => .ok { s with overrides := s.overrides ++ [pair] }
    | .error fault => .error (.refusedValue fault)
  | .varsFile => do
    let path ← pathValue flag value
    .ok { s with varsFile := some path }
  | .output => do
    let path ← pathValue flag value
    .ok { s with output := path }
  | .format =>
    match Format.ofName? value with
    | some format => .ok { s with format }
    | none => .error (.unknownValue flag)
  | _ => .ok s

def give (s : Settings) (flag : Flag) (value : Option String) : Except UsageFault Settings :=
  match flag with
  | .help => .error .helpAsked
  | .version => .error .versionAsked
  | _ =>
    if flag.takesValue && value.isNone then .error (.noValue flag)
    else if s.has flag && !flag.mayRepeat then .error (.repeated flag)
    else ({ s with given := s.given ++ [flag] } : Settings).setValue flag (value.getD "")

def source (s : Settings) (spec : Path) : Source :=
  ⟨spec, s.overrides, s.varsFile, !s.has .noGlobalDefaults⟩

def options (s : Settings) : ApplyOptions :=
  ⟨s.output, ⟨s.has .overwrite, !s.has .noBackup⟩, s.has .rollbackOnFailure, s.has .skipHooks⟩

end Settings

-- An argument that is read but not taken in: a flag that may get its value yet, or a path.
inductive Waiting where
  | flag (flag : Flag) (value : Option String)
  | spec (text : String)

-- What has been read. An argument is taken in when the next one that is not its value comes, so
-- that what is wrong with it shows only then.
structure Reading where
  settings : Settings
  waiting : Option Waiting

namespace Reading

def initial : Reading := ⟨.initial, none⟩

def settle (r : Reading) : Except UsageFault Settings :=
  match r.waiting with
  | none => .ok r.settings
  | some (.flag flag value) => r.settings.give flag value
  | some (.spec text) => do
    let path ← Settings.pathValue none text
    .ok { r.settings with spec := some path }

def give (r : Reading) (flag : Flag) (value : Option String) : Except UsageFault Reading := do
  let settings ← r.settle
  let settings ← settings.give flag value
  .ok ⟨settings, none⟩

def await (r : Reading) (w : Waiting) : Except UsageFault Reading := do
  let settings ← r.settle
  .ok ⟨settings, some w⟩

def wanting? (r : Reading) : Option Flag :=
  match r.waiting with
  | some (.flag flag none) => some flag
  | _ => none

def hasSpec (r : Reading) : Bool :=
  r.settings.spec.isSome ||
    match r.waiting with
    | some (.spec _) => true
    | _ => false

-- Reads what is behind `--`.
def readLong (flags : List Flag) (r : Reading) (cs : List Char) : Except UsageFault Reading :=
  let (name, value) :=
    match Text.splitOnce '=' cs with
    | some (name, value) => (name, some (String.ofList value))
    | none => (cs, none)
  match flags.find? fun flag => flag.name.toList = name with
  | none => .error .unknownArgument
  | some flag =>
    match flag.takesValue, value with
    | true, none => r.await (.flag flag none)
    | false, some _ => .error (.unwantedValue flag)
    | _, _ => r.give flag value

-- Reads the letters behind `-`.
def readLetters (flags : List Flag) (r : Reading) : List Char → Except UsageFault Reading
  | [] => .ok r
  | c :: rest =>
    match flags.find? fun flag => flag.letter? = some c with
    | none => .error .unknownArgument
    | some flag =>
      if flag.takesValue then
        match rest with
        | [] => r.await (.flag flag none)
        | '=' :: value => r.give flag (some (String.ofList value))
        | value => r.give flag (some (String.ofList value))
      else do
        let r ← r.give flag none
        readLetters flags r rest

def readPlain (r : Reading) (argument : String) : Except UsageFault Reading :=
  match r.wanting? with
  | some flag => .ok ⟨r.settings, some (.flag flag (some argument))⟩
  | none => if r.hasSpec then .error .unknownArgument else r.await (.spec argument)

def readTrailing (r : Reading) (argument : String) : Except UsageFault Reading :=
  if r.hasSpec then .error .unknownArgument else r.await (.spec argument)

def readAll (flags : List Flag) (r : Reading) : List String → Except UsageFault Reading
  | [] => .ok r
  | argument :: rest =>
    match argument.toList with
    | ['-', '-'] => rest.foldlM readTrailing r
    | '-' :: '-' :: cs => do
      let r ← r.readLong flags cs
      readAll flags r rest
    | '-' :: c :: cs => do
      let r ← r.readLetters flags (c :: cs)
      readAll flags r rest
    | _ => do
      let r ← r.readPlain argument
      readAll flags r rest

end Reading

def requestOf (verb : Verb) (arguments : List String) : Except UsageFault Request := do
  let r ← Reading.initial.readAll (Flag.behind verb) arguments
  let s ← r.settle
  match s.spec with
  | none => .error .noSpec
  | some spec =>
    match verb with
    | .plan => .ok (.plan (s.source spec) s.format)
    | .apply => .ok (.apply (s.source spec) s.format s.options)

-- What asking for advice on something comes to.
def adviceOn : List String → UsageFault
  | [] => .helpAsked
  | [name] => if isVerb name then .helpAsked else .unknownVerb
  | _ => .unknownVerb

-- What a verb that must stand before `--` comes to behind it.
def trailingFault (argument : String) : UsageFault :=
  if isVerb argument then .unknownArgument else .unknownVerb

def Reading.verbFault (r : Reading) : UsageFault :=
  if r.settings.given.isEmpty then .nothingGiven else .noVerb

-- The request that arguments make. `r` is what was read before.
def requestFrom (r : Reading) : List String → Except UsageFault Request
  | [] => .error r.verbFault
  | argument :: rest =>
    match argument.toList with
    | ['-', '-'] =>
      match rest with
      | [] => .error r.verbFault
      | argument :: _ => .error (trailingFault argument)
    | '-' :: '-' :: cs => do
      let r ← r.readLong Flag.before cs
      requestFrom r rest
    | '-' :: c :: cs => do
      let r ← r.readLetters Flag.before (c :: cs)
      requestFrom r rest
    | _ =>
      if argument = helpName then .error (adviceOn rest)
      else
        match Verb.ofName? argument with
        | some verb => requestOf verb rest
        | none => .error .unknownVerb

def parseArguments (arguments : List String) : Except UsageFault Request :=
  requestFrom .initial arguments

end Skeleton.Command
