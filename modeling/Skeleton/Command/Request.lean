import Skeleton.Command.Variables
import Skeleton.Execution.Basic

-- What the program can be asked to do.

namespace Skeleton.Command

inductive Format where
  | text
  | json
  deriving DecidableEq

def Format.ofName? (name : String) : Option Format :=
  if name = "text" then some .text else if name = "json" then some .json else none

-- A scaffold, and where the values of its variables come from besides.
structure Source where
  spec : Path
  overrides : List (String × String)
  varsFile : Option Path
  useDefaults : Bool

structure ApplyOptions where
  output : Path
  policy : Policy
  rollbackOnFailure : Bool
  skipHooks : Bool

inductive Request where
  | plan (source : Source) (format : Format)
  | apply (source : Source) (format : Format) (options : ApplyOptions)

namespace Request

def source : Request → Source
  | plan source _ => source
  | apply source _ _ => source

-- The directory that a request changes.
def output? : Request → Option Path
  | plan _ _ => none
  | apply _ _ options => some options.output

end Request

-- The part of the environment that matters. Names of files need not be Unicode: a path stands for
-- one of the machine, and the machine knows whether that one is.
structure Environment where
  defaults : Option String
  configHome : Option String
  home : Option String
  isUnicode : Path → Bool

namespace Environment

def configDir? (e : Environment) : Option Path :=
  let named := (e.configHome.map Path.ofText).filter Path.isAbsolute
  let home := (e.home.filter fun s => !s.isEmpty).map fun s =>
    (Path.ofText s).join (.ofName ".config")
  named.or home

def defaultsFile? (e : Environment) : Option DefaultsFile :=
  match e.defaults.filter fun s => !s.isEmpty with
  | some file => some (.explicit (.ofText file))
  | none =>
    e.configDir?.map fun dir =>
      .perUser ((dir.join (.ofName "scaffold")).join (.ofName "defaults.yaml"))

end Environment

end Skeleton.Command
