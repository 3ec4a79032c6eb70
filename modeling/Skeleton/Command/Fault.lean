import Skeleton.Fault
import Skeleton.Hook.Running
import Skeleton.Text.Quoted

-- Why a command ends without success.

namespace Skeleton

inductive ConfigFault where
  | unreadable (path : Path) (fault : IoFault)
  | document (path : Path) (e : Yaml.LoadError)
  | unsupported (path : Path) (fault : ConversionFault)
  | notMapping (path : Path) (found : Kind)
  | binding (fault : BuildFault)
  | other (text : String)

def ConfigFault.message : ConfigFault → String
  | unreadable path fault => "cannot read " ++ path.text ++ ": " ++ fault.message
  | document path e => path.text ++ ": " ++ e.message
  | unsupported path fault => path.text ++ ": " ++ fault.message
  | notMapping path found =>
    path.text ++ ": expected a mapping of variables, found " ++ found.name
  | binding fault => fault.message
  | other text => text

inductive CommandFault where
  | invalidArgument (text : String)
  | io (fault : IoFault)
  | config (fault : ConfigFault)
  | scaffold (fault : Fault)
  | missingVariables (names : List String)
  | execution (text : String)
  | cancelled (text : String)
  | hook (name : String) (fault : HookFault)
  | serialization

namespace CommandFault

-- Why a document cannot be written: texts are all that it holds.
def serializationText : String := "path contains invalid UTF-8 characters"

def message : CommandFault → String
  | invalidArgument text => "Invalid argument: " ++ text
  | io fault => "IO error: " ++ fault.message
  | config fault => "Configuration error: " ++ fault.message
  | scaffold fault => fault.message
  | missingVariables names => "Missing required variables: " ++ ", ".intercalate names
  | execution text => "Execution failed: " ++ text
  | cancelled text => "Interrupted: " ++ text
  | hook name fault => "Hook `" ++ name ++ "` failed: " ++ fault.message
  | serialization => "Serialization error: " ++ serializationText

def defaultsVariable : String := "SCAFFOLD_DEFAULTS"

-- The message with advice.
def userMessage : CommandFault → String
  | invalidArgument text =>
    "Invalid argument: " ++ text ++ "\n\nRun 'scaffold --help' for usage information."
  | io fault => "File operation failed: " ++ fault.message
  | config fault =>
    "Configuration error: " ++ fault.message ++ "\n\nCheck the file named by $"
      ++ defaultsVariable ++ " or pass --no-global-defaults."
  | scaffold fault => "Scaffold error: " ++ fault.message
  | missingVariables names =>
    "Missing required variables: " ++ ", ".intercalate names ++ "\n\nProvide them with "
      ++ " ".intercalate (names.map fun name => "--var " ++ name ++ "=...")
  | execution text =>
    "Execution failed: " ++ text
      ++ "\n\nRe-run with --overwrite to replace existing files, or --rollback-on-failure to"
      ++ " undo partial output."
  | cancelled text => "Interrupted: " ++ text
  | hook name fault =>
    "Post-generation hook '" ++ name ++ "' failed: " ++ fault.message
      ++ "\n\nThe generated files were kept. Use --skip-hooks to skip hooks."
  | serialization => "Could not serialize output: " ++ serializationText

-- The fault with its parts in quotes. Faults that are more than texts and names have no such form.
def details? : CommandFault → Option String
  | invalidArgument text =>
    some ("InvalidArgument \x7b message: " ++ Text.quoted text ++ " \x7d")
  | config fault => some ("Config(" ++ Text.quoted fault.message ++ ")")
  | scaffold .hooksBlocked => some "Scaffold(HooksBlocked)"
  | missingVariables names =>
    some ("MissingVariables([" ++ ", ".intercalate (names.map Text.quoted) ++ "])")
  | execution text => some ("Execution(" ++ Text.quoted text ++ ")")
  | cancelled text => some ("Cancelled(" ++ Text.quoted text ++ ")")
  | hook name fault =>
    some ("Hook \x7b name: " ++ Text.quoted name ++ ", message: " ++ Text.quoted fault.message
      ++ " \x7d")
  | _ => none

def exitCode : CommandFault → Nat
  | invalidArgument _ => 2
  | cancelled _ => 130
  | _ => 1

end CommandFault

end Skeleton
