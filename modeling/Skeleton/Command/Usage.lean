import Skeleton.Command.Arguments
import Skeleton.Command.Running

-- What the program tells about its arguments.

namespace Skeleton.Command

def versionText : String := "scaffold 0.1.0\n"

def usageText : String :=
  "Usage: scaffold [OPTIONS] plan <SPEC> [OPTIONS]\n"
    ++ "       scaffold [OPTIONS] apply <SPEC> [OPTIONS]\n"

def helpText : String :=
  "Materialize project skeletons from declarative YAML scaffolds\n\n" ++ usageText
    ++ "\nBoth commands:\n"
    ++ "      --var <KEY=VALUE>      Set a variable (repeatable)\n"
    ++ "      --vars-file <FILE>     YAML file mapping variable names to values\n"
    ++ "      --no-global-defaults   Ignore the global defaults file\n"
    ++ "      --format <FORMAT>      Output format: text or json\n"
    ++ "  -v, --verbose              Increase log verbosity\n"
    ++ "  -q, --quiet                Only log errors\n"
    ++ "  -h, --help                 Print help\n"
    ++ "  -V, --version              Print version\n"
    ++ "\nOnly apply:\n"
    ++ "  -o, --output <DIR>         Output directory (created if missing)\n"
    ++ "      --overwrite            Replace files that already exist\n"
    ++ "      --no-backup            Do not keep `.bak` copies of replaced files\n"
    ++ "      --rollback-on-failure  Undo applied operations if execution fails\n"
    ++ "      --skip-hooks           Do not run post-generation hooks\n"

namespace UsageFault

def message : UsageFault → String
  | helpAsked => helpText
  | versionAsked => versionText
  | nothingGiven => helpText
  | noVerb => "error: a command is missing\n\n" ++ usageText
  | unknownVerb => "error: unrecognized command\n\n" ++ usageText
  | unknownArgument => "error: unexpected argument\n\n" ++ usageText
  | noSpec => "error: the path of a scaffold is missing\n\n" ++ usageText
  | noValue (some flag) => "error: --" ++ flag.name ++ " needs a value\n\n" ++ usageText
  | noValue none => "error: the path of a scaffold is empty\n\n" ++ usageText
  | unknownValue flag => "error: unknown value for --" ++ flag.name ++ "\n\n" ++ usageText
  | refusedValue fault => "error: " ++ fault.message ++ "\n\n" ++ usageText
  | unwantedValue flag => "error: --" ++ flag.name ++ " takes no value\n\n" ++ usageText
  | repeated flag => "error: --" ++ flag.name ++ " is given twice\n\n" ++ usageText

-- What ends the program before it does anything.
def exit (fault : UsageFault) (d : Disk) : Exit :=
  if fault.exitCode = 0 then ⟨d, fault.message, "", 0⟩
  else ⟨d, "", fault.message, fault.exitCode⟩

end UsageFault

end Skeleton.Command
