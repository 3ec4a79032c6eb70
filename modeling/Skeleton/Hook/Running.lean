import Skeleton.Disk.Operations
import Skeleton.Hook.Resolution
import Skeleton.Text.Utf8

-- Running hooks one after another. What runs a program is left open.

namespace Skeleton

inductive Ending where
  | exited (code : Nat)
  | killed (signal : Nat)
  deriving DecidableEq

-- The signals by number, from one on.
def signalNames : List String :=
  ["HUP", "INT", "QUIT", "ILL", "TRAP", "ABRT", "BUS", "FPE", "KILL", "USR1", "SEGV", "USR2",
    "PIPE", "ALRM", "TERM", "STKFLT", "CHLD", "CONT", "STOP", "TSTP", "TTIN", "TTOU", "URG",
    "XCPU", "XFSZ", "VTALRM", "PROF", "WINCH", "IO", "PWR", "SYS"]

def signalName? (signal : Nat) : Option String :=
  if signal = 0 then none else signalNames[signal - 1]?

def Ending.message : Ending → String
  | exited code => "exit status: " ++ Text.decimal code
  | killed signal =>
    "signal: " ++ Text.decimal signal
      ++ ((signalName? signal).map fun name => " (SIG" ++ name ++ ")").getD ""

-- A program that ran: how it ended, what it wrote, and how many milliseconds it took.
structure Completion where
  ending : Ending
  stdout : ByteArray
  stderr : ByteArray
  duration : Nat

-- Starts a program on a disk and waits for its end.
abbrev Runner := Disk → Invocation → Disk × Except IoFault Completion

inductive HookFault where
  | notStarted (program : String) (fault : IoFault)
  | ended (ending : Ending) (complaint : String)
  | other (text : String)
  deriving DecidableEq

def HookFault.message : HookFault → String
  | notStarted program fault => "cannot run `" ++ program ++ "`: " ++ fault.message
  | ended ending complaint =>
    "exited with " ++ ending.message ++ (if complaint.isEmpty then "" else ": " ++ complaint)
  | other text => text

structure HookResult where
  name : String
  stdout : String
  duration : Nat

namespace Hook

def result (i : Invocation) (completion : Except IoFault Completion) :
    Except HookFault HookResult :=
  match completion with
  | .error fault => .error (.notStarted i.program fault)
  | .ok c =>
    if c.ending = .exited 0 then .ok ⟨i.name, Text.ofBytes c.stdout, c.duration⟩
    else .error (.ended c.ending (Text.trim (Text.ofBytes c.stderr)))

def runAll (runner : Runner) (d : Disk) :
    List Invocation → Disk × Except (String × HookFault) (List HookResult)
  | [] => (d, .ok [])
  | i :: rest =>
    let (d, completion) := runner d i
    match result i completion with
    | .error fault => (d, .error (i.name, fault))
    | .ok r =>
      let (d, results) := runAll runner d rest
      (d, results.map (r :: ·))

end Hook

end Skeleton
