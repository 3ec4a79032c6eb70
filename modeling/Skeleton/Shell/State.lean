import Skeleton.Hook.Running
import Skeleton.Text.Split

-- What a running program sees and changes.

namespace Skeleton.Shell

-- Where a descriptor leads for writing: to one of the buffers, to a file, or nowhere.
inductive Sink where
  | buffer (index : Nat)
  | file (l : Location)
  | nowhere
  deriving DecidableEq

def statusOf : Ending → Nat
  | .exited code => code
  | .killed signal => 128 + signal

-- The state of a shell or of another program. What is written to the standard descriptors ends up
-- in the first two buffers, if nothing else is said. Relative paths start at the disk's working
-- directory.
structure State where
  disk : Disk
  name : String
  args : List String
  bindings : Dictionary String String
  exported : List String
  input : List UInt8
  sinks : List (Nat × Sink)
  buffers : List ByteArray
  status : Nat
  ending : Option Ending
  line : Nat
  stopsAtFailure : Bool

namespace State

def initial (disk : Disk) (bindings : Dictionary String String) (name : String)
    (args : List String) : State :=
  { disk, name, args, bindings, exported := bindings.keys, input := [],
    sinks := [(1, .buffer 0), (2, .buffer 1)], buffers := [.empty, .empty], status := 0,
    ending := none, line := 1, stopsAtFailure := false }

def exportedBindings (s : State) : Dictionary String String :=
  Dictionary.ofList (s.bindings.entries.filter fun (name, _) => s.exported.contains name)

def buffer (s : State) (i : Nat) : ByteArray := s.buffers[i]?.getD .empty

def sink (s : State) (descriptor : Nat) : Sink :=
  ((s.sinks.find? fun e => e.1 = descriptor).map Prod.snd).getD .nowhere

def redirect (s : State) (descriptor : Nat) (sink : Sink) : State :=
  { s with sinks := (descriptor, sink) :: s.sinks }

def write (s : State) (descriptor : Nat) (bytes : ByteArray) : State :=
  match s.sink descriptor with
  | .buffer i => { s with buffers := s.buffers.set i (s.buffer i ++ bytes) }
  | .file l =>
    match s.disk.get? l with
    | some (.file mode content) => { s with disk := s.disk.put l (.file mode (content ++ bytes)) }
    | _ => s
  | .nowhere => s

def print (s : State) (text : String) : State := s.write 1 text.toUTF8

def complain (s : State) (text : String) : State := s.write 2 (text ++ "\n").toUTF8

def withStatus (s : State) (status : Nat) : State := { s with status }

def succeed (s : State) : State := s.withStatus 0

def failWith (s : State) (status : Nat) (text : String) : State :=
  (s.complain text).withStatus status

def finish (s : State) (ending : Ending) : State := { s with ending := some ending }

def isRunning (s : State) : Bool := s.ending.isNone

def finalEnding (s : State) : Ending := s.ending.getD (.exited s.status)

-- The state behind a part that ran on its own, as in brackets. What it did to the disk and wrote
-- stays, and a signal for it is one for all.
def after (outer inner : State) : State :=
  { outer with
    disk := { inner.disk with cwd := outer.disk.cwd }
    input := inner.input
    buffers := inner.buffers.take outer.buffers.length
    status := statusOf inner.finalEnding
    ending :=
      match inner.ending with
      | some (.killed signal) => some (.killed signal)
      | _ => outer.ending }

-- Runs a part on its own, and catches what it writes.
def capture (s : State) (run : State → State) : State × ByteArray :=
  let i := s.buffers.length
  let inner := run ({ s with buffers := s.buffers ++ [ByteArray.empty] }.redirect 1 (.buffer i))
  (s.after inner, inner.buffer i)

end State

end Skeleton.Shell
