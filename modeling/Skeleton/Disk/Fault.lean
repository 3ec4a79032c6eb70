import Skeleton.Text.Digits

-- Why an operation on a disk fails.

namespace Skeleton

inductive IoFault where
  | notFound
  | notExecutable
  | accessDenied
  | alreadyExists
  | notDirectory
  | isDirectory
  | invalid
  | noSpace
  | nameTooLong
  | notEmpty
  | linkLoop
  | nulByte
  | nulArgument
  | notText
  | noTree
  | other (text : String)
  deriving DecidableEq

namespace IoFault

def number? : IoFault → Option Nat
  | notFound => some 2
  | notExecutable => some 8
  | accessDenied => some 13
  | alreadyExists => some 17
  | notDirectory => some 20
  | isDirectory => some 21
  | invalid => some 22
  | noSpace => some 28
  | nameTooLong => some 36
  | notEmpty => some 39
  | linkLoop => some 40
  | _ => none

def reason : IoFault → String
  | notFound => "No such file or directory"
  | notExecutable => "Exec format error"
  | accessDenied => "Permission denied"
  | alreadyExists => "File exists"
  | notDirectory => "Not a directory"
  | isDirectory => "Is a directory"
  | invalid => "Invalid argument"
  | noSpace => "No space left on device"
  | nameTooLong => "File name too long"
  | notEmpty => "Directory not empty"
  | linkLoop => "Too many levels of symbolic links"
  | nulByte => "file name contained an unexpected NUL byte"
  | nulArgument => "nul byte found in provided data"
  | notText => "stream did not contain valid UTF-8"
  | noTree => "failed to create whole tree"
  | other text => text

def message (fault : IoFault) : String :=
  match fault.number? with
  | some n => fault.reason ++ " (os error " ++ Text.decimal n ++ ")"
  | none => fault.reason

end IoFault

end Skeleton
