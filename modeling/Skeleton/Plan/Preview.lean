import Skeleton.Json
import Skeleton.Plan.Basic

-- What a plan would do, as text and as a document.

namespace Skeleton.Plan

def line : Operation → String
  | .makeDir path => "mkdir  " ++ path.text ++ "/\n"
  | .writeFile path content mode =>
    "write  " ++ path.text ++ " (" ++ Text.decimal content.utf8ByteSize ++ " bytes)"
      ++ (mode.map fun m => " mode " ++ Text.octal m).getD "" ++ "\n"

def text (p : Plan) : String :=
  String.join (p.operations.map line) ++ Text.decimal p.operations.length ++ " operation(s)\n"

-- The members of a document on an operation. The length of a content is in bytes.
def summary : Operation → Json
  | .makeDir path => .object [("path", .string path.text), ("kind", .string "mk_dir")]
  | .writeFile path content mode =>
    .object ([("path", .string path.text), ("kind", .string "write_file"),
      ("content_length", .integer content.utf8ByteSize)]
        ++ (mode.map fun m => ("mode", Json.integer m)).toList)

def json (p : Plan) : Json := .array (p.operations.map summary)

end Skeleton.Plan
