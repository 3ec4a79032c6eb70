import Skeleton.Execution.Text
import Skeleton.Hook.Running

-- How the programs that were run are shown.

namespace Skeleton

-- The lines of a text without their breaks. The last one may go without a break.
def linesOf (cs : List Char) : List (List Char) :=
  let parts := Text.splitAtEvery '\n' cs
  let whole := parts.dropLast.map fun line =>
    if line.getLast? = some '\r' then line.dropLast else line
  whole ++ (parts.getLast?.filter fun line => !line.isEmpty).toList

def HookResult.text (r : HookResult) : String :=
  labelled "hook" (r.name ++ " (" ++ Text.decimal r.duration ++ " ms)")
    ++ String.join ((linesOf r.stdout.toList).map fun line =>
      "  | " ++ String.ofList line ++ "\n")

end Skeleton
