import Skeleton.Text.CaseMapping
import Skeleton.Text.Cased

-- Whole texts in upper and in lower case.

namespace Skeleton.Text

def upper (s : String) : String := String.ofList (s.toList.flatMap upperForm)

def meetsCased (cs : List Char) : Bool := ((cs.dropWhile isCaseIgnorable).head?).any isCased

-- Lower case, with the characters before in `seen`, nearest first. A capital sigma at the end of
-- a word has a form of its own.
def lowerFrom (seen : List Char) : List Char → List Char
  | [] => []
  | c :: rest =>
    let form :=
      if c = 'Σ' then if meetsCased seen && !meetsCased rest then ['ς'] else ['σ']
      else lowerForm c
    form ++ lowerFrom (c :: seen) rest

def lower (s : String) : String := String.ofList (lowerFrom [] s.toList)

end Skeleton.Text
