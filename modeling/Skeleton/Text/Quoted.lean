import Skeleton.Text.Digits
import Skeleton.Text.Printable

-- Texts in double quotes for messages, with escapes for what does not show.

namespace Skeleton.Text

-- What a character is between the quotes: the usual escapes, `\u{...}` for other characters that
-- cannot be shown, and else itself.
def showChar (c : Char) : List Char :=
  if c = '"' then ['\\', '"']
  else if c = '\\' then ['\\', '\\']
  else if c = '\n' then ['\\', 'n']
  else if c = '\r' then ['\\', 'r']
  else if c = '\t' then ['\\', 't']
  else if c = '\x00' then ['\\', '0']
  else if isPrintable c then [c]
  else ['\\', 'u', '\x7b'] ++ natDigits 16 c.toNat ++ ['\x7d']

def quoted (s : String) : String :=
  String.ofList ('"' :: (s.toList.flatMap showChar ++ ['"']))

end Skeleton.Text
