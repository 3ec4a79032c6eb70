-- Text in bytes that need not be text throughout.

namespace Skeleton.Text

-- A character that is being read: the bits that are known, how many bytes follow, and what the
-- next one may be.
structure Unfinished where
  bits : Nat
  left : Nat
  low : Nat
  high : Nat

-- What the first byte of a longer character starts. The range of the byte after it keeps out
-- spellings that are too long, surrogates, and what is beyond the last character.
def lead? (b : Nat) : Option Unfinished :=
  if 0xC2 ≤ b && b ≤ 0xDF then some ⟨b - 0xC0, 1, 0x80, 0xBF⟩
  else if b = 0xE0 then some ⟨0, 2, 0xA0, 0xBF⟩
  else if b = 0xED then some ⟨0x0D, 2, 0x80, 0x9F⟩
  else if 0xE1 ≤ b && b ≤ 0xEF then some ⟨b - 0xE0, 2, 0x80, 0xBF⟩
  else if b = 0xF0 then some ⟨0, 3, 0x90, 0xBF⟩
  else if 0xF1 ≤ b && b ≤ 0xF3 then some ⟨b - 0xF0, 3, 0x80, 0xBF⟩
  else if b = 0xF4 then some ⟨4, 3, 0x80, 0x8F⟩
  else none

def replacement : Char := '\uFFFD'

def startCharacter (b : Nat) : List Char × Option Unfinished :=
  if b < 0x80 then ([Char.ofNat b], none)
  else
    match lead? b with
    | some u => ([], some u)
    | none => ([replacement], none)

-- Takes a byte. A character that it cannot go on with ends before it.
def takeByte (state : Option Unfinished) (b : Nat) : List Char × Option Unfinished :=
  match state with
  | none => startCharacter b
  | some u =>
    if u.low ≤ b && b ≤ u.high then
      let bits := u.bits * 64 + (b - 0x80)
      if u.left = 1 then ([Char.ofNat bits], none) else ([], some ⟨bits, u.left - 1, 0x80, 0xBF⟩)
    else
      let (chars, state) := startCharacter b
      (replacement :: chars, state)

def charactersFrom (state : Option Unfinished) : List UInt8 → List Char
  | [] => if state.isSome then [replacement] else []
  | b :: rest =>
    let (chars, state) := takeByte state b.toNat
    chars ++ charactersFrom state rest

-- The text in bytes. Each longest part that starts a character and does not end it is replaced by
-- one mark, and so is each byte that starts none.
def ofBytes (bytes : ByteArray) : String := String.ofList (charactersFrom none bytes.toList)

end Skeleton.Text
