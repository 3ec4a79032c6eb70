import Skeleton.Text.Digits

-- Formats: texts with escapes and with places for arguments.

namespace Skeleton.Shell

def bytesOf (s : String) : List UInt8 := s.toUTF8.toList

def letterEscapes : List (Char × UInt8) :=
  [('a', 7), ('b', 8), ('t', 9), ('n', 10), ('v', 11), ('f', 12), ('r', 13), ('\\', 92)]

def octalDigits (most : Nat) (cs : List Char) : List Char :=
  (cs.take most).takeWhile fun c => '0' ≤ c && c ≤ '7'

-- The byte of an escape, and what follows it. Within arguments, a zero goes before the digits.
def escape? (inArgument : Bool) (cs : List Char) : Option (UInt8 × List Char) :=
  match cs with
  | [] => none
  | c :: rest =>
    match letterEscapes.lookup c with
    | some b => some (b, rest)
    | none =>
      let (digits, rest) :=
        if inArgument && c = '0' then (octalDigits 3 rest, rest) else (octalDigits 3 cs, cs)
      if digits.isEmpty && !(inArgument && c = '0') then none
      else
        some (UInt8.ofNat ((Text.readDigits? 8 0 digits).getD 0), rest.drop digits.length)

-- The bytes of a text with escapes, and whether one of them ends all output.
def unescape (cs : List Char) : Nat → List UInt8 × Bool
  | 0 => ([], false)
  | fuel + 1 =>
    match cs with
    | [] => ([], false)
    | '\\' :: 'c' :: _ => ([], true)
    | '\\' :: rest =>
      match escape? true rest with
      | some (b, rest) =>
        let (more, stops) := unescape rest fuel
        (b :: more, stops)
      | none =>
        let (more, stops) := unescape rest fuel
        (92 :: more, stops)
    | c :: rest =>
      let (more, stops) := unescape rest fuel
      (bytesOf (String.singleton c) ++ more, stops)

def escapedBytes (s : String) : List UInt8 × Bool := unescape s.toList (s.length + 1)

structure Directive where
  flags : List Char
  width : Nat
  precision : Option Nat
  conversion : Char

inductive Item where
  | bytes (b : List UInt8)
  | directive (d : Directive)
  | unknown (text : String)

def readDirective (cs : List Char) : Item × List Char :=
  let flags := cs.takeWhile fun c => "-+ 0#".toList.contains c
  let rest := cs.drop flags.length
  let width := rest.takeWhile Text.isDigit
  let rest := rest.drop width.length
  let (precision, rest) :=
    match rest with
    | '.' :: rest =>
      let digits := rest.takeWhile Text.isDigit
      (some ((Text.readDigits? 10 0 digits).getD 0), rest.drop digits.length)
    | _ => (none, rest)
  match rest with
  | [] => (.unknown ("%" ++ String.ofList cs), [])
  | c :: rest =>
    if "bscdiouxX".toList.contains c then
      (.directive ⟨flags, (Text.readDigits? 10 0 width).getD 0, precision, c⟩, rest)
    else (.unknown ("%" ++ String.ofList (cs.take (cs.length - rest.length))), rest)

-- The items of a format. `fuel` bounds their count.
def itemsOf (cs : List Char) : Nat → List Item
  | 0 => []
  | fuel + 1 =>
    match cs with
    | [] => []
    | '%' :: '%' :: rest => .bytes [37] :: itemsOf rest fuel
    | '%' :: rest =>
      let (item, rest) := readDirective rest
      item :: itemsOf rest fuel
    | '\\' :: rest =>
      match escape? false rest with
      | some (b, rest) => .bytes [b] :: itemsOf rest fuel
      | none => .bytes [92] :: itemsOf rest fuel
    | c :: rest => .bytes (bytesOf (String.singleton c)) :: itemsOf rest fuel

-- The number that an argument is: with a sign, in base eight or sixteen by its front, or the code
-- of a character behind a quote.
def numberOf? (s : String) : Option Int :=
  match s.toList with
  | [] => some 0
  | '\'' :: c :: _ => some c.toNat
  | '"' :: c :: _ => some c.toNat
  | '0' :: 'x' :: rest => Text.readInt? 16 rest
  | '0' :: rest => if rest.isEmpty then some 0 else (Text.readNat? 8 rest).map Int.ofNat
  | cs => Text.readInt? 10 cs

def Directive.pad (d : Directive) (numeric : Bool) (s : List UInt8) : List UInt8 :=
  let missing := d.width - s.length
  if d.flags.contains '-' then s ++ List.replicate missing 32
  else if numeric && d.flags.contains '0' && d.precision.isNone then
    match s with
    | 45 :: rest => 45 :: (List.replicate missing 48 ++ rest)
    | _ => List.replicate missing 48 ++ s
  else List.replicate missing 32 ++ s

def Directive.numeral (d : Directive) (n : Int) : List UInt8 :=
  let word := if n < 0 then (n + UInt64.size).toNat else n.toNat
  let digits (s : String) : String := Text.padLeft (d.precision.getD 1) '0' s
  let text :=
    if d.conversion = 'o' then digits (Text.octal word)
    else if d.conversion = 'x' then digits (String.ofList (Text.natDigits 16 word))
    else if d.conversion = 'X' then
      digits (String.ofList ((Text.natDigits 16 word).map Char.toUpper))
    else if d.conversion = 'u' then digits (Text.decimal word)
    else
      let sign := if n < 0 then "-" else if d.flags.contains '+' then "+"
        else if d.flags.contains ' ' then " " else ""
      sign ++ digits (Text.decimal n.natAbs)
  bytesOf text

-- What comes of a format: bytes, the arguments that are left, those that are no numbers though
-- they should be, the directive that is none, and whether an escape ended it.
structure Printed where
  bytes : List UInt8
  rest : List String
  notNumbers : List String
  unknown : Option String
  stopped : Bool

-- Puts arguments in their places. Missing ones are empty.
def printItems (args : List String) : List Item → Printed
  | [] => ⟨[], args, [], none, false⟩
  | .bytes b :: items =>
    let p := printItems args items
    { p with bytes := b ++ p.bytes }
  | .unknown text :: _ => ⟨[], args, [], some text, true⟩
  | .directive d :: items =>
    let arg := args.headD ""
    let p := printItems args.tail items
    if d.conversion = 's' then
      let text := (bytesOf arg).take (d.precision.getD (bytesOf arg).length)
      { p with bytes := d.pad false text ++ p.bytes }
    else if d.conversion = 'c' then
      { p with bytes := d.pad false ((bytesOf arg).take 1) ++ p.bytes }
    else if d.conversion = 'b' then
      let (text, stops) := escapedBytes arg
      if stops then ⟨d.pad false text, [], [], none, true⟩
      else { p with bytes := d.pad false text ++ p.bytes }
    else
      match numberOf? arg with
      | some n => { p with bytes := d.pad true (d.numeral n) ++ p.bytes }
      | none =>
        { p with bytes := d.pad true (d.numeral 0) ++ p.bytes, notNumbers := arg :: p.notNumbers }

def Item.takesArgument : Item → Bool
  | .directive _ => true
  | _ => false

-- Uses a format as often as there are arguments for it. `fuel` bounds how often.
def printAgain (items : List Item) (args : List String) : Nat → Printed
  | 0 => ⟨[], args, [], none, false⟩
  | fuel + 1 =>
    let p := printItems args items
    if p.stopped || p.rest.isEmpty || !items.any Item.takesArgument then p
    else
      let q := printAgain items p.rest fuel
      { q with bytes := p.bytes ++ q.bytes, notNumbers := p.notNumbers ++ q.notNumbers }

def printFormat (format : String) (args : List String) : Printed :=
  printAgain (itemsOf format.toList (format.length + 1)) args (args.length + 1)

end Skeleton.Shell
