import Skeleton.Shell.Lexer

-- The grammar of scripts:
--
--     lines    := (list? newline)*
--     list     := chain ((`;` | `&`) chain)*
--     chain    := pipeline ((`&&` | `||`) pipeline)*
--     pipeline := `!`? command (`|` command)*
--     command  := simple | (`(` list `)` | `{` list `}` | if | for | while | case)
--                 redirection*
--
-- Between brackets and reserved words, line breaks separate like semicolons.

namespace Skeleton.Shell

abbrev Tokens := List (Nat × Token)

-- Reading stops at a fault, which has the number of its line.
abbrev Attempt := Except (Nat × SyntaxFault)

def closingWords : List String := ["then", "elif", "else", "fi", "do", "done", "esac", "\x7d"]

def lineOf (tokens : Tokens) : Nat := (tokens.head?.map Prod.fst).getD 1

def nextWord? (tokens : Tokens) : Option String :=
  match tokens with
  | (_, .word w) :: _ => w.plain?
  | _ => none

def nextText (tokens : Tokens) : String :=
  match tokens with
  | [] => "end of file"
  | (_, .finish) :: _ => "end of file"
  | (_, .newline) :: _ => "newline"
  | (_, .redirect _ _) :: _ => "redirection"
  | (_, .operator s) :: _ => "\"" ++ s ++ "\""
  | (_, .word w) :: _ =>
    match w.plain?.filter closingWords.contains with
    | some s => "\"" ++ s ++ "\""
    | none => "word"

def unexpected {α : Type} (tokens : Tokens) (wanted : Option String) : Attempt (α × Tokens) :=
  .error (lineOf tokens, .unexpected (nextText tokens) wanted)

-- Whether no command starts here.
def closes (tokens : Tokens) : Bool :=
  match tokens with
  | [] => true
  | (_, .finish) :: _ => true
  | (_, .newline) :: _ => true
  | (_, .operator s) :: _ => s = ")" || s = ";;"
  | (_, .redirect _ _) :: _ => false
  | (_, .word w) :: _ => w.plain?.any closingWords.contains

def skipNewlines : Tokens → Tokens
  | (_, .newline) :: rest => skipNewlines rest
  | tokens => tokens

def expectWord (wanted : String) (tokens : Tokens) : Attempt (Unit × Tokens) :=
  if nextWord? tokens = some wanted then .ok ((), tokens.tail)
  else unexpected tokens (some ("\"" ++ wanted ++ "\""))

def assignment? (w : Word) : Option (String × Word) :=
  let name := w.takeWhile fun p => p.plain?.any isNamePart
  match w.drop name.length with
  | .char '=' false :: value =>
    match Word.plain? name with
    | some s => if s.toList.head?.any isNameStart then some (s, value) else none
    | none => none
  | _ => none

-- A redirection. Without a number, what is read comes from the first descriptor, and what is
-- written goes to the second.
def redirection (descriptor : Option Nat) (direction : Direction) (target : Word) : Redirection :=
  ⟨descriptor.getD (if direction = .input then 0 else 1), direction, target⟩

structure Parts where
  assignments : List (String × Word)
  words : List Word
  redirections : List Redirection

def parseParts (p : Parts) : Tokens → Attempt (Parts × Tokens)
  | (_, .redirect descriptor direction) :: (_, .word target) :: rest =>
    let r := redirection descriptor direction target
    parseParts { p with redirections := p.redirections ++ [r] } rest
  | (_, .redirect _ _) :: rest => unexpected rest none
  | (_, .word w) :: rest =>
    match if p.words.isEmpty then assignment? w else none with
    | some a => parseParts { p with assignments := p.assignments ++ [a] } rest
    | none => parseParts { p with words := p.words ++ [w] } rest
  | tokens => .ok (p, tokens)

def parseRedirections : Tokens → List Redirection × Tokens
  | (_, .redirect descriptor direction) :: (_, .word target) :: rest =>
    let (more, rest) := parseRedirections rest
    (redirection descriptor direction target :: more, rest)
  | tokens => ([], tokens)

def parseWords : Tokens → List Word × Tokens
  | (_, .word w) :: rest =>
    let (more, rest) := parseWords rest
    (w :: more, rest)
  | tokens => ([], tokens)

def skipSeparator : Tokens → Tokens
  | (_, .operator ";") :: rest => skipNewlines rest
  | tokens => skipNewlines tokens

mutual

-- Reads a list. `fuel` bounds the depth of the recursion.
def parseList (broken : Bool) (tokens : Tokens) : Nat → Attempt (Command × Tokens)
  | 0 => unexpected tokens none
  | fuel + 1 =>
    let tokens := if broken then skipNewlines tokens else tokens
    if closes tokens then .ok (.nothing, tokens)
    else do
      let (command, tokens) ← parseChain tokens fuel
      match tokens with
      | (_, .operator ";") :: rest => parseMore broken command rest fuel
      | (_, .operator "&") :: rest => parseMore broken command rest fuel
      | (_, .newline) :: rest =>
        if broken then parseMore broken command rest fuel else .ok (command, tokens)
      | _ => .ok (command, tokens)

def parseMore (broken : Bool) (first : Command) (tokens : Tokens) : Nat → Attempt (Command × Tokens)
  | 0 => unexpected tokens none
  | fuel + 1 => do
    let (second, tokens) ← parseList broken tokens fuel
    .ok (.both first second, tokens)

def parseChain (tokens : Tokens) : Nat → Attempt (Command × Tokens)
  | 0 => unexpected tokens none
  | fuel + 1 => do
    let (first, tokens) ← parsePipeline tokens fuel
    parseChainRest first tokens fuel

def parseChainRest (first : Command) (tokens : Tokens) : Nat → Attempt (Command × Tokens)
  | 0 => unexpected tokens none
  | fuel + 1 =>
    match tokens with
    | (_, .operator "&&") :: rest => do
      let (second, rest) ← parsePipeline (skipNewlines rest) fuel
      parseChainRest (.andThen first second) rest fuel
    | (_, .operator "||") :: rest => do
      let (second, rest) ← parsePipeline (skipNewlines rest) fuel
      parseChainRest (.orElse first second) rest fuel
    | _ => .ok (first, tokens)

def parsePipeline (tokens : Tokens) : Nat → Attempt (Command × Tokens)
  | 0 => unexpected tokens none
  | fuel + 1 =>
    if nextWord? tokens = some "!" then do
      let (command, tokens) ← parsePipeline tokens.tail fuel
      .ok (.negated command, tokens)
    else do
      let (first, tokens) ← parseCommand tokens fuel
      match tokens with
      | (_, .operator "|") :: rest =>
        let (second, rest) ← parsePipeline (skipNewlines rest) fuel
        .ok (.pipe first second, rest)
      | _ => .ok (first, tokens)

def parseCommand (tokens : Tokens) : Nat → Attempt (Command × Tokens)
  | 0 => unexpected tokens none
  | fuel + 1 =>
    match tokens with
    | (_, .operator "(") :: rest => do
      let (body, rest) ← parseList true rest fuel
      match rest with
      | (_, .operator ")") :: rest =>
        let (redirections, rest) := parseRedirections rest
        .ok (.subshell body redirections, rest)
      | _ => unexpected rest (some "\")\"")
    | _ =>
      match nextWord? tokens with
      | some "\x7b" => do
        let (body, rest) ← parseList true tokens.tail fuel
        let ((), rest) ← expectWord "\x7d" rest
        let (redirections, rest) := parseRedirections rest
        .ok (.group body redirections, rest)
      | some "if" => do
        let (choice, rest) ← parseChoice tokens.tail fuel
        let (redirections, rest) := parseRedirections rest
        .ok (.group choice redirections, rest)
      | some "for" => parseEach tokens.tail fuel
      | some "while" => parseLoop true tokens.tail fuel
      | some "until" => parseLoop false tokens.tail fuel
      | some "case" => parseCases tokens.tail fuel
      | _ => do
        let (p, rest) ← parseParts ⟨[], [], []⟩ tokens
        if rest.length = tokens.length || closes tokens then unexpected tokens none
        else .ok (.simple (lineOf tokens) p.assignments p.words p.redirections, rest)

-- What follows `if` or `elif`, up to `fi`.
def parseChoice (tokens : Tokens) : Nat → Attempt (Command × Tokens)
  | 0 => unexpected tokens none
  | fuel + 1 => do
    let (test, rest) ← parseList true tokens fuel
    let ((), rest) ← expectWord "then" rest
    let (accepted, rest) ← parseList true rest fuel
    if nextWord? rest = some "elif" then
      let (refused, rest) ← parseChoice rest.tail fuel
      .ok (.choice test accepted refused, rest)
    else if nextWord? rest = some "else" then
      let (refused, rest) ← parseList true rest.tail fuel
      let ((), rest) ← expectWord "fi" rest
      .ok (.choice test accepted refused, rest)
    else
      let ((), rest) ← expectWord "fi" rest
      .ok (.choice test accepted .nothing, rest)

def parseLoop (expected : Bool) (tokens : Tokens) : Nat → Attempt (Command × Tokens)
  | 0 => unexpected tokens none
  | fuel + 1 => do
    let (test, rest) ← parseList true tokens fuel
    let ((), rest) ← expectWord "do" rest
    let (body, rest) ← parseList true rest fuel
    let ((), rest) ← expectWord "done" rest
    let (redirections, rest) := parseRedirections rest
    .ok (.group (.loop expected test body) redirections, rest)

def parseCases (tokens : Tokens) : Nat → Attempt (Command × Tokens)
  | 0 => unexpected tokens none
  | fuel + 1 =>
    match tokens with
    | (_, .word w) :: rest => do
      let ((), rest) ← expectWord "in" (skipNewlines rest)
      let (arms, rest) ← parseArms (skipNewlines rest) fuel
      let ((), rest) ← expectWord "esac" rest
      let (redirections, rest) := parseRedirections rest
      .ok (.group (.cases w arms) redirections, rest)
    | _ => unexpected tokens none

def parseArms (tokens : Tokens) : Nat → Attempt (List (List Word × Command) × Tokens)
  | 0 => unexpected tokens none
  | fuel + 1 =>
    if nextWord? tokens = some "esac" then .ok ([], tokens)
    else do
      let (patterns, rest) ← parsePatterns tokens fuel
      let (body, rest) ← parseList true rest fuel
      match rest with
      | (_, .operator ";;") :: rest =>
        let (arms, rest) ← parseArms (skipNewlines rest) fuel
        .ok ((patterns, body) :: arms, rest)
      | _ => .ok ([(patterns, body)], rest)

def parsePatterns (tokens : Tokens) : Nat → Attempt (List Word × Tokens)
  | 0 => unexpected tokens none
  | fuel + 1 =>
    match tokens with
    | (_, .operator "(") :: rest => parsePatterns rest fuel
    | (_, .word w) :: (_, .operator ")") :: rest => .ok ([w], rest)
    | (_, .word w) :: (_, .operator "|") :: rest => do
      let (patterns, rest) ← parsePatterns rest fuel
      .ok (w :: patterns, rest)
    | _ => unexpected tokens none

def parseEach (tokens : Tokens) : Nat → Attempt (Command × Tokens)
  | 0 => unexpected tokens none
  | fuel + 1 =>
    match nextWord? tokens with
    | none => unexpected tokens none
    | some name => do
      let rest := skipNewlines tokens.tail
      let (words, rest) :=
        if nextWord? rest = some "in" then parseWords rest.tail
        else ([[.parameter "@" none true]], rest)
      let ((), rest) ← expectWord "do" (skipSeparator rest)
      let (body, rest) ← parseList true rest fuel
      let ((), rest) ← expectWord "done" rest
      let (redirections, rest) := parseRedirections rest
      .ok (.group (.each name words body) redirections, rest)

end

-- Reads lines. `fuel` bounds their count, and the depth of what is in them.
def parseLines (tokens : Tokens) : Nat → Script
  | 0 => ⟨[], none⟩
  | fuel + 1 =>
    match skipNewlines tokens with
    | [] => ⟨[], none⟩
    | (_, .finish) :: _ => ⟨[], none⟩
    | tokens =>
      match parseList false tokens (fuel + 1) with
      | .error e => ⟨[], some e⟩
      | .ok (command, rest) =>
        match rest with
        | (_, .newline) :: rest =>
          let s := parseLines rest fuel
          ⟨command :: s.lines, s.fault⟩
        | (_, .finish) :: _ => ⟨[command], none⟩
        | [] => ⟨[command], none⟩
        | _ => ⟨[], some (lineOf rest, .unexpected (nextText rest) none)⟩

-- The script in a text. What is none on a line keeps the whole line from being one.
def parseScript (text : String) : Script :=
  let (tokens, fault) := tokens text.toList
  match fault with
  | none => parseLines tokens (8 * tokens.length + 8)
  | some e =>
    let whole := (tokens.reverse.dropWhile fun (_, t) => t ≠ .newline).reverse
    let s := parseLines whole (8 * tokens.length + 8)
    ⟨s.lines, some (s.fault.getD e)⟩

end Skeleton.Shell
