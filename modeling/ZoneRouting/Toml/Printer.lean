import ZoneRouting.Hex
/-!
Writing values of configuration documents. A string stands in double quotes; where that would need
backslashes for quotes or backslashes, it stands in single quotes, and where single quotes or line
ends do not allow that, in three quotes.
-/
namespace ZoneRouting.Toml

inductive Quoting where
  | basic
  | literal
  | basicLines
  | literalLines
  deriving DecidableEq, Repr

def Quoting.quotes : Quoting → List Char
  | basic => ['"']
  | literal => ['\'']
  | basicLines => ['"', '"', '"']
  | literalLines => ['\'', '\'', '\'']

def longestRunOf (c : Char) : (here : Nat) → List Char → Nat
  | here, [] => here
  | here, d :: rest => if d = c then longestRunOf c (here + 1) rest else max here (longestRunOf c 0 rest)

def needsCode (c : Char) : Bool := c ≠ '\t' ∧ c ≠ '\n' ∧ (c.toNat < 0x20 ∨ c.toNat = 0x7f)

def quoting (s : List Char) : Quoting :=
  let codes := s.any needsCode
  let backslash := s.contains '\\'
  let lines := s.contains '\n'
  let double := longestRunOf '"' 0 s
  let single := longestRunOf '\'' 0 s
  if ¬ codes ∧ ¬ backslash ∧ double = 0 ∧ ¬ lines then .basic
  else if ¬ codes ∧ single = 0 ∧ ¬ lines then .literal
  else if ¬ codes ∧ ¬ backslash ∧ double ≤ 2 then .basicLines
  else if ¬ codes ∧ single ≤ 2 then .literalLines
  else if lines then .basicLines
  else .basic

def code (n : Nat) : List Char :=
  (Hex.digits (Bytes.ofNatBE 2 n)).map Char.toUpper

-- A string between double quotes. More than `allowed` double quotes in a row, of which there were
-- `run` just before, need a backslash, and so do line ends unless they are `kept`.
def escaped (allowed : Nat) (kept : Bool) : (run : Nat) → List Char → List Char
  | _, [] => []
  | run, '"' :: rest =>
    if run < allowed then '"' :: escaped allowed kept (run + 1) rest
    else '\\' :: '"' :: escaped allowed kept 0 rest
  | _, c :: rest =>
    let written :=
      if c = '\\' then ['\\', '\\']
      else if c = '\t' then ['\\', 't']
      else if c = '\n' then (if kept then ['\n'] else ['\\', 'n'])
      else if c = '\r' then ['\\', 'r']
      else if c = '\x08' then ['\\', 'b']
      else if c = '\x0c' then ['\\', 'f']
      else if needsCode c then '\\' :: 'u' :: code c.toNat
      else [c]
    written ++ escaped allowed kept 0 rest

def writeString (s : String) : String :=
  let cs := s.toList
  let q := quoting cs
  let content :=
    match q with
    | .basic => escaped 0 false 0 cs
    | .literal => cs
    | .basicLines => escaped 2 true 0 cs
    | .literalLines => cs
  let firstLineEnd := if cs.contains '\n' ∧ (q = .basicLines ∨ q = .literalLines) then ['\n'] else []
  String.ofList (q.quotes ++ firstLineEnd ++ content ++ q.quotes)

def writePair (key written : String) : String := key ++ " = " ++ written ++ "\n"

def writeNat? (n : Nat) : Option String :=
  if n < 9223372036854775808 then some (toString n) else none

end ZoneRouting.Toml
