import ZoneRouting.Hex
import ZoneRouting.Toml.Value
/-!
The words of configuration documents: white space, comments, strings, keys, numbers and dates. Each
function reads from the front of a text and leaves the rest, or finds that the text does not begin
with what it reads.
-/
namespace ZoneRouting.Toml

abbrev Reader (α : Type) := List Char → Option (α × List Char)

def isBlank (c : Char) : Bool := c = ' ' ∨ c = '\t'

def skipBlanks (text : List Char) : List Char := text.dropWhile isBlank

def isPlain (c : Char) : Bool := c = '\t' ∨ (0x20 ≤ c.toNat ∧ c.toNat ≠ 0x7f)

def newline? : List Char → Option (List Char)
  | '\n' :: rest => some rest
  | '\r' :: '\n' :: rest => some rest
  | _ => none

def skipComment : List Char → List Char
  | '#' :: rest => rest.dropWhile isPlain
  | text => text

def lineEnd? (text : List Char) : Option (List Char) :=
  match skipComment (skipBlanks text) with
  | [] => some []
  | text => newline? text

def skipLines : (comment : Bool) → List Char → List Char
  | _, '\n' :: rest => skipLines false rest
  | _, '\r' :: '\n' :: rest => skipLines false rest
  | false, '#' :: rest => skipLines true rest
  | false, c :: rest => if isBlank c then skipLines false rest else c :: rest
  | true, c :: rest => if isPlain c then skipLines true rest else c :: rest
  | _, [] => []

def codePoint? (digits : List Char) : Option Char := do
  let values ← digits.mapM Hex.value?
  let n := values.foldl (fun n d => 16 * n + d) 0
  if n.isValidChar then some (Char.ofNat n) else none

def escape? : Char → Option Char
  | 'b' => some '\x08'
  | 't' => some '\t'
  | 'n' => some '\n'
  | 'f' => some '\x0c'
  | 'r' => some '\r'
  | '"' => some '"'
  | '\\' => some '\\'
  | _ => none

def basic : (read : List Char) → Reader (List Char)
  | read, '"' :: rest => some (read.reverse, rest)
  | read, '\\' :: 'u' :: a :: b :: c :: d :: rest =>
    match codePoint? [a, b, c, d] with
    | some ch => basic (ch :: read) rest
    | none => none
  | read, '\\' :: 'U' :: a :: b :: c :: d :: e :: f :: g :: h :: rest =>
    match codePoint? [a, b, c, d, e, f, g, h] with
    | some ch => basic (ch :: read) rest
    | none => none
  | read, '\\' :: c :: rest =>
    match escape? c with
    | some ch => basic (ch :: read) rest
    | none => none
  | read, c :: rest => if isPlain c ∧ c ≠ '\\' then basic (c :: read) rest else none
  | _, [] => none

def literal : (read : List Char) → Reader (List Char)
  | read, '\'' :: rest => some (read.reverse, rest)
  | read, c :: rest => if isPlain c then literal (c :: read) rest else none
  | _, [] => none

-- Reads a string in three double quotes, after the opening ones and what was `read`, latest first.
-- A backslash at the end of a line takes away the blanks and line ends up to the next other character,
-- which is what `trimming` tells.
def basicLines : (trimming : Bool) → (read : List Char) → Reader (List Char)
  | true, read, ' ' :: rest => basicLines true read rest
  | true, read, '\t' :: rest => basicLines true read rest
  | true, read, '\n' :: rest => basicLines true read rest
  | true, read, '\r' :: '\n' :: rest => basicLines true read rest
  | _, read, '"' :: '"' :: '"' :: '"' :: '"' :: rest => some (('"' :: '"' :: read).reverse, rest)
  | _, read, '"' :: '"' :: '"' :: '"' :: rest => some (('"' :: read).reverse, rest)
  | _, read, '"' :: '"' :: '"' :: rest => some (read.reverse, rest)
  | _, read, '\\' :: 'u' :: a :: b :: c :: d :: rest =>
    match codePoint? [a, b, c, d] with
    | some ch => basicLines false (ch :: read) rest
    | none => none
  | _, read, '\\' :: 'U' :: a :: b :: c :: d :: e :: f :: g :: h :: rest =>
    match codePoint? [a, b, c, d, e, f, g, h] with
    | some ch => basicLines false (ch :: read) rest
    | none => none
  | _, read, '\\' :: c :: rest =>
    if (newline? (skipBlanks (c :: rest))).isSome then basicLines true read (c :: rest)
    else
      match escape? c with
      | some ch => basicLines false (ch :: read) rest
      | none => none
  | _, read, '\r' :: '\n' :: rest => basicLines false ('\n' :: read) rest
  | _, read, '\n' :: rest => basicLines false ('\n' :: read) rest
  | _, read, c :: rest => if isPlain c ∧ c ≠ '\\' then basicLines false (c :: read) rest else none
  | _, _, [] => none

def literalLines : (read : List Char) → Reader (List Char)
  | read, '\'' :: '\'' :: '\'' :: '\'' :: '\'' :: rest => some (('\'' :: '\'' :: read).reverse, rest)
  | read, '\'' :: '\'' :: '\'' :: '\'' :: rest => some (('\'' :: read).reverse, rest)
  | read, '\'' :: '\'' :: '\'' :: rest => some (read.reverse, rest)
  | read, '\r' :: '\n' :: rest => literalLines ('\n' :: read) rest
  | read, '\n' :: rest => literalLines ('\n' :: read) rest
  | read, c :: rest => if isPlain c then literalLines (c :: read) rest else none
  | _, [] => none

def skipFirstLineEnd (text : List Char) : List Char := (newline? text).getD text

def string : Reader String := fun text =>
  let read : Option (List Char × List Char) :=
    match text with
    | '"' :: '"' :: '"' :: rest => basicLines false [] (skipFirstLineEnd rest)
    | '"' :: rest => basic [] rest
    | '\'' :: '\'' :: '\'' :: rest => literalLines [] (skipFirstLineEnd rest)
    | '\'' :: rest => literal [] rest
    | _ => none
  read.map fun (cs, rest) => (String.ofList cs, rest)

def isKeyChar (c : Char) : Bool := c.isAlphanum ∨ c = '_' ∨ c = '-'

def keyPart : Reader String
  | '"' :: rest => (basic [] rest).map fun (cs, rest) => (String.ofList cs, rest)
  | '\'' :: rest => (literal [] rest).map fun (cs, rest) => (String.ofList cs, rest)
  | text =>
    let (cs, rest) := (text.takeWhile isKeyChar, text.dropWhile isKeyChar)
    if cs = [] then none else some (String.ofList cs, rest)

def key : (fuel : Nat) → Reader (List String)
  | 0, _ => none
  | fuel + 1, text =>
    (keyPart (skipBlanks text)).bind fun (part, rest) =>
      match skipBlanks rest with
      | '.' :: rest => (key fuel rest).map fun (parts, rest) => (part :: parts, rest)
      | rest => some ([part], rest)

def digits (isDigit : Char → Bool) : (read : List Char) → Reader (List Char)
  | _, [] => none
  | read, [c] => if isDigit c then some ((c :: read).reverse, []) else none
  | read, c :: '_' :: rest => if isDigit c then digits isDigit (c :: read) rest else none
  | read, c :: d :: rest =>
    if ¬ isDigit c then none
    else if isDigit d then digits isDigit (c :: read) (d :: rest)
    else some ((c :: read).reverse, d :: rest)

def sign : List Char → Bool × List Char
  | '-' :: rest => (true, rest)
  | '+' :: rest => (false, rest)
  | text => (false, text)

def decimal : Reader (List Char)
  | '0' :: rest => some (['0'], rest)
  | text => digits Char.isDigit [] text

def wordLimit : Nat := 1 <<< 64

def inRange (n : Int) : Option Int :=
  if -9223372036854775808 ≤ n ∧ n < 9223372036854775808 then some n else none

def integer : Reader Int := fun text =>
  let based (base : Nat) (isDigit : Char → Bool) (rest : List Char) : Option (Int × List Char) :=
    (digits isDigit [] rest).bind fun (ds, rest) =>
      (inRange (Hex.number wordLimit base ds)).map fun n => (n, rest)
  match text with
  | '0' :: 'x' :: rest => based 16 (fun c => (Hex.value? c).isSome) rest
  | '0' :: 'o' :: rest => based 8 (fun c => '0' ≤ c ∧ c ≤ '7') rest
  | '0' :: 'b' :: rest => based 2 (fun c => c = '0' ∨ c = '1') rest
  | _ =>
    let (negative, rest) := sign text
    (decimal rest).bind fun (ds, rest) =>
      let n : Int := Hex.number wordLimit 10 ds
      (inRange (if negative then -n else n)).map fun n => (n, rest)

def exponentLimit : Nat := 65536

def exponent : Reader Int
  | c :: rest =>
    if c = 'e' ∨ c = 'E' then
      let (negative, rest) := sign rest
      (digits Char.isDigit [] rest).map fun (ds, rest) =>
        let n : Int := Hex.number exponentLimit 10 ds
        (if negative then -n else n, rest)
    else none
  | [] => none

def fraction : Reader (List Char)
  | '.' :: rest => digits Char.isDigit [] rest
  | _ => none

-- The digits in front of the point of the least number that is too large for double precision:
-- halfway from the largest such number to the next power of two.
def hugeDigits : Nat := 309

def isHuge (ds : List Char) (power : Int) : Bool :=
  let ds := ds.dropWhile (· = '0')
  let size : Int := ds.length + power
  if ds = [] ∨ size < hugeDigits then false
  else if hugeDigits < size then true
  else
    let whole := ds.take hugeDigits
    let whole := whole ++ List.replicate (hugeDigits - whole.length) '0'
    (1 <<< 1024) - (1 <<< 970) ≤ Hex.number (1 <<< 1024) 10 whole

def scientific : Reader (List Char × Int) := fun text =>
  (decimal text).bind fun (whole, rest) =>
    match exponent rest with
    | some (power, rest) => some ((whole, power), rest)
    | none =>
      (fraction rest).map fun (part, rest) =>
        match exponent rest with
        | some (power, rest) => ((whole ++ part, power - part.length), rest)
        | none => ((whole ++ part, -part.length), rest)

-- What follows a number with a fraction or an exponent, or a special one. A number above the range
-- of double precision is refused.
def float? (text : List Char) : Option (List Char) :=
  let (negative, unsigned) := sign text
  match unsigned with
  | 'i' :: 'n' :: 'f' :: rest => some rest
  | 'n' :: 'a' :: 'n' :: rest => some rest
  | _ =>
    (scientific unsigned).bind fun ((ds, power), rest) =>
      if ¬ negative ∧ isHuge ds power then none else some rest

def two (least most : Nat) : Reader Nat
  | a :: b :: rest =>
    let n := Hex.number 100 10 [a, b]
    if a.isDigit ∧ b.isDigit ∧ least ≤ n ∧ n ≤ most then some (n, rest) else none
  | _ => none

def daysIn (year month : Nat) : Nat :=
  if month = 2 then
    if year % 4 = 0 ∧ (year % 100 ≠ 0 ∨ year % 400 = 0) then 29 else 28
  else if month ∈ [4, 6, 9, 11] then 30
  else 31

def date? : List Char → Option (List Char)
  | a :: b :: c :: d :: '-' :: text =>
    if [a, b, c, d].all Char.isDigit then
      match two 1 12 text with
      | some (month, '-' :: text) =>
        (two 1 (daysIn (Hex.number 10000 10 [a, b, c, d]) month) text).map Prod.snd
      | _ => none
    else none
  | _ => none

def time? (text : List Char) : Option (List Char) :=
  match two 0 23 text with
  | some (_, ':' :: text) =>
    match two 0 59 text with
    | some (_, ':' :: text) =>
      (two 0 60 text).map fun (_, rest) =>
        match rest with
        | '.' :: d :: more => if d.isDigit then more.dropWhile Char.isDigit else rest
        | _ => rest
    | _ => none
  | _ => none

def skipOffset (text : List Char) : List Char :=
  match text with
  | 'Z' :: rest => rest
  | 'z' :: rest => rest
  | c :: rest =>
    if c = '+' ∨ c = '-' then
      match two 0 23 rest with
      | some (_, ':' :: rest) => ((two 0 59 rest).map Prod.snd).getD text
      | _ => text
    else text
  | [] => []

def datetime? (text : List Char) : Option (List Char) :=
  match date? text with
  | none => time? text
  | some rest =>
    match rest with
    | c :: timed =>
      if c = 'T' ∨ c = 't' ∨ c = ' ' then
        match time? timed with
        | some rest => some (skipOffset rest)
        | none => some rest
      else some rest
    | [] => some []

end ZoneRouting.Toml
