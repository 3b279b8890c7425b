import ZoneRouting.Hex
/-!
Addresses of sockets and their text: four decimal numbers and a port, or eight hexadecimal groups in
brackets and a port. Reading is strict (no spaces, no names, no leading zeros in the decimal parts);
printing is canonical: the longest run of zero groups is left out, and mapped addresses end in
decimal parts.
-/
namespace ZoneRouting

inductive SocketAddress where
  | v4 (octets : Vector UInt8 4) (port : UInt16)
  | v6 (groups : Vector UInt16 8) (scope : UInt32) (port : UInt16)
  deriving DecidableEq, Repr, Inhabited

namespace SocketAddress

def everywhere (port : UInt16) : SocketAddress := .v4 #v[0, 0, 0, 0] port

abbrev Reader (α : Type) := List Char → Option (α × List Char)

def char (c : Char) : Reader Unit
  | d :: rest => if c = d then some ((), rest) else none
  | [] => none

def digits (isDigit : Char → Bool) (text : List Char) : List Char × List Char :=
  (text.takeWhile isDigit, text.dropWhile isDigit)

def part : Reader UInt8 := fun text =>
  let (ds, rest) := digits Char.isDigit text
  let n := Hex.number 256 10 ds
  if ds = [] ∨ 3 < ds.length ∨ (ds.head? = some '0' ∧ 1 < ds.length) ∨ 255 < n then none
  else some (UInt8.ofNat n, rest)

def parts : Reader (Vector UInt8 4) := fun text => do
  let (a, text) ← part text
  let (_, text) ← char '.' text
  let (b, text) ← part text
  let (_, text) ← char '.' text
  let (c, text) ← part text
  let (_, text) ← char '.' text
  let (d, text) ← part text
  return (#v[a, b, c, d], text)

def group : Reader UInt16 := fun text =>
  let (ds, rest) := digits (fun c => (Hex.value? c).isSome) text
  if ds = [] ∨ 4 < ds.length then none else some (UInt16.ofNat (Hex.number 65536 16 ds), rest)

def pairUp (high low : UInt8) : UInt16 := high.toUInt16 * 256 + low.toUInt16

def separated {α : Type} (first : Bool) (item : Reader α) : Reader α := fun text =>
  if first then item text
  else do
    let (_, text) ← char ':' text
    item text

-- Reads up to `n` groups, of which the last two may be written as decimal parts; tells whether they
-- were.
def groups : (n : Nat) → (first : Bool) → List Char → List UInt16 × Bool × List Char
  | 0, _, text => ([], false, text)
  | n + 1, first, text =>
    match if n = 0 then none else separated first parts text with
    | some (p, text) =>
      ([pairUp p[0] p[1], pairUp p[2] p[3]], true, text)
    | none =>
      match separated first group text with
      | none => ([], false, text)
      | some (g, text) =>
        let (gs, decimal, text) := groups n false text
        (g :: gs, decimal, text)

def eight? (gs : List UInt16) : Option (Vector UInt16 8) :=
  if h : gs.length = 8 then some ⟨gs.toArray, by simpa using h⟩ else none

def groups8 : Reader (Vector UInt16 8) := fun text =>
  let (front, decimal, text) := groups 8 true text
  match eight? front with
  | some gs => some (gs, text)
  | none => do
    if decimal then none
    let (_, text) ← char ':' text
    let (_, text) ← char ':' text
    let (back, _, text) := groups (7 - front.length) true text
    let gs ← eight? (front ++ List.replicate (8 - front.length - back.length) 0 ++ back)
    return (gs, text)

def number (bound : Nat) : Reader Nat := fun text =>
  let (ds, rest) := digits Char.isDigit text
  let n := Hex.number bound 10 ds
  if ds = [] ∨ bound ≤ n then none else some (n, rest)

def port : Reader UInt16 := fun text => do
  let (_, text) ← char ':' text
  let (n, text) ← number 65536 text
  return (UInt16.ofNat n, text)

def readV4 : Reader SocketAddress := fun text => do
  let (octets, text) ← parts text
  let (port, text) ← port text
  return (.v4 octets port, text)

def scope : Reader UInt32 := fun text =>
  match char '%' text with
  | none => some (0, text)
  | some (_, text) => (number 4294967296 text).map fun (n, text) => (UInt32.ofNat n, text)

def readV6 : Reader SocketAddress := fun text => do
  let (_, text) ← char '[' text
  let (groups, text) ← groups8 text
  let (scope, text) ← scope text
  let (_, text) ← char ']' text
  let (port, text) ← port text
  return (.v6 groups scope port, text)

def ofText? (s : String) : Option SocketAddress :=
  match readV4 s.toList with
  | some (address, []) => some address
  | _ =>
    match readV6 s.toList with
    | some (address, []) => some address
    | _ => none

def partsText (octets : List UInt8) : String := ".".intercalate (octets.map fun b => toString b.toNat)

def groupText (g : UInt16) : String := String.ofList (Nat.toDigits 16 g.toNat)

def groupsText (gs : List UInt16) : String := ":".intercalate (gs.map groupText)

def zeros (gs : List UInt16) : Nat := (gs.takeWhile (· = 0)).length

def longestRun : (at_ : Nat) → List UInt16 → Nat × Nat
  | _, [] => (0, 0)
  | at_, g :: gs =>
    let here := zeros (g :: gs)
    let (start, length) := longestRun (at_ + 1) gs
    if here ≥ length ∧ 0 < here then (at_, here) else (start, length)

def text8 (gs : List UInt16) : String :=
  match gs with
  | [0, 0, 0, 0, 0, 0xffff, hi, lo] =>
    "::ffff:" ++ partsText ([hi, lo].flatMap fun g => [(g / 256).toUInt8, g.toUInt8])
  | _ =>
    let (start, length) := longestRun 0 gs
    if 1 < length then groupsText (gs.take start) ++ "::" ++ groupsText (gs.drop (start + length))
    else groupsText gs

def text : SocketAddress → String
  | v4 octets port => partsText octets.toList ++ ":" ++ toString port.toNat
  | v6 gs scope port =>
    "[" ++ text8 gs.toList ++ (if scope = 0 then "" else "%" ++ toString scope.toNat) ++ "]:"
      ++ toString port.toNat

end SocketAddress
end ZoneRouting
