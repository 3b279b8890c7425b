import ZoneRouting.Toml.Scan

namespace ZoneRouting.Toml

def nestingLimit : Nat := 80

def dottedKey : Reader (List String) := key (nestingLimit - 1)

-- Reads the elements of an array and the closing bracket, up to `fuel` elements after those that
-- were `read`, latest first.
def elements (item : Reader Value) : (fuel : Nat) → (read : List Value) → Reader (List Value)
  | 0, _, _ => none
  | fuel + 1, read, text =>
    match skipLines false text with
    | ']' :: rest => some (read.reverse, rest)
    | text =>
      match item text with
      | none => none
      | some (v, rest) =>
        match skipLines false rest with
        | ',' :: rest => elements item fuel (v :: read) rest
        | ']' :: rest => some ((v :: read).reverse, rest)
        | _ => none

def pair (item : Reader Value) : Reader (List String × Value) := fun text =>
  (dottedKey text).bind fun (path, rest) =>
    match rest with
    | '=' :: rest => (item (skipBlanks rest)).map fun (v, rest) => ((path, v), rest)
    | _ => none

def pairs (item : Reader Value) : (fuel : Nat) → Entries → Reader Entries
  | 0, _, _ => none
  | fuel + 1, entries, text =>
    (pair item text).bind fun ((path, v), rest) =>
      (assign v path .inline entries).bind fun entries =>
        match skipBlanks rest with
        | ',' :: rest => pairs item fuel entries rest
        | '\x7d' :: rest => some (entries, rest)
        | _ => none

def anyValue (fuel : Nat) : (depth : Nat) → Reader Value
  | depth, text =>
    match text with
    | '[' :: rest =>
      match depth with
      | 0 => none
      | depth + 1 =>
        (elements (anyValue fuel depth) fuel [] rest).map fun (vs, rest) => (.array vs, rest)
    | '\x7b' :: rest =>
      match depth with
      | 0 => none
      | depth + 1 =>
        match skipBlanks rest with
        | '\x7d' :: rest => some (.table .inline [], rest)
        | rest =>
          (pairs (anyValue fuel depth) fuel [] rest).map fun (entries, rest) =>
            (.table .inline entries, rest)
    | 't' :: 'r' :: 'u' :: 'e' :: rest => some (.boolean true, rest)
    | 'f' :: 'a' :: 'l' :: 's' :: 'e' :: rest => some (.boolean false, rest)
    | _ =>
      match string text with
      | some (s, rest) => some (.string s, rest)
      | none =>
        match datetime? text with
        | some rest => some (.datetime, rest)
        | none =>
          match float? text with
          | some rest => some (.float, rest)
          | none => (integer text).map fun (n, rest) => (.integer n, rest)

def header (closing : List Char) (opened : List String → Entries → Option Entries) (root : Entries) :
    Reader (List String × Entries) := fun text =>
  (dottedKey text).bind fun (path, rest) =>
    if rest.take closing.length = closing then
      (opened path root).map fun root => ((path, root), rest.drop closing.length)
    else none

-- Reads up to `fuel` lines of a document with fewer than `size` values. Keys go to the table at
-- `path`, the one that was opened last.
def lines (size : Nat) : (fuel : Nat) → (path : List String) → Entries → List Char → Option Entries
  | 0, _, _, _ => none
  | fuel + 1, path, root, text =>
    match skipBlanks text with
    | [] => some root
    | '[' :: '[' :: rest =>
      (header [']', ']'] openElement root rest).bind fun ((path, root), rest) =>
        (lineEnd? rest).bind fun rest => lines size fuel path root rest
    | '[' :: rest =>
      (header [']'] openTable root rest).bind fun ((path, root), rest) =>
        (lineEnd? rest).bind fun rest => lines size fuel path root rest
    | text =>
      match lineEnd? text with
      | some rest => lines size fuel path root rest
      | none =>
        (pair (anyValue size (nestingLimit - 1)) text).bind fun ((keys, v), rest) =>
          (descend (assign v keys .header) path root).bind fun root =>
            (lineEnd? rest).bind fun rest => lines size fuel path root rest

def document? (s : String) : Option Entries :=
  let text :=
    match s.toList with
    | '\ufeff' :: text => text
    | text => text
  let size := text.length + 1
  lines size size [] [] text

end ZoneRouting.Toml
