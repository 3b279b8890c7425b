import ZoneRouting.Bytes

namespace ZoneRouting.Hex

def digit (n : Nat) : Char := "0123456789abcdef".toList.getD n '0'

def value? (c : Char) : Option Nat :=
  if '0' ≤ c ∧ c ≤ '9' then some (c.toNat - '0'.toNat)
  else if 'a' ≤ c ∧ c ≤ 'f' then some (c.toNat - 'a'.toNat + 10)
  else if 'A' ≤ c ∧ c ≤ 'F' then some (c.toNat - 'A'.toNat + 10)
  else none

-- The number that digits write in a base of at most sixteen. Once it has reached a limit, no more
-- digits count, so that it is below the limit exactly if the whole number is.
def number (limit base : Nat) (ds : List Char) : Nat :=
  ds.foldl (fun n d => if n < limit then base * n + (value? d).getD 0 else n) 0

def octet (b : UInt8) : List Char := [digit (b.toNat / 16), digit (b.toNat % 16)]

def digits (bytes : Bytes) : List Char := bytes.flatMap octet

def encode (bytes : Bytes) : String := String.ofList (digits bytes)

def ofDigits? : List Char → Option Bytes
  | [] => some []
  | [_] => none
  | hi :: lo :: rest => do
    let h ← value? hi
    let l ← value? lo
    let bytes ← ofDigits? rest
    some (UInt8.ofNat (16 * h + l) :: bytes)

def decode? (s : String) : Option Bytes := ofDigits? s.toList

end ZoneRouting.Hex
