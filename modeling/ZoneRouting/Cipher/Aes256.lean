import ZoneRouting.Cipher.Block
/-!
The block cipher AES with keys of 256 bits. Each of the fourteen rounds substitutes every octet of a
block, rotates the rows, mixes each column and adds a round key. Octets are polynomials over two
elements modulo x⁸ + x⁴ + x³ + x + 1, and the substitution is computed from the inverse in that
field. Mixing is linear, so a mixed column is the sum of what its four octets add to it, and that is
looked up.
-/
namespace ZoneRouting.Aes256

open Block (column top upper lower bottom)

def double (a : UInt8) : UInt8 := if a < 0x80 then a <<< 1 else (a <<< 1) ^^^ 0x1b

def mul (a b : UInt8) : UInt8 :=
  (List.range 8).foldr (fun i acc =>
    if (b >>> UInt8.ofNat i) &&& 1 = 1 then double acc ^^^ a else double acc) 0

def inverse (a : UInt8) : UInt8 :=
  let odd := (List.range 7).foldl (fun acc _ => mul (mul acc acc) a) 1
  mul odd odd

def rotate (a : UInt8) (n : UInt8) : UInt8 := (a <<< n) ||| (a >>> (8 - n))

def substitute (a : UInt8) : UInt8 :=
  let b := inverse a
  b ^^^ rotate b 1 ^^^ rotate b 2 ^^^ rotate b 3 ^^^ rotate b 4 ^^^ 0x63

def box : Array UInt8 := (Array.range 256).map fun i => substitute (UInt8.ofNat i)

def inverseBox : Array UInt8 :=
  (List.range 256).foldl (fun t i => t.setIfInBounds (box.getD i 0).toNat (UInt8.ofNat i))
    (Array.replicate 256 0)

def look {α : Type} [Inhabited α] (table : Array α) (a : UInt8) : α := table.getD a.toNat default

def turn (x bits : UInt32) : UInt32 := (x >>> bits) ||| (x <<< (32 - bits))

def mixed : Array UInt32 := box.map fun s => column (double s) s s (double s ^^^ s)

def unmixed : Array UInt32 := (Array.range 256).map fun i =>
  let s := UInt8.ofNat i
  column (mul s 14) (mul s 9) (mul s 13) (mul s 11)

-- The sum of what the octets of a column add. In the rows below the top, an octet adds the same as
-- there, moved down with it.
def combine (table : Array UInt32) (a b c d : UInt8) : UInt32 :=
  look table a ^^^ turn (look table b) 8 ^^^ turn (look table c) 16 ^^^ turn (look table d) 24

def exchange (table : Array UInt8) (a b c d : UInt8) : UInt32 :=
  column (look table a) (look table b) (look table c) (look table d)

@[inline] def shiftRows (f : UInt8 → UInt8 → UInt8 → UInt8 → UInt32) (x : Block) : Block :=
  ⟨f (top x.a) (upper x.b) (lower x.c) (bottom x.d),
    f (top x.b) (upper x.c) (lower x.d) (bottom x.a),
    f (top x.c) (upper x.d) (lower x.a) (bottom x.b),
    f (top x.d) (upper x.a) (lower x.b) (bottom x.c)⟩

@[inline] def unshiftRows (f : UInt8 → UInt8 → UInt8 → UInt8 → UInt32) (x : Block) : Block :=
  ⟨f (top x.a) (upper x.d) (lower x.c) (bottom x.b),
    f (top x.b) (upper x.a) (lower x.d) (bottom x.c),
    f (top x.c) (upper x.b) (lower x.a) (bottom x.d),
    f (top x.d) (upper x.c) (lower x.b) (bottom x.a)⟩

def unmix (x : UInt32) : UInt32 := combine unmixed (top x) (upper x) (lower x) (bottom x)

def unmixColumns (x : Block) : Block := ⟨unmix x.a, unmix x.b, unmix x.c, unmix x.d⟩

structure Schedule where
  first : Block
  middle : List Block
  last : Block

def substituteColumn (x : UInt32) : UInt32 := exchange box (top x) (upper x) (lower x) (bottom x)

def expand : (count i : Nat) → (round : UInt8) → (before : List UInt32) → List UInt32
  | 0, _, _, _ => []
  | count + 1, i, round, before =>
    let previous := before.headD 0
    let changed :=
      if i % 8 = 0 then substituteColumn (turn previous 24) ^^^ column round 0 0 0
      else if i % 8 = 4 then substituteColumn previous
      else previous
    let word := before.getD 7 0 ^^^ changed
    word :: expand count (i + 1) (if i % 8 = 0 then double round else round) (word :: before.take 7)

def group : List UInt32 → List Block
  | a :: b :: c :: d :: rest => ⟨a, b, c, d⟩ :: group rest
  | _ => []

def Schedule.ofKey (key : Bytes) : Schedule :=
  let (x, y) := (Block.ofBytes key, Block.ofBytes (key.drop 16))
  let given := [x.a, x.b, x.c, x.d, y.a, y.b, y.c, y.d]
  let keys := group (given ++ expand 52 8 1 given.reverse)
  ⟨keys.headD default, (keys.drop 1).take 13, keys.getLastD default⟩

def encrypt (s : Schedule) (block : Block) : Block :=
  let last := s.middle.foldl (fun x k => (shiftRows (combine mixed) x).xor k) (block.xor s.first)
  (shiftRows (exchange box) last).xor s.last

def decrypt (s : Schedule) (block : Block) : Block :=
  let last := unshiftRows (exchange inverseBox) (block.xor s.last)
  let start := s.middle.foldr
    (fun k x => unshiftRows (exchange inverseBox) (unmixColumns (x.xor k))) last
  start.xor s.first

end ZoneRouting.Aes256
