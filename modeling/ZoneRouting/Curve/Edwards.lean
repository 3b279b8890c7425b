import ZoneRouting.Curve.Montgomery
import ZoneRouting.Hash.Sha512
/-!
Signatures on Curve25519 in Edwards form (Ed25519). A point is written as its coordinate `y` with
the lowest bit of `x` on top. Verification recomputes the commitment from the rest of the signature
and compares what it would be written as with what the signature holds. Multiples of a point are
taken by the scalar's digits of four bits.
-/
namespace ZoneRouting.Curve

def order : Nat := 7237005577332262213973186563042994240857116359379907606001950938285454250989

def edwardsD : Nat := 37095705934669439343138083508754565189542113879843219016388785533085940283555

def rootOfMinusOne : Nat :=
  19681161376707505956807079304988542015446066515923890162744021073123829784752

structure Point where
  (x y z t : Nat)

namespace Point

def zero : Point := ⟨0, 1, 1, 0⟩

def base : Point :=
  let x := 15112221349535400772501151409588531511454012693041857206046113283949847762202
  let y := 46316835694926478169428394003475163141307993866256225615783033603165251855960
  ⟨x, y, 1, mul x y⟩

def add (p q : Point) : Point :=
  let a := mul (sub p.y p.x) (sub q.y q.x)
  let b := mul (Curve.add p.y p.x) (Curve.add q.y q.x)
  let c := mul (mul p.t (2 * edwardsD)) q.t
  let d := mul (2 * p.z) q.z
  let e := sub b a
  let f := sub d c
  let g := Curve.add d c
  let h := Curve.add b a
  ⟨mul e f, mul g h, mul f g, mul e h⟩

def double (p : Point) : Point :=
  let a := mul p.x p.x
  let b := mul p.y p.y
  let zz := mul p.z p.z
  let c := Curve.add zz zz
  let h := Curve.add a b
  let s := Curve.add p.x p.y
  let e := sub h (mul s s)
  let g := sub a b
  let f := Curve.add c g
  ⟨mul e f, mul g h, mul f g, mul e h⟩

def neg (p : Point) : Point := ⟨sub 0 p.x, p.y, p.z, sub 0 p.t⟩

def digit (scalar i : Nat) : Nat := (scalar >>> (4 * i)) % 16

def multiples (p : Point) : Array Point :=
  (List.range 15).foldl (fun ms i => ms.push ((ms.getD i zero).add p)) #[zero]

def scale (scalar : Nat) (p : Point) : Point :=
  let table := p.multiples
  (List.range 64).foldr (fun i acc =>
    acc.double.double.double.double.add (table.getD (digit scalar i) zero)) zero

def baseMultiples : Array (Array Point) :=
  ((List.range 64).foldl (fun (tables, p) _ =>
    let table := multiples p
    (tables.push table, (table.getD 15 zero).add p)) ((#[] : Array (Array Point)), base)).1

def ofScalar (scalar : Nat) : Point :=
  (List.range 64).foldl (fun acc i =>
    acc.add ((baseMultiples.getD i #[]).getD (digit scalar i) zero)) zero

def encode (p : Point) : Bytes :=
  let inv := inverse p.z
  let x := mul p.x inv
  let y := mul p.y inv
  Bytes.ofNatLE 32 (y + x % 2 * topBit)

def root? (u v : Nat) : Option Nat :=
  let v3 := mul (mul v v) v
  let v7 := mul (mul v3 v3) v
  let r := mul (mul u v3) (rootPower (mul u v7))
  let check := mul v (mul r r)
  if check = u then some r
  else if check = sub 0 u then some (mul r rootOfMinusOne)
  else none

-- The point that a number of 256 bits writes, if it writes one. The coordinate `y` is taken modulo
-- the prime.
def decode? (written : Nat) : Option Point :=
  let y := written % topBit % prime
  let yy := mul y y
  (root? (sub yy 1) (Curve.add (mul edwardsD yy) 1)).map fun r =>
    let x := if r % 2 = written / topBit then r else sub 0 r
    ⟨x, y, 1, mul x y⟩

end Point

def signingSecrets (seed : Octets 32) : Nat × Bytes :=
  let h := Sha512.digest seed.toBytes
  (clamp (Bytes.toNatLE (h.take 32)), h.drop 32)

def signingKey (seed : Octets 32) : Octets 32 :=
  Octets.ofBytes ((Point.ofScalar (signingSecrets seed).1).encode)

def challenge (bytes : Bytes) : Nat := Bytes.toNatLE (Sha512.digest bytes) % order

def sign (seed : Octets 32) (message : Bytes) : Bytes :=
  let (scalar, nonce) := signingSecrets seed
  let r := challenge (nonce ++ message)
  let commitment := (Point.ofScalar r).encode
  let k := challenge (commitment ++ (signingKey seed).toBytes ++ message)
  commitment ++ Bytes.ofNatLE 32 ((r + k * scalar) % order)

inductive SignatureFault where
  | key
  | scalar
  | equation
  deriving DecidableEq, Repr

def isPoint (key : Octets 32) : Bool := (Point.decode? (Bytes.toNatLE key.toBytes)).isSome

def verify (key : Octets 32) (message signature : Bytes) : Except SignatureFault Unit :=
  match Point.decode? (Bytes.toNatLE key.toBytes) with
  | none => .error .key
  | some a =>
    let commitment := signature.take 32
    let answer := Bytes.toNatLE (signature.drop 32)
    if answer < order then
      let k := challenge (commitment ++ key.toBytes ++ message)
      let expected := ((Point.ofScalar answer).add (a.neg.scale k)).encode
      if expected = commitment then .ok () else .error .equation
    else .error .scalar

end ZoneRouting.Curve
