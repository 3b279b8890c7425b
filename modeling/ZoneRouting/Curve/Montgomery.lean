import ZoneRouting.Curve.Field
import ZoneRouting.Octets

namespace ZoneRouting.Curve

structure Ladder where
  (x₂ z₂ x₃ z₃ : Nat)

def Ladder.advance (u : Nat) (s : Ladder) : Ladder :=
  let a := add s.x₂ s.z₂
  let aa := mul a a
  let b := sub s.x₂ s.z₂
  let bb := mul b b
  let e := sub aa bb
  let da := mul (sub s.x₃ s.z₃) a
  let cb := mul (add s.x₃ s.z₃) b
  let plus := add da cb
  let minus := sub da cb
  { x₂ := mul aa bb
    z₂ := mul e (add aa (mul 121665 e))
    x₃ := mul plus plus
    z₃ := mul u (mul minus minus) }

def Ladder.swap (s : Ladder) : Ladder := ⟨s.x₃, s.z₃, s.x₂, s.z₂⟩

def multiply (scalar u : Nat) : Nat :=
  let start : Ladder := ⟨1, 0, u, 1⟩
  let final := (List.range 255).foldr (fun i (s : Ladder) =>
    if scalar.testBit i then (s.swap.advance u).swap else s.advance u) start
  mul final.x₂ (inverse final.z₂)

def clamp (secret : Nat) : Nat := (1 <<< 254) + secret % (1 <<< 254) / 8 * 8

-- The octets that a secret and a peer's public key agree on. The highest bit of the public key is
-- ignored.
def agree (secret peer : Octets 32) : Octets 32 :=
  let u := Bytes.toNatLE peer.toBytes % topBit % prime
  Octets.ofBytes (Bytes.ofNatLE 32 (multiply (clamp (Bytes.toNatLE secret.toBytes)) u))

def exchangeKey (secret : Octets 32) : Octets 32 :=
  Octets.ofBytes (Bytes.ofNatLE 32 (multiply (clamp (Bytes.toNatLE secret.toBytes)) 9))

end ZoneRouting.Curve
