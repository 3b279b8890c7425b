import ZoneRouting.Bytes
/-!
The source of octets that a device draws from. A source is the words that some generator gives, one
after the other, and how many of them have been drawn; whoever draws returns the source that the next
draw starts from.
-/
namespace ZoneRouting

structure Random where
  word : Nat → UInt64
  drawn : Nat

namespace Random

-- The SplitMix64 generator, which scrambles the multiples of one constant.
def scramble (z : UInt64) : UInt64 :=
  let z := (z ^^^ (z >>> 30)) * 0xBF58476D1CE4E5B9
  let z := (z ^^^ (z >>> 27)) * 0x94D049BB133111EB
  z ^^^ (z >>> 31)

def ofSeed (seed : UInt64) : Random where
  word n := scramble (seed + UInt64.ofNat (n + 1) * 0x9E3779B97F4A7C15)
  drawn := 0

instance : Inhabited Random := ⟨ofSeed 0⟩

def next (g : Random) : UInt64 × Random := (g.word g.drawn, { g with drawn := g.drawn + 1 })

def words : Nat → Random → Bytes × Random
  | 0, g => ([], g)
  | n + 1, g =>
    let (w, g) := g.next
    let (rest, g) := words n g
    (Bytes.ofNatLE 8 w.toNat ++ rest, g)

-- Draws whole words, and leaves out what the last one has too much.
def octets (n : Nat) (g : Random) : Bytes × Random :=
  let (bytes, g) := words ((n + 7) / 8) g
  (bytes.take n, g)

theorem length_words (n : Nat) (g : Random) : (words n g).1.length = 8 * n := by
  induction n generalizing g with
  | zero => rfl
  | succ n ih => simp [words, ih]; omega

@[simp] theorem length_octets (n : Nat) (g : Random) : (octets n g).1.length = n := by
  simp [octets, length_words]; omega

end Random
end ZoneRouting
