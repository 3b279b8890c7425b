import ZoneRouting.Octets
import ZoneRouting.Hex
import ZoneRouting.Random
/-!
Identifiers of devices: sixteen octets, compared by full equality and ordered as octet strings. Their
text is 32 hexadecimal digits in five groups; reading also accepts the digits without hyphens, the
groups in braces, and the groups after `urn:uuid:` in letters of either case.
-/
namespace ZoneRouting

structure Identifier where
  octets : Octets 16
  deriving DecidableEq, Repr, Inhabited

namespace Identifier

def nil : Identifier := ⟨Octets.zero⟩

def isNil (id : Identifier) : Bool := id = nil

def toBytes (id : Identifier) : Bytes := id.octets.toBytes

def ofBytes (bytes : Bytes) : Identifier := ⟨Octets.ofBytes bytes⟩

def toNat (id : Identifier) : Nat := id.octets.value.toNat

instance : LE Identifier := ⟨fun a b => a.toNat ≤ b.toNat⟩

instance (a b : Identifier) : Decidable (a ≤ b) := inferInstanceAs (Decidable (a.toNat ≤ b.toNat))

instance : LT Identifier := ⟨fun a b => a.toNat < b.toNat⟩

instance (a b : Identifier) : Decidable (a < b) := inferInstanceAs (Decidable (a.toNat < b.toNat))

def ofWords (a b c d : UInt32) : Identifier :=
  ofBytes ([a, b, c, d].flatMap fun w => Bytes.ofNatBE 4 w.toNat)

def words (id : Identifier) : List UInt32 :=
  [96, 64, 32, 0].map fun shift => UInt32.ofNat (id.toNat >>> shift)

def random (g : Random) : Identifier × Random :=
  let (bytes, g) := g.octets 16
  let bytes := bytes.modify 6 fun b => (b &&& 0x0f) ||| 0x40
  let bytes := bytes.modify 8 fun b => (b &&& 0x3f) ||| 0x80
  (ofBytes bytes, g)

def text (id : Identifier) : String :=
  let digits := Hex.digits id.toBytes
  let group (start length : Nat) := (digits.drop start).take length
  String.ofList ("-".toList.intercalate
    [group 0 8, group 8 4, group 12 4, group 16 4, group 20 12])

def ungroup? (chars : List Char) : Option (List Char) :=
  let hyphen (i : Nat) := chars[i]? = some '-'
  if hyphen 8 ∧ hyphen 13 ∧ hyphen 18 ∧ hyphen 23 then
    let group (start length : Nat) := (chars.drop start).take length
    some (group 0 8 ++ group 9 4 ++ group 14 4 ++ group 19 4 ++ group 24 12)
  else none

def digits? (chars : List Char) : Option (List Char) :=
  match chars.length with
  | 32 => some chars
  | 36 => ungroup? chars
  | 38 =>
    if chars.head? = some '\x7b' ∧ chars.getLast? = some '\x7d' then ungroup? (chars.drop 1).dropLast
    else none
  | 45 =>
    if (chars.take 9).map Char.toLower = "urn:uuid:".toList then ungroup? (chars.drop 9) else none
  | _ => none

def ofText? (s : String) : Option Identifier := do
  let digits ← digits? s.toList
  let bytes ← Hex.ofDigits? digits
  if bytes.length = 16 then some (ofBytes bytes) else none

def describe (id : Identifier) : String := "Identifier(" ++ id.text ++ ")"

def sort (ids : List Identifier) : List Identifier := ids.mergeSort (· ≤ ·)

theorem perm_sort (ids : List Identifier) : (sort ids).Perm ids := List.mergeSort_perm ids _

theorem pairwise_sort (ids : List Identifier) : (sort ids).Pairwise (· ≤ ·) := by
  have h := @List.pairwise_mergeSort Identifier (fun a b => decide (a ≤ b))
    (fun a b c hab hbc => by
      rw [decide_eq_true_eq] at hab hbc ⊢
      exact Nat.le_trans hab hbc)
    (fun a b => by
      rw [Bool.or_eq_true, decide_eq_true_eq, decide_eq_true_eq]
      exact Nat.le_total a.toNat b.toNat) ids
  simp only [decide_eq_true_eq] at h
  exact h

@[simp] theorem length_to_bytes (id : Identifier) : id.toBytes.length = 16 := Octets.length_to_bytes _

@[simp] theorem of_bytes_to_bytes (id : Identifier) : ofBytes id.toBytes = id := by
  simp [ofBytes, toBytes]

theorem to_bytes_of_bytes {bytes : Bytes} (h : bytes.length = 16) : (ofBytes bytes).toBytes = bytes :=
  Octets.to_bytes_of_bytes h

end Identifier
end ZoneRouting
