import ZoneRouting.Bytes

namespace ZoneRouting

-- A string of `n` octets, held as the number that they write most significant octet first.
structure Octets (n : Nat) where
  value : BitVec (8 * n)
  deriving DecidableEq, Repr

namespace Octets

variable {n : Nat}

def zero : Octets n := ⟨0⟩

instance : Inhabited (Octets n) := ⟨zero⟩

def toBytes (x : Octets n) : Bytes := Bytes.ofNatBE n x.value.toNat

-- The string that a list of octets holds, read as a number; a list of another length is cut or
-- filled with zeros in front.
def ofBytes (bytes : Bytes) : Octets n := ⟨BitVec.ofNat (8 * n) (Bytes.toNatBE bytes)⟩

def ofBytes? (bytes : Bytes) : Option (Octets n) :=
  if bytes.length = n then some (ofBytes bytes) else none

def xor (x y : Octets n) : Octets n := ⟨x.value ^^^ y.value⟩

@[simp] theorem length_to_bytes (x : Octets n) : x.toBytes.length = n := by simp [toBytes]

theorem to_nat_value_lt (x : Octets n) : x.value.toNat < Bytes.capacity n := by
  rw [Bytes.capacity, Nat.one_shiftLeft]
  exact x.value.isLt

@[simp] theorem of_bytes_to_bytes (x : Octets n) : ofBytes x.toBytes = x := by
  have hx := x.to_nat_value_lt
  obtain ⟨v⟩ := x
  simp only [ofBytes, toBytes, Bytes.to_nat_be_of_nat_be, mk.injEq]
  rw [Nat.mod_eq_of_lt hx, BitVec.ofNat_toNat, BitVec.setWidth_eq]

theorem to_bytes_of_bytes {bytes : Bytes} (h : bytes.length = n) :
    (ofBytes bytes : Octets n).toBytes = bytes := by
  subst h
  have hlt : Bytes.toNatBE bytes < Bytes.capacity bytes.length := by
    have h := Bytes.to_nat_le_lt bytes.reverse
    rw [List.length_reverse] at h
    exact h
  rw [Bytes.capacity, Nat.one_shiftLeft] at hlt
  rw [toBytes, ofBytes, BitVec.toNat_ofNat, Nat.mod_eq_of_lt hlt, Bytes.of_nat_be_to_nat_be]

@[simp] theorem of_bytes?_to_bytes (x : Octets n) : ofBytes? x.toBytes = some x := by
  simp [ofBytes?]

theorem of_bytes?_some {bytes : Bytes} {x : Octets n} (h : ofBytes? bytes = some x) :
    x.toBytes = bytes := by
  unfold ofBytes? at h
  split at h
  · rename_i hl
    cases h
    exact to_bytes_of_bytes hl
  · cases h

@[simp] theorem xor_xor (x y : Octets n) : (x.xor y).xor y = x := by
  obtain ⟨v⟩ := x
  simp only [xor, BitVec.xor_assoc, BitVec.xor_self, BitVec.xor_zero]

end Octets
end ZoneRouting
