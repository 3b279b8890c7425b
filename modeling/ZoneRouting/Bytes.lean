namespace ZoneRouting

abbrev Bytes := List UInt8

namespace Bytes

def ofNatLE : (width : Nat) → Nat → Bytes
  | 0, _ => []
  | width + 1, n => UInt8.ofNat n :: ofNatLE width (n / 256)

def toNatLE : Bytes → Nat
  | [] => 0
  | b :: rest => b.toNat + 256 * toNatLE rest

def ofNatBE (width n : Nat) : Bytes := (ofNatLE width n).reverse

def capacity (width : Nat) : Nat := 1 <<< (8 * width)

def toNatBE (bytes : Bytes) : Nat := toNatLE bytes.reverse

def splitExact? : (n : Nat) → Bytes → Option (Bytes × Bytes)
  | 0, bytes => some ([], bytes)
  | _ + 1, [] => none
  | n + 1, b :: rest => (splitExact? n rest).map fun (taken, left) => (b :: taken, left)

def xor (a b : Bytes) : Bytes := List.zipWith (· ^^^ ·) a b

def ofAscii (s : String) : Bytes := s.toList.map fun c => UInt8.ofNat c.toNat

def ofText (s : String) : Bytes := s.toUTF8.toList

def toText? (bytes : Bytes) : Option String := String.fromUTF8? (ByteArray.mk bytes.toArray)

@[simp] theorem length_of_nat_le (width n : Nat) : (ofNatLE width n).length = width := by
  induction width generalizing n with
  | zero => rfl
  | succ width ih => simp [ofNatLE, ih]

@[simp] theorem length_of_nat_be (width n : Nat) : (ofNatBE width n).length = width := by
  simp [ofNatBE]

theorem capacity_zero : capacity 0 = 1 := rfl

theorem capacity_succ (width : Nat) : capacity (width + 1) = 256 * capacity width := by
  rw [capacity, capacity, Nat.mul_succ, Nat.shiftLeft_add, Nat.shiftLeft_eq _ 8]
  omega

theorem to_nat_le_lt (bytes : Bytes) : toNatLE bytes < capacity bytes.length := by
  induction bytes with
  | nil => decide
  | cons b rest ih =>
    have hb := b.toNat_lt
    rw [toNatLE, List.length_cons, capacity_succ]
    omega

theorem to_nat_le_of_nat_le (width n : Nat) : toNatLE (ofNatLE width n) = n % capacity width := by
  induction width generalizing n with
  | zero => simp [ofNatLE, toNatLE, capacity_zero, Nat.mod_one]
  | succ width ih =>
    have hb : (UInt8.ofNat n).toNat = n % 256 := UInt8.toNat_ofNat'
    rw [ofNatLE, toNatLE, ih, hb, capacity_succ, Nat.mod_mul]

theorem of_nat_le_to_nat_le (bytes : Bytes) : ofNatLE bytes.length (toNatLE bytes) = bytes := by
  induction bytes with
  | nil => rfl
  | cons b rest ih =>
    have hb := b.toNat_lt
    have hq : (b.toNat + 256 * toNatLE rest) / 256 = toNatLE rest := by omega
    have hr : UInt8.ofNat (b.toNat + 256 * toNatLE rest) = b := by
      apply UInt8.toNat_inj.1
      rw [UInt8.toNat_ofNat']
      omega
    simp [ofNatLE, toNatLE, hq, hr, ih]

theorem to_nat_be_of_nat_be (width n : Nat) : toNatBE (ofNatBE width n) = n % capacity width := by
  simp [toNatBE, ofNatBE, to_nat_le_of_nat_le]

theorem of_nat_be_to_nat_be (bytes : Bytes) : ofNatBE bytes.length (toNatBE bytes) = bytes := by
  have h := of_nat_le_to_nat_le bytes.reverse
  rw [List.length_reverse] at h
  simp [toNatBE, ofNatBE, h]

end Bytes
end ZoneRouting
