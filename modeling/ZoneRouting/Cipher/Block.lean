import ZoneRouting.Bytes

namespace ZoneRouting

structure Block where
  (a b c d : UInt32)
  deriving DecidableEq, Repr, Inhabited

namespace Block

def column (a b c d : UInt8) : UInt32 :=
  (a.toUInt32 <<< 24) + (b.toUInt32 <<< 16) + (c.toUInt32 <<< 8) + d.toUInt32

def top (x : UInt32) : UInt8 := (x >>> 24).toUInt8

def upper (x : UInt32) : UInt8 := (x >>> 16).toUInt8

def lower (x : UInt32) : UInt8 := (x >>> 8).toUInt8

def bottom (x : UInt32) : UInt8 := x.toUInt8

def writeBefore (x : Block) (rest : Bytes) : Bytes :=
  top x.a :: upper x.a :: lower x.a :: bottom x.a ::
    top x.b :: upper x.b :: lower x.b :: bottom x.b ::
    top x.c :: upper x.c :: lower x.c :: bottom x.c ::
    top x.d :: upper x.d :: lower x.d :: bottom x.d :: rest

def toBytes (x : Block) : Bytes := x.writeBefore []

def ofBytes : Bytes → Block
  | a₀ :: a₁ :: a₂ :: a₃ :: b₀ :: b₁ :: b₂ :: b₃ ::
      c₀ :: c₁ :: c₂ :: c₃ :: d₀ :: d₁ :: d₂ :: d₃ :: _ =>
    ⟨column a₀ a₁ a₂ a₃, column b₀ b₁ b₂ b₃, column c₀ c₁ c₂ c₃, column d₀ d₁ d₂ d₃⟩
  | _ => default

def xor (x y : Block) : Block := ⟨x.a ^^^ y.a, x.b ^^^ y.b, x.c ^^^ y.c, x.d ^^^ y.d⟩

theorem to_nat_column (a b c d : UInt8) :
    (column a b c d).toNat = 16777216 * a.toNat + 65536 * b.toNat + 256 * c.toNat + d.toNat := by
  have ha := a.toNat_lt
  have hb := b.toNat_lt
  have hc := c.toNat_lt
  have hd := d.toNat_lt
  simp [column, UInt32.toNat_add, UInt32.toNat_shiftLeft, Nat.shiftLeft_eq]
  omega

theorem to_nat_top (x : UInt32) : (top x).toNat = x.toNat / 16777216 := by
  have hx := x.toNat_lt
  simp [top, UInt32.toNat_shiftRight, Nat.shiftRight_eq_div_pow]
  omega

theorem to_nat_upper (x : UInt32) : (upper x).toNat = x.toNat / 65536 % 256 := by
  simp [upper, UInt32.toNat_shiftRight, Nat.shiftRight_eq_div_pow]

theorem to_nat_lower (x : UInt32) : (lower x).toNat = x.toNat / 256 % 256 := by
  simp [lower, UInt32.toNat_shiftRight, Nat.shiftRight_eq_div_pow]

theorem to_nat_bottom (x : UInt32) : (bottom x).toNat = x.toNat % 256 := by simp [bottom]

theorem column_top (x : UInt32) : column (top x) (upper x) (lower x) (bottom x) = x := by
  apply UInt32.toNat_inj.1
  rw [to_nat_column, to_nat_top, to_nat_upper, to_nat_lower, to_nat_bottom]
  omega

theorem top_column (a b c d : UInt8) : top (column a b c d) = a := by
  have hb := b.toNat_lt
  have hc := c.toNat_lt
  have hd := d.toNat_lt
  apply UInt8.toNat_inj.1
  rw [to_nat_top, to_nat_column]
  omega

theorem upper_column (a b c d : UInt8) : upper (column a b c d) = b := by
  have hb := b.toNat_lt
  have hc := c.toNat_lt
  have hd := d.toNat_lt
  apply UInt8.toNat_inj.1
  rw [to_nat_upper, to_nat_column]
  omega

theorem lower_column (a b c d : UInt8) : lower (column a b c d) = c := by
  have hc := c.toNat_lt
  have hd := d.toNat_lt
  apply UInt8.toNat_inj.1
  rw [to_nat_lower, to_nat_column]
  omega

theorem bottom_column (a b c d : UInt8) : bottom (column a b c d) = d := by
  have hd := d.toNat_lt
  apply UInt8.toNat_inj.1
  rw [to_nat_bottom, to_nat_column]
  omega

theorem write_before_eq (x : Block) (rest : Bytes) : x.writeBefore rest = x.toBytes ++ rest := rfl

@[simp] theorem length_to_bytes (x : Block) : x.toBytes.length = 16 := rfl

@[simp] theorem of_bytes_to_bytes (x : Block) : ofBytes x.toBytes = x := by
  simp only [toBytes, writeBefore, ofBytes, column_top]

theorem to_bytes_of_bytes {bytes : Bytes} (h : bytes.length = 16) :
    (ofBytes bytes).toBytes = bytes := by
  match bytes, h with
  | [_, _, _, _, _, _, _, _, _, _, _, _, _, _, _, _], _ =>
    simp only [ofBytes, toBytes, writeBefore, top_column, upper_column, lower_column, bottom_column]

theorem to_bytes_xor (x y : Block) : (x.xor y).toBytes = Bytes.xor x.toBytes y.toBytes := by
  simp only [xor, toBytes, writeBefore, top, upper, lower, bottom, UInt32.shiftRight_xor, UInt32.toUInt8_xor]
  rfl

@[simp] theorem xor_xor (x y : Block) : (x.xor y).xor y = x := by
  simp only [xor, UInt32.xor_assoc, UInt32.xor_self, UInt32.xor_zero]

end Block
end ZoneRouting
