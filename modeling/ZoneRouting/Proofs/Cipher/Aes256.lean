import ZoneRouting.Cipher.Aes256

set_option autoImplicit false

namespace ZoneRouting

namespace Block

theorem top_xor (x y : UInt32) : top (x ^^^ y) = top x ^^^ top y := by
  simp only [top, UInt32.shiftRight_xor, UInt32.toUInt8_xor]

theorem upper_xor (x y : UInt32) : upper (x ^^^ y) = upper x ^^^ upper y := by
  simp only [upper, UInt32.shiftRight_xor, UInt32.toUInt8_xor]

theorem lower_xor (x y : UInt32) : lower (x ^^^ y) = lower x ^^^ lower y := by
  simp only [lower, UInt32.shiftRight_xor, UInt32.toUInt8_xor]

theorem bottom_xor (x y : UInt32) : bottom (x ^^^ y) = bottom x ^^^ bottom y := UInt32.toUInt8_xor x y

theorem column_xor (a b c d a' b' c' d' : UInt8) :
    column a b c d ^^^ column a' b' c' d' = column (a ^^^ a') (b ^^^ b') (c ^^^ c') (d ^^^ d') := by
  rw [← column_top (column a b c d ^^^ column a' b' c' d')]
  simp only [top_xor, upper_xor, lower_xor, bottom_xor, top_column, upper_column, lower_column, bottom_column]

end Block

namespace Aes256

open Block

theorem octet_cases {p : UInt8 → Prop} (each : ∀ i : Fin 256, p (UInt8.ofNat i)) (a : UInt8) : p a := by
  have found := each ⟨a.toNat, a.toNat_lt⟩
  rwa [UInt8.ofNat_toNat] at found

theorem xor_left_comm (a b c : UInt8) : a ^^^ (b ^^^ c) = b ^^^ (a ^^^ c) := by
  rw [← UInt8.xor_assoc, UInt8.xor_comm a, UInt8.xor_assoc]

theorem xor_middle (a b c d : UInt8) : a ^^^ b ^^^ (c ^^^ d) = a ^^^ c ^^^ (b ^^^ d) := by
  rw [UInt8.xor_assoc, xor_left_comm b, ← UInt8.xor_assoc]

section Field

def excess (bit : UInt8) : UInt8 := if bit = 0 then 0 else 0x1b

theorem double_eq (a : UInt8) : double a = a <<< 1 ^^^ excess (a >>> 7) :=
  octet_cases (p := fun a => double a = a <<< 1 ^^^ excess (a >>> 7)) (by decide +kernel) a

theorem excess_xor (a b : UInt8) : excess ((a ^^^ b) >>> 7) = excess (a >>> 7) ^^^ excess (b >>> 7) := by
  have bit : ∀ a : UInt8, a >>> 7 = 0 ∨ a >>> 7 = 1 := octet_cases (by decide +kernel)
  rw [UInt8.shiftRight_xor]
  rcases bit a with h | h <;> rcases bit b with h' | h' <;> rw [h, h'] <;> rfl

theorem double_xor (a b : UInt8) : double (a ^^^ b) = double a ^^^ double b := by
  rw [double_eq, double_eq, double_eq, UInt8.shiftLeft_xor, excess_xor, xor_middle]

theorem mul_xor (a b n : UInt8) : mul (a ^^^ b) n = mul a n ^^^ mul b n := by
  unfold mul
  induction List.range 8 with
  | nil => exact UInt8.xor_self.symm
  | cons i is ih =>
      simp only [List.foldr_cons, ih, double_xor]
      split
      · exact xor_middle _ _ _ _
      · rfl

theorem mul_double (a n : UInt8) : mul (double a) n = double (mul a n) := by
  unfold mul
  induction List.range 8 with
  | nil => rfl
  | cons i is ih =>
      simp only [List.foldr_cons, ih]
      split
      · exact (double_xor _ _).symm
      · rfl

theorem one_mul (a : UInt8) : mul 1 a = a := octet_cases (p := fun a => mul 1 a = a) (by decide +kernel) a

-- The powers of three, which are all octets but zero.
def power : Nat → UInt8
  | 0 => 1
  | k + 1 => double (power k) ^^^ power k

theorem mul_power (j k : Nat) : mul (power j) (power k) = power (j + k) := by
  induction j with
  | zero => rw [Nat.zero_add]; exact one_mul (power k)
  | succ j ih => rw [power, mul_xor, mul_double, ih, Nat.add_right_comm, power]

theorem power_period (m k : Nat) : power (255 * m + k) = power k := by
  induction m with
  | zero => rw [Nat.mul_zero, Nat.zero_add]
  | succ m ih =>
      have turn : power 255 = 1 := by decide +kernel
      rw [Nat.mul_succ, Nat.add_right_comm, Nat.add_comm, ← mul_power, turn, one_mul, ih]

theorem inverse_power (k : Nat) : inverse (power k) = power (254 * k) := by
  have one : (1 : UInt8) = power 0 := rfl
  simp only [inverse, List.range, List.range.loop, List.foldl, one, mul_power]
  congr 1
  omega

-- The powers of some exponents, each marked by a bit of one number.
def marked (ks : List Nat) : Nat := ks.foldr (fun k marks => marks ||| 1 <<< (power k).toNat) 0

theorem power_of_marked {ks : List Nat} {n : Nat} (bit : (marked ks).testBit n) : ∃ k, (power k).toNat = n := by
  induction ks with
  | nil =>
      rw [marked, List.foldr_nil, Nat.zero_testBit] at bit
      cases bit
  | cons k ks ih =>
      have step : marked (k :: ks) = marked ks ||| 1 <<< (power k).toNat := rfl
      rw [step, Nat.testBit_or, Bool.or_eq_true, Nat.one_shiftLeft, Nat.testBit_two_pow] at bit
      rcases bit with before | here
      · exact ih before
      · exact ⟨k, of_decide_eq_true here⟩

theorem eq_power (a : UInt8) : a = 0 ∨ ∃ k, a = power k := by
  have all : ∀ a : UInt8, a = 0 ∨ (marked (List.range 255)).testBit a.toNat := octet_cases (by decide +kernel)
  rcases all a with zero | bit
  · exact Or.inl zero
  · obtain ⟨k, same⟩ := power_of_marked bit
    exact Or.inr ⟨k, UInt8.toNat_inj.mp same.symm⟩

-- The powers come around after 255, and the inverse is the 254th power.
theorem inverse_inverse (a : UInt8) : inverse (inverse a) = a := by
  rcases eq_power a with rfl | ⟨k, rfl⟩
  · decide +kernel
  · have whole : 254 * (254 * k) = 255 * (253 * k) + k := by omega
    rw [inverse_power, inverse_power, whole, power_period]

end Field

section Tables

def restore (b : UInt8) : UInt8 := rotate b 1 ^^^ rotate b 3 ^^^ rotate b 6 ^^^ 0x05

theorem restore_substitute (a : UInt8) : inverse (restore (substitute a)) = a := by
  have spread : ∀ b : UInt8, restore (b ^^^ rotate b 1 ^^^ rotate b 2 ^^^ rotate b 3 ^^^ rotate b 4 ^^^ 0x63) = b :=
    octet_cases (by decide +kernel)
  rw [substitute, spread, inverse_inverse]

theorem substitute_inj {a b : UInt8} (same : substitute a = substitute b) : a = b := by
  rw [← restore_substitute a, same, restore_substitute]

theorem look_map {α : Type} [Inhabited α] (f : Nat → α) (a : UInt8) : look ((Array.range 256).map f) a = f a.toNat := by
  have within : a.toNat < ((Array.range 256).map f).size := by
    rw [Array.size_map, Array.size_range]
    exact a.toNat_lt
  rw [look, Array.getD_eq_getD_getElem?, Array.getElem?_eq_getElem within, Array.getElem_map, Array.getElem_range]
  rfl

theorem look_box (a : UInt8) : look box a = substitute a := by
  rw [box, look_map, UInt8.ofNat_toNat]

theorem look_mixed (a : UInt8) :
    look mixed a = column (double (substitute a)) (substitute a) (substitute a) (double (substitute a) ^^^ substitute a) := by
  rw [mixed, box, Array.map_map, look_map]
  simp only [Function.comp, UInt8.ofNat_toNat]

theorem look_unmixed (a : UInt8) : look unmixed a = column (mul a 14) (mul a 9) (mul a 13) (mul a 11) := by
  rw [unmixed, look_map, UInt8.ofNat_toNat]

variable {place : Nat → Nat} {value : Nat → UInt8} {is : List Nat} {table : Array UInt8}

theorem unplaced {n : Nat} (apart : ∀ i ∈ is, place i ≠ n) :
    (is.foldl (fun t i => t.setIfInBounds (place i) (value i)) table)[n]? = table[n]? := by
  induction is generalizing table with
  | nil => rfl
  | cons j is ih =>
      rw [List.foldl_cons, ih (fun i member => apart i (List.mem_cons_of_mem j member)),
        Array.getElem?_setIfInBounds_ne (apart j List.mem_cons_self)]

theorem placed (once : is.Pairwise fun i j => place j ≠ place i) (within : ∀ i ∈ is, place i < table.size) {i : Nat}
    (member : i ∈ is) : (is.foldl (fun t i => t.setIfInBounds (place i) (value i)) table)[place i]? = some (value i) := by
  induction is generalizing table with
  | nil => cases member
  | cons j is ih =>
      obtain ⟨first, rest⟩ := List.pairwise_cons.mp once
      rw [List.foldl_cons]
      rcases List.mem_cons.mp member with rfl | later
      · rw [unplaced first, Array.getElem?_setIfInBounds_self_of_lt (within i List.mem_cons_self)]
      · refine ih rest (fun i member => ?_) later
        rw [Array.size_setIfInBounds]
        exact within i (List.mem_cons_of_mem j member)

theorem look_inverse_box (a : UInt8) : look inverseBox (look box a) = a := by
  have entry : ∀ i ∈ List.range 256, (box.getD i 0).toNat = (substitute (UInt8.ofNat i)).toNat := by
    intro i member
    have octet : (UInt8.ofNat i).toNat = i := UInt8.toNat_ofNat_of_lt' (List.mem_range.mp member)
    have found := look_box (UInt8.ofNat i)
    rw [look, octet] at found
    exact congrArg UInt8.toNat found
  have once : (List.range 256).Pairwise fun i j => (box.getD j 0).toNat ≠ (box.getD i 0).toNat := by
    refine List.pairwise_lt_range.imp_of_mem fun {i j} member member' less same => ?_
    rw [entry i member, entry j member'] at same
    have same' := congrArg UInt8.toNat (substitute_inj (UInt8.toNat_inj.mp same))
    rw [UInt8.toNat_ofNat_of_lt' (List.mem_range.mp member), UInt8.toNat_ofNat_of_lt' (List.mem_range.mp member')] at same'
    exact Nat.ne_of_gt less same'
  have within : ∀ i ∈ List.range 256, (box.getD i 0).toNat < (Array.replicate 256 (0 : UInt8)).size := by
    intro i _
    rw [Array.size_replicate]
    exact UInt8.toNat_lt _
  have here : a.toNat ∈ List.range 256 := List.mem_range.mpr a.toNat_lt
  have found := @placed _ UInt8.ofNat _ _ once within _ here
  rw [entry _ here, UInt8.ofNat_toNat] at found
  rw [look_box, look, inverseBox, Array.getD_eq_getD_getElem?, found]
  rfl

end Tables

section Rounds

-- The octets that a turn moves over the end come back at the other end, so its two parts share no bit.
theorem to_nat_turn (x : UInt32) {bits : UInt32} {n : Nat} (count : bits.toNat = n) (pos : 0 < n) (small : n < 32) :
    (turn x bits).toNat = x.toNat >>> n + x.toNat <<< (32 - n) % 4294967296 := by
  have whole : 2 ^ (32 - n) * 2 ^ n = 4294967296 := by
    rw [← Nat.pow_add, Nat.sub_add_cancel (Nat.le_of_lt small)]
  have back : (32 - bits).toNat = 32 - n := by
    rw [UInt32.toNat_sub_of_le _ _ (UInt32.le_iff_toNat_le.mpr (count ▸ Nat.le_of_lt small)), count]
    rfl
  have low : x.toNat >>> n < 2 ^ (32 - n) := by
    rw [Nat.shiftRight_eq_div_pow]
    apply Nat.div_lt_of_lt_mul
    rw [Nat.mul_comm, whole]
    exact x.toNat_lt
  have high : x.toNat <<< (32 - n) % 4294967296 = (x.toNat % 2 ^ n) <<< (32 - n) := by
    rw [Nat.shiftLeft_eq, Nat.shiftLeft_eq, ← whole, Nat.mul_comm, Nat.mul_mod_mul_left, Nat.mul_comm]
  have right : (x >>> bits).toNat = x.toNat >>> n := by
    rw [UInt32.toNat_shiftRight, count, Nat.mod_eq_of_lt small]
  have left : (x <<< (32 - bits)).toNat = (x.toNat % 2 ^ n) <<< (32 - n) := by
    rw [UInt32.toNat_shiftLeft, back, Nat.mod_eq_of_lt (Nat.sub_lt (by decide) pos), ← high]
  rw [turn, UInt32.toNat_or, right, left, high, Nat.or_comm, ← Nat.shiftLeft_add_eq_or_of_lt low, Nat.add_comm]

theorem turn_column (a b c d : UInt8) :
    turn (column a b c d) 8 = column d a b c ∧ turn (column a b c d) 16 = column c d a b ∧
    turn (column a b c d) 24 = column b c d a := by
  have top := a.toNat_lt
  have upper := b.toNat_lt
  have lower := c.toNat_lt
  have bottom := d.toNat_lt
  refine ⟨?_, ?_, ?_⟩ <;> apply UInt32.toNat_inj.1 <;>
    rw [to_nat_turn _ rfl (by decide) (by decide), to_nat_column, to_nat_column] <;>
    simp only [Nat.shiftRight_eq_div_pow, Nat.shiftLeft_eq, UInt32.reduceToNat, Nat.reducePow, Nat.reduceSub] <;>
    omega

theorem unmix_column (a b c d : UInt8) :
    unmix (column a b c d) =
      column (mul a 14 ^^^ mul b 11 ^^^ mul c 13 ^^^ mul d 9) (mul a 9 ^^^ mul b 14 ^^^ mul c 11 ^^^ mul d 13)
        (mul a 13 ^^^ mul b 9 ^^^ mul c 14 ^^^ mul d 11) (mul a 11 ^^^ mul b 13 ^^^ mul c 9 ^^^ mul d 14) := by
  have turns := fun a => turn_column (mul a 14) (mul a 9) (mul a 13) (mul a 11)
  simp only [unmix, combine, top_column, upper_column, lower_column, bottom_column, look_unmixed, turns, column_xor]

theorem unmix_xor (x y : UInt32) : unmix (x ^^^ y) = unmix x ^^^ unmix y := by
  rw [← column_top x, ← column_top y, column_xor, unmix_column, unmix_column, unmix_column, column_xor]
  simp only [mul_xor, UInt8.xor_assoc, UInt8.xor_comm, xor_left_comm]

theorem unmix_turn (x : UInt32) :
    unmix (turn x 8) = turn (unmix x) 8 ∧ unmix (turn x 16) = turn (unmix x) 16 ∧ unmix (turn x 24) = turn (unmix x) 24 := by
  rw [← column_top x]
  simp only [turn_column, unmix_column, UInt8.xor_assoc, UInt8.xor_comm, xor_left_comm, and_self]

theorem mul_constants (s : UInt8) :
    mul s 9 = double (double (double s)) ^^^ s ∧ mul s 11 = double (double (double s) ^^^ s) ^^^ s ∧
    mul s 13 = double (double (double s ^^^ s)) ^^^ s ∧ mul s 14 = double (double (double s ^^^ s) ^^^ s) := by
  have zero : double 0 = 0 := rfl
  refine ⟨?_, ?_, ?_, ?_⟩ <;> simp +decide [mul, List.range, List.range.loop, zero]

theorem unmix_spread (s : UInt8) : unmix (column (double s) s s (double s ^^^ s)) = column s 0 0 0 := by
  have cancel : ∀ a b : UInt8, a ^^^ (a ^^^ b) = b := fun a b => by
    rw [← UInt8.xor_assoc, UInt8.xor_self, UInt8.zero_xor]
  obtain ⟨nine, eleven, thirteen, fourteen⟩ := mul_constants s
  simp only [unmix_column, mul_xor, mul_double, nine, eleven, thirteen, fourteen, double_xor]
  simp only [UInt8.xor_comm, xor_left_comm, cancel, UInt8.xor_self, UInt8.xor_zero]

theorem unmix_combine (a b c d : UInt8) : unmix (combine mixed a b c d) = exchange box a b c d := by
  have spread : ∀ a, unmix (look mixed a) = column (look box a) 0 0 0 := fun a => by
    rw [look_mixed, unmix_spread, look_box]
  rw [combine, unmix_xor, unmix_xor, unmix_xor, (unmix_turn _).1, (unmix_turn _).2.1, (unmix_turn _).2.2]
  simp only [spread, turn_column, column_xor, UInt8.xor_zero, UInt8.zero_xor, exchange]

theorem unmix_round (x : Block) : unmixColumns (shiftRows (combine mixed) x) = shiftRows (exchange box) x := by
  simp only [unmixColumns, shiftRows, unmix_combine]

theorem unshift_shift (x : Block) : unshiftRows (exchange inverseBox) (shiftRows (exchange box) x) = x := by
  simp only [unshiftRows, shiftRows, exchange, top_column, upper_column, lower_column, bottom_column, look_inverse_box,
    column_top]

theorem unround_round (keys : List Block) (x : Block) :
    keys.foldr (fun k x => unshiftRows (exchange inverseBox) (unmixColumns (x.xor k)))
      (keys.foldl (fun x k => (shiftRows (combine mixed) x).xor k) x) = x := by
  induction keys generalizing x with
  | nil => rfl
  | cons k keys ih => rw [List.foldl_cons, List.foldr_cons, ih, Block.xor_xor, unmix_round, unshift_shift]

theorem decrypt_encrypt (s : Schedule) (block : Block) : decrypt s (encrypt s block) = block := by
  simp only [decrypt, encrypt, Block.xor_xor, unshift_shift, unround_round]

end Rounds

end Aes256
end ZoneRouting
