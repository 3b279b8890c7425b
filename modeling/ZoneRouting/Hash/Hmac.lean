import ZoneRouting.Hash.Sha256

namespace ZoneRouting.Hmac

-- A key brought to the length of a block: longer ones are digested first, shorter ones end in
-- zeros.
def blockKey (key : Bytes) : Bytes :=
  let short := if key.length > 64 then Sha256.digest key else key
  short ++ List.replicate (64 - short.length) 0

def code (key message : Bytes) : Bytes :=
  let k := blockKey key
  let inner := Sha256.digest (k.map (· ^^^ 0x36) ++ message)
  Sha256.digest (k.map (· ^^^ 0x5c) ++ inner)

@[simp] theorem length_code (key message : Bytes) : (code key message).length = 32 := by
  simp [code]

end ZoneRouting.Hmac

namespace ZoneRouting.Hkdf

def blocks (key info : Bytes) : (count i : Nat) → (last : Bytes) → Bytes
  | 0, _, _ => []
  | count + 1, i, last =>
    let block := Hmac.code key (last ++ info ++ [UInt8.ofNat i])
    block ++ blocks key info count (i + 1) block

def derive (salt secret info : Bytes) (length : Nat) : Bytes :=
  (blocks (Hmac.code salt secret) info ((length + 31) / 32) 1 []).take length

theorem length_blocks (key info : Bytes) (count i : Nat) (last : Bytes) :
    (blocks key info count i last).length = 32 * count := by
  induction count generalizing i last with
  | zero => rfl
  | succ count ih => simp [blocks, ih]; omega

@[simp] theorem length_derive (salt secret info : Bytes) (length : Nat) :
    (derive salt secret info length).length = length := by
  simp [derive, length_blocks]; omega

end ZoneRouting.Hkdf
