import ZoneRouting.Proofs.Sealing
import ZoneRouting.Proofs.Wire.Canonical

set_option autoImplicit false

namespace ZoneRouting

-- Whether a datagram can be written depends on its length alone.
theorem Wire.length_body_advertisement (a : Advertisement) :
    (Wire.body (.advertisement a)).length = 104 + 24 * a.route.length := by
  rw [body, word, identifier, count, List.length_append, List.length_append, List.length_append, List.length_append,
    length_identifiers, PublicKey.length_to_bytes, Bytes.length_of_nat_le, Bytes.length_of_nat_le, Identifier.length_to_bytes]
  omega

theorem Wire.length_body_discovery (d : Discovery) :
    (Wire.body (.discovery d)).length = 112 + 24 * d.route.length + 24 * d.covered.length := by
  rw [body, word, identifier, count, List.length_append, List.length_append, List.length_append, List.length_append,
    List.length_append, length_identifiers, length_identifiers, PublicKey.length_to_bytes, Bytes.length_of_nat_le,
    Bytes.length_of_nat_le, Identifier.length_to_bytes]
  omega

theorem Wire.length_body_message (m : Message) :
    (Wire.body (.message m)).length = 24 + 24 * m.route.length + m.payload.length + m.signature.length := by
  rw [body, List.length_append, List.length_append, length_identifiers, length_octets, length_octets]
  omega

theorem Wire.encode_length {d : Datagram} {bytes : Bytes} (written : Wire.encode d = .ok bytes) :
    bytes.length = (Wire.body d).length + 8 := by
  rw [(encode_ok written).2, List.length_append, List.length_append, length_tag, Bytes.length_of_nat_be]
  omega

structure Suite.Sized (S : Suite) : Prop where
  length_sign : ∀ secret message, (S.sign secret message).length = 64
  length_mac : ∀ key message, (S.mac key message).length = 32

theorem Suite.Lawful.sized {S : Suite} (lawful : S.Lawful) : S.Sized := ⟨lawful.length_sign, lawful.length_mac⟩

theorem standard_sized : Suite.standard.Sized where
  length_sign secret message := by
    change (Curve.sign secret message).length = 64
    rw [Curve.sign, List.length_append, Bytes.length_of_nat_le]
    rfl
  length_mac key message := Hmac.length_code key message

section

variable {S : Suite} {g g' : Random} {payload : Bytes} {route : Route} {key : PublicKey} {sender : KeyPair} {m : Message}

theorem Token.length_write (sized : S.Sized) (shared : SharedKey) (start : Block) (payload : Bytes) :
    (Token.write S shared start payload).length = 64 + 16 * (payload.length / 16) := by
  rw [write, List.length_append, sized.length_mac, List.length_append, Block.length_to_bytes, length_encipher]
  omega

def Message.sealedLength (octets hops : Nat) : Nat := 152 + 24 * hops + 16 * (octets / 16)

theorem length_body_wrap (sized : S.Sized) (sealing : Message.wrap S g payload route key sender = (.ok m, g')) :
    (Wire.body (.message m)).length = Message.sealedLength payload.length route.length := by
  obtain ⟨shared, _, route, token, signature⟩ := wrap_ok sealing
  rw [Wire.length_body_message, route, token, signature, Token.issue, Token.length_write sized, KeyPair.sign,
    sized.length_sign, Message.sealedLength]
  omega

theorem encode_wrap_iff (sized : S.Sized) (sealing : Message.wrap S g payload route key sender = (.ok m, g')) :
    (∃ bytes, Wire.encode (.message m) = .ok bytes) ↔
      Message.sealedLength payload.length route.length ≤ Wire.maxBody := by
  rw [← length_body_wrap sized sealing]
  constructor
  · rintro ⟨bytes, written⟩
    exact (Wire.encode_ok written).1
  · exact fun fits => ⟨_, Wire.encode_small fits⟩

theorem length_encode_wrap {bytes : Bytes} (sized : S.Sized)
    (sealing : Message.wrap S g payload route key sender = (.ok m, g')) (written : Wire.encode (.message m) = .ok bytes) :
    bytes.length = Message.sealedLength payload.length route.length + 8 := by
  rw [Wire.encode_length written, length_body_wrap sized sealing]

theorem Token.padded_of_unpad {text payload : Bytes} (unpadded : unpad? text = some payload) (whole : text.length % 16 = 0) :
    text = payload ++ padding payload.length := by
  obtain ⟨last, some, few, rfl⟩ := unpad_ok unpadded
  rw [List.length_append, List.length_replicate] at whole
  have count : 16 - payload.length % 16 = last.toNat := by omega
  rw [padding, count, UInt8.ofNat_toNat]

theorem Token.length_unchain (cipher : BlockCipher) (last : Block) (bs : List Block) :
    (unchain cipher last bs).length = bs.length := by
  induction bs generalizing last with
  | nil => rfl
  | cons b bs ih => rw [unchain, List.length_cons, ih, List.length_cons]

theorem Token.length_read {shared : SharedKey} {token : Bytes} (opened : Token.read S shared token = .ok payload) :
    token.length = 64 + 16 * (payload.length / 16) := by
  obtain ⟨long, aligned, _, unpadded⟩ := read_ok opened
  have plain := length_join (unchain (S.cipher shared.cipher) (Block.ofBytes (token.take (token.length - 32)))
    (blocks (((token.take (token.length - 32)).drop 16).length / 16) ((token.take (token.length - 32)).drop 16)))
  have padded := congrArg List.length (padded_of_unpad unpadded (by omega))
  rw [length_padded, plain, length_unchain, length_blocks] at padded
  rw [List.length_drop, List.length_take] at padded aligned
  omega

theorem Message.length_signature {recipient : KeyPair} {sender : PublicKey} (opened : m.unwrap S recipient sender = .ok payload) :
    m.signature.length = 64 := by
  obtain ⟨_, _, _, accepted⟩ := unwrap_ok_iff.mp opened
  rw [PublicKey.verify] at accepted
  split at accepted
  · cases accepted
  · rename_i length
    exact Decidable.not_not.mp length

theorem length_body_unwrap {recipient : KeyPair} {sender : PublicKey} (opened : m.unwrap S recipient sender = .ok payload) :
    (Wire.body (.message m)).length = Message.sealedLength payload.length m.route.length := by
  obtain ⟨shared, _, read, _⟩ := unwrap_ok_iff.mp opened
  rw [Wire.length_body_message, Token.length_read read, Message.length_signature opened, Message.sealedLength]
  omega

theorem Message.length_unwrap {recipient : KeyPair} {sender : PublicKey} {bytes : Bytes}
    (opened : m.unwrap S recipient sender = .ok payload) (written : Wire.encode (.message m) = .ok bytes) :
    payload.length < bytes.length := by
  rw [Wire.encode_length written, length_body_unwrap opened, sealedLength]
  omega

end
end ZoneRouting
