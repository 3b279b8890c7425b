import ZoneRouting.Curve.Edwards
import ZoneRouting.Cipher.Aes256
import ZoneRouting.Hash.Hmac
/-!
The cryptographic operations that a device needs, gathered in one value, so that everything built
upon them can be reasoned about from the laws in `Suite.Lawful` alone. `Suite.standard` is the suite
that devices use: Ed25519, X25519, AES-256 and the SHA-256 constructions.
-/
namespace ZoneRouting

structure BlockCipher where
  encrypt : Block → Block
  decrypt : Block → Block

structure SharedKey where
  mac : Bytes
  cipher : Bytes
  deriving DecidableEq, Repr

structure Suite where
  signingKey : Octets 32 → Octets 32
  exchangeKey : Octets 32 → Octets 32
  agree : Octets 32 → Octets 32 → Octets 32
  sign : Octets 32 → Bytes → Bytes
  verify : Octets 32 → Bytes → Bytes → Except Curve.SignatureFault Unit
  -- Whether a public half can check any signature at all.
  isPoint : Octets 32 → Bool
  derive : Bytes → SharedKey
  mac : Bytes → Bytes → Bytes
  cipher : Bytes → BlockCipher

namespace Suite

structure Lawful (S : Suite) : Prop where
  decrypt_encrypt : ∀ key block, (S.cipher key).decrypt ((S.cipher key).encrypt block) = block
  agree_comm : ∀ a b, S.agree a (S.exchangeKey b) = S.agree b (S.exchangeKey a)
  verify_sign : ∀ secret message, S.verify (S.signingKey secret) message (S.sign secret message) = .ok ()
  isPoint_signingKey : ∀ secret, S.isPoint (S.signingKey secret) = true
  length_sign : ∀ secret message, (S.sign secret message).length = 64
  length_mac : ∀ key message, (S.mac key message).length = 32

def deriveKeys (agreed : Bytes) : SharedKey :=
  let derived :=
    Hkdf.derive (Bytes.ofAscii "zrp-shared-key-v1") agreed (Bytes.ofAscii "zrp-message-token") 64
  ⟨derived.take 32, derived.drop 32⟩

def aes (key : Bytes) : BlockCipher :=
  let schedule := Aes256.Schedule.ofKey key
  ⟨Aes256.encrypt schedule, Aes256.decrypt schedule⟩

def standard : Suite where
  signingKey := Curve.signingKey
  exchangeKey := Curve.exchangeKey
  agree := Curve.agree
  sign := Curve.sign
  verify := Curve.verify
  isPoint := Curve.isPoint
  derive := deriveKeys
  mac := Hmac.code
  cipher := aes

end Suite
end ZoneRouting
