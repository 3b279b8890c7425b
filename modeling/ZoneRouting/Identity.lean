import ZoneRouting.Suite
import ZoneRouting.PublicKey
import ZoneRouting.Fault

namespace ZoneRouting

structure KeyPair where
  signing : Octets 32
  exchange : Octets 32
  deriving DecidableEq, Repr, Inhabited

namespace KeyPair

def ofSecrets (bytes : Bytes) : KeyPair :=
  ⟨Octets.ofBytes (bytes.take 32), Octets.ofBytes (bytes.drop 32)⟩

def generate (g : Random) : KeyPair × Random :=
  let (bytes, g) := g.octets 64
  (ofSecrets bytes, g)

def ofBytes (bytes : Bytes) : Except Fault KeyPair :=
  if bytes.length = 64 then .ok (ofSecrets bytes) else .error (.identity .keyPairLength)

def toBytes (keys : KeyPair) : Bytes := keys.signing.toBytes ++ keys.exchange.toBytes

def publicKey (S : Suite) (keys : KeyPair) : PublicKey :=
  ⟨S.signingKey keys.signing, S.exchangeKey keys.exchange⟩

def sign (S : Suite) (keys : KeyPair) (message : Bytes) : Bytes := S.sign keys.signing message

def sharedKey (S : Suite) (keys : KeyPair) (peer : PublicKey) : Except Fault SharedKey :=
  let agreed := S.agree keys.exchange peer.exchange
  if agreed = Octets.zero then .error (.crypto .lowOrderKey) else .ok (S.derive agreed.toBytes)

def describe (S : Suite) (keys : KeyPair) : String :=
  "KeyPair \x7b public: \"" ++ (keys.publicKey S).fingerprint ++ "\" \x7d"

end KeyPair

structure Identity where
  id : Identifier
  keys : KeyPair
  deriving DecidableEq, Repr, Inhabited

namespace Identity

def generate (g : Random) : Identity × Random :=
  let (id, g) := Identifier.random g
  let (keys, g) := KeyPair.generate g
  (⟨id, keys⟩, g)

def ofBytes (bytes : Bytes) : Except Fault Identity :=
  if bytes.length = 80 then
    let id := Identifier.ofBytes (bytes.take 16)
    if id.isNil then .error (.identity .nilIdentifier)
    else .ok ⟨id, KeyPair.ofSecrets (bytes.drop 16)⟩
  else .error (.identity .identityLength)

def toBytes (identity : Identity) : Bytes := identity.id.toBytes ++ identity.keys.toBytes

def publicKey (S : Suite) (identity : Identity) : PublicKey := identity.keys.publicKey S

def describe (S : Suite) (identity : Identity) : String :=
  "Identity \x7b id: \"" ++ identity.id.text ++ "\", public: \""
    ++ (identity.publicKey S).fingerprint ++ "\" \x7d"

end Identity
end ZoneRouting
