import ZoneRouting.Identity
import ZoneRouting.Token
/-!
Wrapping payloads in messages. The payload becomes a token under the key that the sender shares with
the recipient, and the sender signs what the token holds. Unwrapping undoes both, and so needs the
recipient's secrets and the sender's public key.
-/
namespace ZoneRouting

def PublicKey.verify (S : Suite) (key : PublicKey) (data signature : Bytes) :
    Except CryptoFault Unit :=
  if signature.length ≠ 64 then .error .signatureLength
  else
    match S.verify key.signing data signature with
    | .ok () => .ok ()
    | .error .key => .error .invalidKey
    | .error .scalar => .error .signatureScalar
    | .error .equation => .error .signatureMismatch

def PublicKey.validate (S : Suite) (key : PublicKey) : Except Fault PublicKey :=
  if S.isPoint key.signing then .ok key else .error (.crypto .invalidKey)

def PublicKey.read (S : Suite) (bytes : Bytes) : Except Fault PublicKey :=
  match PublicKey.ofBytes? bytes with
  | none => .error (.wire (.invalidBuffer (.keyLength bytes.length)))
  | some key => key.validate S

namespace Message

-- Wraps a payload along a route for the holder of a public key, who is the last device on it. The
-- generator moves on only if the keys can be shared.
def wrap (S : Suite) (g : Random) (payload : Bytes) (route : Route) (recipient : PublicKey)
    (sender : KeyPair) : Except Fault Message × Random :=
  match sender.sharedKey S recipient with
  | .error fault => (.error fault, g)
  | .ok shared =>
    let (token, g) := Token.issue S g shared payload
    (.ok { route, payload := token, signature := sender.sign S payload }, g)

def unwrap (S : Suite) (m : Message) (recipient : KeyPair) (sender : PublicKey) :
    Except Fault Bytes :=
  match recipient.sharedKey S sender with
  | .error fault => .error fault
  | .ok shared =>
    match Token.read S shared m.payload with
    | .error fault => .error (.crypto fault)
    | .ok payload =>
      match sender.verify S payload m.signature with
      | .error fault => .error (.crypto fault)
      | .ok () => .ok payload

end Message
end ZoneRouting
