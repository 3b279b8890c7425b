import ZoneRouting.Wire.Fault
/-!
The bodies of datagrams. Numbers are little-endian words of a fixed width, a list is its count
followed by its elements, an identifier is its length followed by its octets, and the fields of a
datagram follow one another in the order of the structures.
-/
namespace ZoneRouting.Wire

def count (n : Nat) : Bytes := Bytes.ofNatLE 8 n

def word (w : UInt64) : Bytes := Bytes.ofNatLE 8 w.toNat

def identifier (id : Identifier) : Bytes := count 16 ++ id.toBytes

def identifiers (ids : List Identifier) : Bytes := count ids.length ++ ids.flatMap identifier

def octets (bytes : Bytes) : Bytes := count bytes.length ++ bytes

def reasonIndex : FailureReason → Nat
  | .routeTooLong => 0
  | .nextHopUnknown => 1

def body : Datagram → Bytes
  | .advertisement d => identifier d.origin ++ d.key.toBytes ++ identifiers d.route ++ word d.interval
  | .discovery d =>
    d.origin.toBytes ++ identifier d.destination ++ word d.sent ++ identifiers d.route
      ++ identifiers d.covered
  | .acknowledgement d => identifiers d.route ++ d.targetKey.toBytes
  | .failure d =>
    identifier d.origin ++ identifier d.destination ++ Bytes.ofNatLE 4 (reasonIndex d.reason)
  | .message d => identifiers d.route ++ octets d.payload ++ octets d.signature

abbrev Reader := StateT Bytes (Except BodyFault)

namespace Reader

def take (n : Nat) (fault : BodyFault) : Reader Bytes := fun bytes =>
  match Bytes.splitExact? n bytes with
  | some (taken, rest) => .ok (taken, rest)
  | none => .error fault

def number (width : Nat) : Reader Nat := do
  let taken ← take width .endOfInput
  return Bytes.toNatLE taken

def word : Reader UInt64 := do
  let n ← number 8
  return UInt64.ofNat n

-- Reads an identifier. What its length announces is taken off before the length is judged.
def identifier : Reader Identifier := do
  let length ← number 8
  let taken ← take length .identifierCut
  if length = 16 then return Identifier.ofBytes taken
  else throw (.identifierLength length)

def many {α : Type} (item : Reader α) : (n : Nat) → Reader (List α)
  | 0 => return []
  | n + 1 => do
    let a ← item
    let rest ← many item n
    return a :: rest

def identifiers : Reader (List Identifier) := do
  let n ← number 8
  many identifier n

def octets : Reader Bytes := do
  let n ← number 8
  take n .endOfInput

def key : Reader PublicKey := do
  let signing ← take 32 .endOfInput
  let exchange ← take 32 .endOfInput
  return ⟨Octets.ofBytes signing, Octets.ofBytes exchange⟩

def reason : Reader FailureReason := do
  let index ← number 4
  match index with
  | 0 => return .routeTooLong
  | 1 => return .nextHopUnknown
  | _ => throw (.unknownReason index)

def advertisement : Reader Advertisement := do
  let origin ← identifier
  let key ← key
  let route ← identifiers
  let interval ← word
  return { origin, key, route, interval }

def discovery : Reader Discovery := do
  let origin ← key
  let destination ← identifier
  let sent ← word
  let route ← identifiers
  let covered ← identifiers
  return { origin, destination, sent, route, covered }

def acknowledgement : Reader Acknowledgement := do
  let route ← identifiers
  let targetKey ← key
  return { route, targetKey }

def failure : Reader DeliveryFailure := do
  let origin ← identifier
  let destination ← identifier
  let reason ← reason
  return { origin, destination, reason }

def message : Reader Message := do
  let route ← identifiers
  let payload ← octets
  let signature ← octets
  return { route, payload, signature }

def body : Kind → Reader Datagram
  | .advertisement => Datagram.advertisement <$> advertisement
  | .discovery => Datagram.discovery <$> discovery
  | .acknowledgement => Datagram.acknowledgement <$> acknowledgement
  | .failure => Datagram.failure <$> failure
  | .message => Datagram.message <$> message

end Reader
end ZoneRouting.Wire
