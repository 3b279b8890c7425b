import ZoneRouting.Wire.Body
/-!
Whole datagrams on the wire: the tag of the kind, the length of the body in four octets, most
significant first, and the body. What is read is measured again, because every octet of the body has to
belong to the value, and checked for its structure; so a datagram is written in one way only.
-/
namespace ZoneRouting.Wire

def headerLength : Nat := 8

def signatureLength : Nat := 64

-- Refuses lists that hold the identifier that no device has.
def checkIdentifiers (ids : List Identifier) : Except Fault Unit :=
  if ids.any Identifier.isNil then .error .invalidIdentifier else .ok ()

def check : Datagram → Except Fault Unit
  | .advertisement d => checkIdentifiers (d.origin :: d.route)
  | .discovery d =>
    if d.route = [] then .error (.invalidBuffer .emptyDiscoveryRoute)
    else checkIdentifiers (d.destination :: d.route ++ d.covered)
  | .acknowledgement d =>
    if d.route.length < 2 then .error (.invalidBuffer .shortAcknowledgementRoute)
    else checkIdentifiers d.route
  | .failure d => checkIdentifiers [d.origin, d.destination]
  | .message d =>
    if d.route = [] then .error (.invalidBuffer .emptyMessageRoute)
    else if d.signature.length ≠ signatureLength then
      .error (.invalidBuffer (.signatureLength d.signature.length))
    else checkIdentifiers d.route

def encode (d : Datagram) : Except Fault Bytes :=
  let content := body d
  if content.length ≤ maxBody then
    .ok (d.kind.tag ++ Bytes.ofNatBE 4 content.length ++ content)
  else .error (.tooLarge content.length)

def decodeBody (kind : Kind) (content : Bytes) : Except Fault Datagram :=
  match (Reader.body kind).run content with
  | .error fault => .error (.invalidBuffer (.body fault))
  | .ok (d, _) =>
    if (body d).length = content.length then
      match check d with
      | .ok () => .ok d
      | .error fault => .error fault
    else .error (.invalidBuffer .trailing)

def decodeAs (kind : Kind) (bytes : Bytes) : Except Fault Datagram :=
  if bytes.length < headerLength then .error (.invalidBuffer .tooShort)
  else
    match Kind.ofBytes? bytes with
    | none => .error (.unknownTag (bytes.take 4))
    | some found =>
      if found = kind then
        let length := Bytes.toNatBE ((bytes.drop 4).take 4)
        let content := bytes.drop headerLength
        if length > maxBody then .error (.tooLarge length)
        else if content.length ≠ length then
          .error (.invalidBuffer (.bodyLength length content.length))
        else decodeBody kind content
      else .error (.invalidBuffer (.wrongKind kind found))

def decode (bytes : Bytes) : Except Fault Datagram :=
  match Kind.ofBytes? bytes with
  | none => .error (.unknownTag ((bytes ++ List.replicate 4 0).take 4))
  | some kind => decodeAs kind bytes

end ZoneRouting.Wire
