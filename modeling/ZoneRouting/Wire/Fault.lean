import ZoneRouting.Datagram

namespace ZoneRouting.Wire

inductive BodyFault where
  | endOfInput
  | identifierCut
  | identifierLength (found : Nat)
  | unknownReason (index : Nat)
  deriving DecidableEq, Repr

def BodyFault.message : BodyFault → String
  | endOfInput => "io error: unexpected end of file"
  | identifierCut => "io error: "
  | identifierLength found =>
    "UUID parsing failed: invalid length: expected 16 bytes, found " ++ toString found
  | unknownReason index =>
    "invalid value: integer \x60" ++ toString index ++ "\x60, expected variant index 0 <= i < 2"

inductive BufferFault where
  | tooShort
  | wrongKind (expected found : Kind)
  | bodyLength (header found : Nat)
  | body (fault : BodyFault)
  | trailing
  | emptyDiscoveryRoute
  | shortAcknowledgementRoute
  | emptyMessageRoute
  | signatureLength (found : Nat)
  | keyLength (found : Nat)
  deriving DecidableEq, Repr

def BufferFault.message : BufferFault → String
  | tooShort => "Datagram too short"
  | wrongKind expected found =>
    "Expected " ++ expected.name ++ " datagram, found " ++ found.name
  | bodyLength header found =>
    "Body length mismatch: header says " ++ toString header ++ ", found " ++ toString found
  | body fault => fault.message
  | trailing => "Trailing bytes in body"
  | emptyDiscoveryRoute => "Discovery route is empty"
  | shortAcknowledgementRoute => "Acknowledgement route needs at least two hops"
  | emptyMessageRoute => "Message route is empty"
  | signatureLength found => "Signature must be 64 bytes, got " ++ toString found
  | keyLength found => "Public key must be 64 bytes, got " ++ toString found

def maxBody : Nat := 65536

inductive Fault where
  | invalidIdentifier
  | invalidBuffer (fault : BufferFault)
  | unknownTag (opening : Bytes)
  | tooLarge (size : Nat)
  deriving DecidableEq, Repr

def Fault.message : Fault → String
  | invalidIdentifier => "Invalid identifier"
  | invalidBuffer fault => "Invalid buffer: " ++ fault.message
  | unknownTag opening =>
    "Unknown datagram tag: [" ++ ", ".intercalate (opening.map fun b => Hex.encode [b]) ++ "]"
  | tooLarge size =>
    "Datagram too large: " ++ toString size ++ " bytes (max: " ++ toString maxBody ++ ")"

end ZoneRouting.Wire
