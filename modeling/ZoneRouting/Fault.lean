import ZoneRouting.Wire.Fault

namespace ZoneRouting

inductive IdentityFault where
  | keyPairLength
  | identityLength
  | nilIdentifier
  deriving DecidableEq, Repr

def IdentityFault.message : IdentityFault → String
  | keyPairLength => "Key pair must be 64 bytes"
  | identityLength => "Identity must be 80 bytes"
  | nilIdentifier => "Identifier is nil"

inductive CryptoFault where
  | tokenTooShort
  | unaligned
  | authentication
  | padding
  | signatureLength
  | invalidKey
  | signatureScalar
  | signatureMismatch
  | lowOrderKey
  deriving DecidableEq, Repr

def CryptoFault.message : CryptoFault → String
  | tokenTooShort => "Token too short"
  | unaligned => "Ciphertext not block aligned"
  | authentication => "Token authentication failed"
  | padding => "Invalid padding"
  | signatureLength => "Signature must be 64 bytes"
  | invalidKey => "Invalid public key: signature error: Cannot decompress Edwards point"
  | signatureScalar =>
    "Signature verification failed: signature error: Cannot use scalar with high-bit set"
  | signatureMismatch =>
    "Signature verification failed: signature error: Verification equation was not satisfied"
  | lowOrderKey => "Peer exchange key is a low-order point"

inductive LinkFault where
  | mediumClosed
  | unknownNeighbour (id : Identifier)
  | notReady (name : String)
  deriving DecidableEq, Repr

def LinkFault.message : LinkFault → String
  | mediumClosed => "Medium closed"
  | unknownNeighbour id => "Unknown neighbour " ++ id.text
  | notReady name => "Transport " ++ name ++ " not ready"

inductive IoFault where
  | notFound
  | notADirectory
  | isADirectory
  | invalidData
  | invalidInput
  | invalidFilename
  | addrInUse
  | networkUnreachable
  | uncategorized
  | other
  deriving DecidableEq, Repr

def IoFault.name : IoFault → String
  | notFound => "NotFound"
  | notADirectory => "NotADirectory"
  | isADirectory => "IsADirectory"
  | invalidData => "InvalidData"
  | invalidInput => "InvalidInput"
  | invalidFilename => "InvalidFilename"
  | addrInUse => "AddrInUse"
  | networkUnreachable => "NetworkUnreachable"
  | uncategorized => "Uncategorized"
  | other => "Other"

def IoFault.message (fault : IoFault) : String := "I/O error: " ++ fault.name

inductive Fault where
  | noRoute (id : Identifier)
  | keyNotFound (id : Identifier)
  | keyMismatch (id : Identifier)
  | unreachable (id : Identifier)
  | targetKeyUnknown (id : Identifier)
  | reservedTag (kind : Kind)
  | identity (fault : IdentityFault)
  | crypto (fault : CryptoFault)
  | wire (fault : Wire.Fault)
  | io (fault : IoFault)
  | link (fault : LinkFault)
  deriving DecidableEq, Repr

def Fault.message : Fault → String
  | noRoute id => "No route available to " ++ id.text
  | keyNotFound id => "No public key known for " ++ id.text
  | keyMismatch id => "Mismatching public key already recorded for " ++ id.text
  | unreachable id => "Target unreachable: " ++ id.text
  | targetKeyUnknown id => "Target public key unknown: " ++ id.text
  | reservedTag kind => "Payload starts with the " ++ kind.name ++ " datagram tag"
  | identity fault => "Identity error: " ++ fault.message
  | crypto fault => "Cryptographic error: " ++ fault.message
  | wire fault => "Protocol error: " ++ fault.message
  | io fault => fault.message
  | link fault => "Connection error: " ++ fault.message

end ZoneRouting
