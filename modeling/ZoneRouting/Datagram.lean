import ZoneRouting.PublicKey
import ZoneRouting.Route

namespace ZoneRouting

inductive Kind where
  | advertisement
  | discovery
  | acknowledgement
  | failure
  | message
  deriving DecidableEq, Repr

namespace Kind

def all : List Kind := [advertisement, discovery, acknowledgement, failure, message]

def tag : Kind → Bytes
  | advertisement => [0x5a, 0x41, 0x44, 0x56]
  | discovery => [0x5a, 0x52, 0x44, 0x51]
  | acknowledgement => [0x5a, 0x52, 0x44, 0x41]
  | failure => [0x5a, 0x44, 0x4c, 0x46]
  | message => [0x5a, 0x4d, 0x53, 0x47]

def ofBytes? (bytes : Bytes) : Option Kind := all.find? fun kind => bytes.take 4 = kind.tag

def name : Kind → String
  | advertisement => "Advertisement"
  | discovery => "RouteDiscovery"
  | acknowledgement => "RouteDiscoveryAck"
  | failure => "DeliveryFailure"
  | message => "Message"

end Kind

structure Advertisement where
  origin : Identifier
  key : PublicKey
  route : Route
  interval : UInt64
  deriving DecidableEq, Repr

structure Discovery where
  origin : PublicKey
  destination : Identifier
  sent : UInt64
  route : Route
  covered : List Identifier
  deriving DecidableEq, Repr

def Discovery.requester? (d : Discovery) : Option Identifier := d.route.head?

structure Acknowledgement where
  route : Route
  targetKey : PublicKey
  deriving DecidableEq, Repr

def Acknowledgement.target? (a : Acknowledgement) : Option Identifier := a.route.getLast?

inductive FailureReason where
  | routeTooLong
  | nextHopUnknown
  deriving DecidableEq, Repr

structure DeliveryFailure where
  origin : Identifier
  destination : Identifier
  reason : FailureReason
  deriving DecidableEq, Repr

structure Message where
  route : Route
  payload : Bytes
  signature : Bytes
  deriving DecidableEq, Repr

def Message.sender? (m : Message) : Option Identifier := m.route.head?

def Message.recipient? (m : Message) : Option Identifier := m.route.getLast?

inductive Datagram where
  | advertisement (body : Advertisement)
  | discovery (body : Discovery)
  | acknowledgement (body : Acknowledgement)
  | failure (body : DeliveryFailure)
  | message (body : Message)
  deriving DecidableEq, Repr

def Datagram.kind : Datagram → Kind
  | advertisement _ => .advertisement
  | discovery _ => .discovery
  | acknowledgement _ => .acknowledgement
  | failure _ => .failure
  | message _ => .message

end ZoneRouting
