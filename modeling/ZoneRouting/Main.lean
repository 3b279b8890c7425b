import Std.Async.UDP
import Std.Sync.Channel
import ZoneRouting.CommandLine
import ZoneRouting.Config.Folder
import ZoneRouting.Datalink
import ZoneRouting.Node.Loop
/-!
The program: one device over sockets. Lines of standard input of the form "identifier text" are sent
to that device, and what is delivered to this device is printed, as text if it is text and in
hexadecimal digits if not. A timer, the socket and standard input feed one queue of events, and the
event loop reacts to them in turn.
-/
namespace ZoneRouting.Program

inductive Input where
  | event (event : Node.Event)
  | line (text : String)
  deriving Inhabited

instance : Inhabited Node.Event := ⟨.tick⟩

def log (text : String) : IO Unit := IO.eprintln text

def stop {α : Type} (text : String) : IO α := throw (IO.userError text)

def expect {ε α : Type} (wording : ε → String) : Except ε α → IO α
  | .ok a => return a
  | .error fault => stop (wording fault)

def netAddress : SocketAddress → Std.Net.SocketAddress
  | .v4 octets port => .v4 ⟨⟨octets⟩, port⟩
  | .v6 groups _ port => .v6 ⟨⟨groups⟩, port⟩

def entropy (n : Nat) : IO Bytes := do return (← IO.getRandomBytes (USize.ofNat n)).toList

def newIdentity : IO Identity := do
  let (id, _) := Identifier.random (Random.ofSeed (UInt64.ofNat (Bytes.toNatLE (← entropy 8))))
  return ⟨id, KeyPair.ofSecrets (← entropy 64)⟩

def readFile (path : String) : IO Bytes := do return (← IO.FS.readBinFile path).toList

def writeFile (path : String) (bytes : Bytes) : IO Unit :=
  IO.FS.writeBinFile path (ByteArray.mk bytes.toArray)

def loadIdentity (path : String) : IO Identity := do
  expect (fun fault => (SetupFault.routing fault).message) (Identity.ofBytes (← readFile path))

def present (path : String) : IO Bool := do
  try
    let _ ← readFile path
    return true
  catch _ => return false

def load (path : String) : IO (Config × Identity) := do
  let some text := Bytes.toText? (← readFile path) | stop (SetupFault.io .invalidData).message
  let config ← expect ConfigFault.message (Config.ofText text)
  expect ConfigFault.message config.validate
  return (config, ← loadIdentity config.identityPath)

def ownIdentity (path : String) : IO Identity := do
  if ← present path then loadIdentity path
  else
    let identity ← newIdentity
    writeFile path identity.toBytes
    return identity

def create (path : String) : IO (Config × Identity) := do
  let config : Config := {}
  let identity ← ownIdentity config.identityPath
  writeFile path (Bytes.ofText (← expect ConfigFault.message config.toText))
  return (config, identity)

def transmit (socket : Std.Async.UDP.Socket) (peers : Peers SocketAddress) (packet : Packet) :
    IO Unit := do
  for address in ← expect Fault.message (peers.addresses packet) do
    (socket.send (ByteArray.mk packet.payload.toArray) (some (netAddress address))).block

def forever (act : IO Unit) : IO Unit := do
  let _ ← IO.asTask (do repeat act) Task.Priority.dedicated
  return ()

def feed (inputs : Std.Channel Input) (socket : Std.Async.UDP.Socket) (period : UInt64) : IO Unit := do
  let put (input : Input) : IO Unit := inputs.sync.send input
  forever do
    put (.event .tick)
    IO.sleep (UInt32.ofNat period.toNat)
  forever do
    let event : Node.Event ←
      try
        let (bytes, _) ← (socket.recv (UInt64.ofNat (Wire.headerLength + Wire.maxBody))).block
        pure (Node.Event.heard bytes.toList)
      catch _ => pure (.receiveFailed (.io .other))
    put (.event event)
  let stdin ← IO.getStdin
  forever do
    let line ← stdin.getLine
    if line.isEmpty then IO.sleep 1000 else put (.line line)

def event? : Input → IO (Option Node.Event)
  | .event event => return some event
  | .line text =>
    match Order.ofLine? text with
    | none => return none
    | some (.error word) => do
      log ("Invalid identifier " ++ word)
      return none
    | some (.ok order) => return some (.request order.target (Bytes.ofText order.text))

def outcomeText : SendOutcome → String
  | .direct => "Local"
  | .interZone => "InterZone"
  | .queued => "Queued"

def run (config : Config) (identity : Identity) (verbose : Bool) : IO Unit := do
  let socket ← Std.Async.UDP.Socket.mk
  socket.bind (netAddress config.listen)
  let peers : Peers SocketAddress :=
    Directory.ofList (config.peers.map fun p => (p.id, p.address))
  let inputs ← Std.Channel.new
  feed inputs socket config.advertiseEvery
  let start ← IO.monoMsNow
  let seed := UInt64.ofNat (Bytes.toNatLE (← entropy 8))
  let mut engine := Engine.start Suite.standard config.routing identity (Random.ofSeed seed)
  repeat do
    let some event ← event? (← inputs.sync.recv) | continue
    let now := UInt64.ofNat ((← IO.monoMsNow) - start)
    let (reaction, next) := Node.react Suite.standard now event engine
    engine := next
    match reaction.answer with
    | some (.ok outcome) => log ("Sent (" ++ outcomeText outcome ++ ")")
    | some (.error fault) => log ("Failed to send: " ++ fault.message)
    | none => pure ()
    for packet in reaction.offered do
      try transmit socket peers packet
      catch fault => if verbose then log ("Failed to transmit datagram: " ++ toString fault)
    for payload in reaction.delivered do
      IO.println ((Bytes.toText? payload).getD (Hex.encode payload))
      (← IO.getStdout).flush
    if let some fault := reaction.stopped then stop fault.message

def perform (options : Options) : IO Unit := do
  match options.newIdentity with
  | some path =>
    let identity ← newIdentity
    writeFile path identity.toBytes
    log ("Identity saved: " ++ identity.id.text)
  | none =>
    let (config, identity) ←
      if ← present options.config then load options.config else create options.config
    let config := { config with listen := options.listen.getD config.listen }
    log ("Device identifier: " ++ identity.id.text)
    log ("Zone radius " ++ toString config.routing.zoneRadius ++ ", "
      ++ toString config.peers.length ++ " configured neighbours")
    run config identity options.verbose

end ZoneRouting.Program

def main (arguments : List String) : IO UInt32 := do
  match ZoneRouting.Options.read arguments {} with
  | .error fault =>
    IO.eprintln ("error: " ++ fault.message)
    return 2
  | .ok options =>
    try
      ZoneRouting.Program.perform options
      return 0
    catch fault =>
      IO.eprintln ("Error: " ++ toString fault)
      return 1
