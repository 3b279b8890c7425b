import ZoneRouting.Config.Address
import ZoneRouting.Identifier

namespace ZoneRouting

structure Options where
  config : String := "node.toml"
  verbose : Bool := false
  newIdentity : Option String := none
  listen : Option SocketAddress := none
  deriving DecidableEq, Repr

inductive OptionFault where
  | unexpected (argument : String)
  | missingValue (option : String)
  | badAddress (text : String)
  deriving DecidableEq, Repr

def OptionFault.message : OptionFault → String
  | unexpected argument => "unexpected argument " ++ argument
  | missingValue option => "a value is required for " ++ option
  | badAddress text => "not an address: " ++ text

namespace Options

-- Reads arguments on top of the options that earlier ones gave. A later option replaces an earlier
-- one.
def read : List String → Options → Except OptionFault Options
  | [], o => .ok o
  | [option], o =>
    if option ∈ ["-v", "--verbose"] then .ok { o with verbose := true }
    else if option ∈ ["-c", "--config", "-l", "--listen", "--generate-identity"] then
      .error (.missingValue option)
    else .error (.unexpected option)
  | option :: argument :: rest, o =>
    if option ∈ ["-v", "--verbose"] then read (argument :: rest) { o with verbose := true }
    else if option ∈ ["-c", "--config"] then read rest { o with config := argument }
    else if option = "--generate-identity" then read rest { o with newIdentity := some argument }
    else if option ∈ ["-l", "--listen"] then
      match SocketAddress.ofText? argument with
      | some address => read rest { o with listen := some address }
      | none => .error (.badAddress argument)
    else .error (.unexpected option)

end Options

structure Order where
  target : Identifier
  text : String
  deriving DecidableEq, Repr

def Order.ofLine? (line : String) : Option (Except String Order) :=
  let chars := line.trimAscii.toString.toList
  if chars = [] then none
  else
    let word := String.ofList (chars.takeWhile (· ≠ ' '))
    let text := String.ofList ((chars.dropWhile (· ≠ ' ')).drop 1)
    some (match Identifier.ofText? word with
      | some target => .ok { target, text }
      | none => .error word)

end ZoneRouting
