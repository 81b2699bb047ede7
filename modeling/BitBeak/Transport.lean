import BitBeak.Lib.Bytes

/-! What the I/O tasks of stream, listen and proxy sessions tell the application, and what it
tells them. -/
namespace BitBeak
open Wire

inductive Direction where
  | inward
  | outward
  deriving DecidableEq, Repr

inductive IoEvent where
  | connected (peer : String)
  | disconnected (reason : String)
  | frame (direction : Direction) (payload : Bytes) (peer : Option String)
  | clientJoined (id : UInt64) (peer : String)
  | clientLeft (id : UInt64)
  | error (message : String)
  | status (message : String)
  deriving DecidableEq, Repr

inductive IoCommand where
  | send (payload : Bytes) (clientId : Option UInt64)
  | broadcast (payload : Bytes)
  | close
  deriving DecidableEq, Repr

end BitBeak
