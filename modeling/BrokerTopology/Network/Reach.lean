/-!
# Reaching a server

A connection may fail before the first frame. The texts are those of the operating system; a
WebSocket client puts a mark in front of them.
-/

namespace BrokerTopology.Network

/-- Why no connection is made. -/
inductive ConnectError where
  /-- There is no route to the server. -/
  | unreachable
  /-- Nobody listens on the address. -/
  | refused
  deriving DecidableEq, Repr

/-- The text of the operating system. -/
def ConnectError.message : ConnectError → String
  | .unreachable => "Network is unreachable (os error 101)"
  | .refused => "Connection refused (os error 111)"

/-- The text of a WebSocket client. -/
def ConnectError.webSocketMessage (e : ConnectError) : String :=
  "IO error: " ++ e.message

end BrokerTopology.Network
