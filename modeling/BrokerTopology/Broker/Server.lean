import BrokerTopology.Broker.Exchange
/-!
# Serving clients

The server registers a client when its connection opens and cleans it up when the connection ends,
with or without a closing frame. Between the two only text frames that can be read as requests have
an effect.
-/

namespace BrokerTopology.Server

/-- A frame that a client sends. -/
inductive Frame where
  | text (content : String)
  /-- A frame that holds no text. -/
  | other
  deriving DecidableEq, Repr

/-- What happens on a connection. The connection is known by the id of its client. -/
inductive Event where
  | opened (id address : String)
  | received (id : String) (frame : Frame)
  | ended (id : String)
  deriving DecidableEq, Repr

/-- The exchange after an event. -/
def handle (x : Exchange) (e : Event) (now : Nat) (stamp : Int) : Exchange :=
  match e with
  | .opened id address => x.register id address
  | .received id (.text content) => (x.receive id content now stamp).2
  | .received _ .other => x
  | .ended id => { (x.close id).2 with broker := x.broker.cleanup id }

end BrokerTopology.Server
