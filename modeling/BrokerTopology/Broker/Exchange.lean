import BrokerTopology.Broker.Basic
/-!
# Inboxes

Every connected client has an inbox for its replies. A client that connects again under its id gets
a new inbox. An inbox may be closed while the client is still connected; what is sent to it then is
lost.
-/

namespace BrokerTopology

/-- A broker with the inboxes that are open. An inbox holds what has not been taken out of it, the
oldest reply first. -/
structure Exchange where
  broker : Broker
  inboxes : Table (List Reply)
  deriving Repr

namespace Exchange

/-- An exchange without clients. -/
def new (settings : GraphSettings) (start : Nat := 0) : Exchange :=
  ⟨.new settings start, .empty⟩

/-- Puts a reply into the inbox of its recipient, if that is open. -/
def deliver (inboxes : Table (List Reply)) (d : Delivery) : Table (List Reply) :=
  match inboxes.find? d.recipient with
  | none => inboxes
  | some replies => inboxes.set d.recipient (replies ++ [d.reply])

/-- The exchange after the broker has done something and sent replies. -/
def after (x : Exchange) (result : List Delivery × Broker) : Exchange :=
  ⟨result.2, result.1.foldl deliver x.inboxes⟩

/-- A client connects with a new inbox. -/
def register (x : Exchange) (id address : String) : Exchange :=
  ⟨x.broker.register id address, x.inboxes.set id []⟩

/-- Closes the inbox of a client, and answers whether there was one. -/
def close (x : Exchange) (id : String) : Bool × Exchange :=
  (x.inboxes.contains id, { x with inboxes := x.inboxes.erase id })

/-- Takes everything out of all inboxes; inboxes that hold nothing are not listed. -/
def drain (x : Exchange) : List (String × List Reply) × Exchange :=
  (x.inboxes.toList.filter fun e => !e.2.isEmpty,
    { x with inboxes := ⟨x.inboxes.entries.map fun e => (e.1, [])⟩ })

/-- A text of a client is read as a request, which is applied. -/
def receive (x : Exchange) (id text : String) (now : Nat) (stamp : Int) :
    Except Json.Error Unit × Exchange :=
  match Request.read text with
  | .error e => (.error e, x)
  | .ok r => (.ok (), x.after (x.broker.dispatch id r now stamp))

end Exchange

end BrokerTopology
