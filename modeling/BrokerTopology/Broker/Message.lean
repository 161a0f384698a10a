import BrokerTopology.Json.Record
import BrokerTopology.Json.Writer
/-!
# Messages

A `Message` is what the broker routes and retains. A `Request` is what a client sends to the broker,
and a `Reply` is what the broker sends to a client. Requests and replies are records tagged by the
member `type`. Each of the three is written with its fields in declared order.
-/

namespace BrokerTopology

open Json (Value)

/-! ## Routed messages -/

/-- A published message. The timestamp counts milliseconds of wall time. -/
structure Message where
  topic : String
  payload : String
  timestamp : Int
  retain : Bool := false
  deriving DecidableEq, Repr

namespace Message

/-- The fields of a message as a record; `retain` may be left out. -/
def fields : List Json.Field :=
  [{ name := "topic", read := Json.asText },
   { name := "payload", read := Json.asText },
   { name := "timestamp", read := Json.asInt },
   { name := "retain", read := Json.asBool, presence := .defaulted (.bool false) }]

/-- A message as a JSON value. -/
def toValue (m : Message) : Value :=
  .object [("topic", .text m.topic), ("payload", .text m.payload), ("timestamp", .int m.timestamp),
    ("retain", .bool m.retain)]

/-- The message that a complete record stands for. -/
def ofValue? : Value → Option Message
  | .object [("topic", .text topic), ("payload", .text payload),
      ("timestamp", .number (.int timestamp)), ("retain", .bool retain)] =>
    some ⟨topic, payload, timestamp, retain⟩
  | _ => none

/-- The text of a message. -/
def write (m : Message) : String :=
  m.toValue.write

/-- Reads a message. -/
def read (text : String) : Except Json.Error Message := do
  let v ← Json.document (Json.asRecord fields) text
  match ofValue? v with
  | some m => return m
  | none => .error .wrongType

end Message

/-! ## Requests of a client -/

/-- What a client asks of the broker. -/
inductive Request where
  | subscribe (filter : String)
  | unsubscribe (filter : String)
  | publish (topic payload : String) (retain : Bool)
  /-- The answer to a probe, which closes a latency measurement. -/
  | probeAck
  deriving DecidableEq, Repr

namespace Request

/-- The words that tag the requests. -/
def variants : List String :=
  ["subscribe", "unsubscribe", "publish", "probe_ack"]

/-- A request as a JSON value. -/
def toValue : Request → Value
  | .subscribe filter => .object [("type", .text "subscribe"), ("topic", .text filter)]
  | .unsubscribe filter => .object [("type", .text "unsubscribe"), ("topic", .text filter)]
  | .publish topic payload retain =>
    .object [("type", .text "publish"), ("topic", .text topic), ("payload", .text payload),
      ("retain", .bool retain)]
  | .probeAck => .object [("type", .text "probe_ack")]

/-- The fields of each kind of request; `retain` may be left out. -/
def variantFields (variant : String) : List Json.VariantField :=
  match variant with
  | "subscribe" => [{ name := "topic", admits := Value.isText }]
  | "unsubscribe" => [{ name := "topic", admits := Value.isText }]
  | "publish" =>
    [{ name := "topic", admits := Value.isText }, { name := "payload", admits := Value.isText },
     { name := "retain", admits := Value.isBool, presence := .defaulted (.bool false) }]
  | _ => []

/-- The request that a tag and its complete fields stand for. -/
def ofFields? (variant : String) (fields : List (String × Value)) : Option Request :=
  match variant, fields with
  | "subscribe", [("topic", .text filter)] => some (.subscribe filter)
  | "unsubscribe", [("topic", .text filter)] => some (.unsubscribe filter)
  | "publish", [("topic", .text topic), ("payload", .text payload), ("retain", .bool retain)] =>
    some (.publish topic payload retain)
  | "probe_ack", [] => some .probeAck
  | _, _ => none

/-- The text of a request. -/
def write (r : Request) : String :=
  r.toValue.write

/-- The request that a tagged record stands for. -/
def ofTagged (t : Json.Tagged) : Except Json.Error Request := do
  let fields ← Json.variantFields (variantFields t.variant) t.content
  match ofFields? t.variant fields with
  | some r => return r
  | none => .error .wrongType

/-- Reads a request. The fields are checked before what follows the record is looked at. -/
def reader : Json.Reader Request := fun s => do
  let (t, rest) ← Json.asTagged "type" variants s
  return (← ofTagged t, rest)

/-- Reads a request to the end of the text. -/
def read (text : String) : Except Json.Error Request :=
  Json.document reader text

end Request

/-! ## Replies of the broker -/

/-- What the broker sends to a client. -/
inductive Reply where
  | message (m : Message)
  /-- The beginning of a latency measurement, which the client is to acknowledge. -/
  | probe
  | error (text : String)
  deriving DecidableEq, Repr

namespace Reply

/-- The words that tag the replies. -/
def variants : List String :=
  ["message", "probe", "error"]

/-- A reply as a JSON value. -/
def toValue : Reply → Value
  | .message m =>
    .object [("type", .text "message"), ("topic", .text m.topic), ("payload", .text m.payload),
      ("timestamp", .int m.timestamp), ("retain", .bool m.retain)]
  | .probe => .object [("type", .text "probe")]
  | .error text => .object [("type", .text "error"), ("message", .text text)]

/-- The fields of each kind of reply. -/
def variantFields (variant : String) : List Json.VariantField :=
  match variant with
  | "message" =>
    [{ name := "topic", admits := Value.isText }, { name := "payload", admits := Value.isText },
     { name := "timestamp", admits := Value.isInt }, { name := "retain", admits := Value.isBool }]
  | "error" => [{ name := "message", admits := Value.isText }]
  | _ => []

/-- The reply that a tag and its complete fields stand for. -/
def ofFields? (variant : String) (fields : List (String × Value)) : Option Reply :=
  match variant, fields with
  | "message", [("topic", .text topic), ("payload", .text payload),
      ("timestamp", .number (.int timestamp)), ("retain", .bool retain)] =>
    some (.message ⟨topic, payload, timestamp, retain⟩)
  | "probe", [] => some .probe
  | "error", [("message", .text text)] => some (.error text)
  | _, _ => none

/-- The text of a reply. -/
def write (r : Reply) : String :=
  r.toValue.write

/-- The reply that a tagged record stands for. -/
def ofTagged (t : Json.Tagged) : Except Json.Error Reply := do
  let fields ← Json.variantFields (variantFields t.variant) t.content
  match ofFields? t.variant fields with
  | some r => return r
  | none => .error .wrongType

/-- Reads a reply. The fields are checked before what follows the record is looked at. -/
def reader : Json.Reader Reply := fun s => do
  let (t, rest) ← Json.asTagged "type" variants s
  return (← ofTagged t, rest)

/-- Reads a reply to the end of the text. -/
def read (text : String) : Except Json.Error Reply :=
  Json.document reader text

end Reply

end BrokerTopology
