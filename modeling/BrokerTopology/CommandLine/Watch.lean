import BrokerTopology.Broker.Message
import BrokerTopology.CommandLine.Args
import BrokerTopology.Graph.Snapshot
import BrokerTopology.LogLevel
/-!
# Watching the graph

A watch session subscribes to the graph topic, sends a probe if it is told to, acknowledges probes
of the server and prints what it receives. The session is described by what it sends and what it
prints while the server sends a given list of frames and then closes the connection.
-/

namespace BrokerTopology.CommandLine

/-! ## Output -/

/-- A line of output: one that is printed as it is, or one of the log. -/
inductive Line where
  | plain (text : String)
  | log (level : LogLevel) (text : String)
  deriving DecidableEq, Repr

/-- The text of a line when `set` is the level of the log; lines that the level hides have none. -/
def Line.text? (set : LogLevel) : Line → Option String
  | .plain text => some text
  | .log level text => if set.shows level then some (level.word ++ " " ++ text) else none

/-- A number with three places after the point. -/
def rate (x : Float) : String :=
  Decimal.fixed 3 x

/-- The lines of a client: its latency and what it publishes. -/
def clientLines (c : Snapshot.ClientNode) : List String :=
  let latency :=
    match c.latency with
    | some ms => rate ms ++ " ms"
    | none => "-"
  ("    " ++ c.name ++ " (latency " ++ latency ++ ")") ::
    c.published.map fun e => "      -> " ++ e.topic ++ " " ++ rate e.rate ++ " B/s"

/-- The line of a topic: its rate and its subscribers. -/
def topicLine (t : Snapshot.TopicNode) : String :=
  "  [" ++ t.name ++ "] " ++ rate t.rate ++ " B/s" ++ (if t.retain then " retained" else "") ++
    " -> " ++ ", ".intercalate (t.subscriptions.map Snapshot.Subscription.client)

/-- The lines of a graph document. -/
def snapshotLines (s : Snapshot) : List String :=
  ("graph: " ++ toString s.addresses.length ++ " ips, " ++ toString s.topics.length ++ " topics") ::
    (s.addresses.flatMap fun a => ("  " ++ a.id) :: a.clients.flatMap clientLines) ++
    s.topics.map topicLine

/-! ## The session -/

/-- A frame of the server. -/
inductive ServerFrame where
  | text (content : String)
  /-- A frame that holds no text. -/
  | other
  deriving DecidableEq, Repr

/-- What a session sends and prints, and whether it has failed. -/
structure Transcript where
  sent : List Request := []
  lines : List Line := []
  failed : Bool := false

/-- What is printed for a message. -/
def messageLines (topic : String) (m : Message) : List Line :=
  if m.topic = topic then
    match Snapshot.read m.payload with
    | .ok s => (snapshotLines s).map .plain
    | .error _ => [.log .warn "Unreadable graph document:"]
  else [.plain (m.topic ++ ": " ++ m.payload)]

/-- The answer of a session to a reply of the server. -/
def replyTranscript (topic : String) : Reply → Transcript
  | .message m => { lines := messageLines topic m }
  | .probe => { sent := [.probeAck] }
  | .error text => { lines := [.log .warn ("Server error: " ++ text)] }

/-- A transcript followed by another one. -/
def Transcript.append (a b : Transcript) : Transcript :=
  ⟨a.sent ++ b.sent, a.lines ++ b.lines, b.failed⟩

/-- The session while the server sends frames. A frame that cannot be read ends it. -/
def followFrames (topic : String) : List ServerFrame → Transcript
  | [] => { lines := [.log .info "Connection closed"] }
  | .other :: rest => followFrames topic rest
  | .text content :: rest =>
    match Reply.read content with
    | .error _ => { failed := true }
    | .ok r => (replyTranscript topic r).append (followFrames topic rest)

/-- A whole session. -/
def watch (o : WatchOptions) (graphTopic latencyTopic : String) (frames : List ServerFrame) :
    Transcript :=
  let topic := o.topic.getD graphTopic
  let probe := if o.probe then [Request.publish latencyTopic "" false] else []
  let opening : Transcript :=
    { sent := Request.subscribe topic :: probe, lines := [.log .info ("Connected to " ++ o.url)] }
  opening.append (followFrames topic frames)

end BrokerTopology.CommandLine
