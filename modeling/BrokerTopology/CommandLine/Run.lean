import BrokerTopology.CommandLine.Watch
import BrokerTopology.Network.Listen
import BrokerTopology.Network.Reach
import BrokerTopology.Settings.Load
/-!
# Running a command

A run is a function of the arguments, the files, the environment and what the network answers. Help
and refusals are decided by the arguments alone. A command that fails says so in the log, and the
program still ends with code 0.
-/

namespace BrokerTopology.CommandLine

/-- What a command finds when it turns to the network: the frames of the server that is watched, or
why it is not reached, and the machine on which a server is to listen. -/
structure Surroundings where
  server : Except Network.ConnectError (List ServerFrame)
  machine : Network.Machine := {}

/-- What a run leaves behind: the exit code, the lines on both outputs, and the requests that were
sent. -/
structure Outcome where
  code : Nat := 0
  out : List String := []
  err : List String := []
  sent : List Request := []
  deriving DecidableEq, Repr

/-- The outcome of a run that fails behind a log line. The level set does not matter: errors are
always shown. -/
def failure (what : String) : Outcome :=
  { out := [LogLevel.error.word ++ " " ++ what ++ " failed:"] }

/-- What a server logs before it listens: an interval of zero switches publishing off. -/
def serverLines (s : Settings) : List Line :=
  if s.graph.interval = 0 then [.log .info "Graph publishing disabled"] else []

/-- The texts of the lines that the settings let through. -/
def shownLines (s : Settings) (lines : List Line) : List String :=
  lines.filterMap fun l => l.text? (LogLevel.ofName s.level)

/-- A run of the `server` command up to the moment when it listens. Nothing is given back for a server
that goes on to serve. -/
def runServer (files : Settings.Files) (env : Settings.Environment) (net : Surroundings) :
    Option Outcome :=
  match Settings.load files env with
  | .error _ => some (failure "Server")
  | .ok s =>
    (net.machine.bindError? (s.host ++ ":" ++ toString s.port)).map fun _ =>
      { out := shownLines s (serverLines s) ++ (failure "Server").out }

/-- A run of the `watch` command. -/
def runWatch (files : Settings.Files) (env : Settings.Environment) (net : Surroundings)
    (o : WatchOptions) : Outcome :=
  match Settings.load files env with
  | .error _ => failure "Watch"
  | .ok s =>
    match net.server with
    | .error _ => failure "Watch"
    | .ok frames =>
      let t := watch o s.graph.topic s.graph.latencyTopic frames
      let lines := shownLines s t.lines
      { out := if t.failed then lines ++ (failure "Watch").out else lines, sent := t.sent }

/-- A run of the program. Nothing is given back for a server that goes on to serve. -/
def run (args : List String) (files : Settings.Files) (env : Settings.Environment)
    (net : Surroundings) : Option Outcome :=
  match ask args with
  | .help page => some { out := page.lines }
  | .refused why => some { code := 2, err := why.lines }
  | .run .server => runServer files env net
  | .run (.watch o) => some (runWatch files env net o)

end BrokerTopology.CommandLine
