/-!
# Pages of help

The program has two commands of its own and a third that prints a page of help. A page names the
options of a command, how it is used, and what it is for.
-/

namespace BrokerTopology.CommandLine

/-- The name of the program. -/
def program : String := "netgraph"

/-- A page of help: that of the program or of one of its commands. -/
inductive Page where
  | main
  | server
  | watch
  | help
  deriving DecidableEq, Repr

/-- The options of the commands. -/
inductive Opt where
  | url
  | topic
  | probe
  | help
  deriving DecidableEq, Repr

/-- The name of an option. -/
def Opt.long : Opt → String
  | .url => "url"
  | .topic => "topic"
  | .probe => "probe"
  | .help => "help"

/-- What stands for the value of an option that takes one. -/
def Opt.valueName? : Opt → Option String
  | .url => some "URL"
  | .topic => some "TOPIC"
  | .probe => none
  | .help => none

/-- An option with what stands for its value. -/
def Opt.shown (o : Opt) : String :=
  match o.valueName? with
  | some v => "--" ++ o.long ++ " <" ++ v ++ ">"
  | none => "--" ++ o.long

/-- The options of a command. -/
def Page.options : Page → List Opt
  | .main => [.help]
  | .server => [.help]
  | .watch => [.url, .topic, .probe, .help]
  | .help => []

/-- The word for a command; the program itself has none. -/
def Page.word : Page → String
  | .main => ""
  | .server => "server"
  | .watch => "watch"
  | .help => "help"

/-- The commands, in the order in which they are listed. -/
def commands : List Page := [.server, .watch, .help]

/-- What a command is for. -/
def Page.about : Page → String
  | .main => ""
  | .server => "Start the WebSocket broker"
  | .watch => "Print the topology graph published by a running server"
  | .help => "Print this message or the help of the given subcommand(s)"

/-- The program with the word of a command. -/
def Page.name : Page → String
  | .main => program
  | p => program ++ " " ++ p.word

/-- How a command is used, with `shown` in place of the general form of its options unless it is
empty. -/
def Page.usageWith (p : Page) (shown : List String) : String :=
  let optional :=
    match p with
    | .watch => " [OPTIONS]"
    | .help => " [COMMAND]..."
    | _ => ""
  let options := if shown.isEmpty then optional else String.join (shown.map (" " ++ ·))
  "Usage: " ++ p.name ++ options ++ if p = .main then " <COMMAND>" else ""

/-- How a command is used. When options have been given already, they stand in place of the general
form. -/
def Page.usage (p : Page) (given : List Opt) : String :=
  p.usageWith (given.map Opt.shown)

/-- The options that a command is told something by, all in one. -/
def Page.choice (p : Page) : String :=
  "<" ++ "|".intercalate ((p.options.filter (· ≠ .help)).map Opt.shown) ++ ">"

/-- How a command is used, seen from an option. Once options have been given, all that may be given
are shown as one choice, and of the option at hand only what is not among them. -/
def Page.usageFrom (p : Page) (given : List Opt) (o : Opt) : String :=
  if given.isEmpty then p.usage [o]
  else p.usageWith ((if o = .help then [o.shown] else []) ++ [p.choice])

/-- A text filled up with blanks on the right. -/
def padRight (width : Nat) (s : String) : String :=
  s ++ String.ofList (List.replicate (width - s.length) ' ')

/-- The lines of a page of help. -/
def Page.lines (p : Page) : List String :=
  match p with
  | .main =>
    [p.usage [], "", "Commands:"] ++
      commands.map (fun c => "  " ++ padRight 8 c.word ++ c.about) ++
      ["", "Options:", "  -h, --help  Print help"]
  | .server => [p.about, "", p.usage [], "", "Options:", "  -h, --help  Print help"]
  | .watch =>
    [p.about, "", p.usage [], "", "Options:",
      "      --url <URL>      WebSocket server URL to connect to [default: ws://127.0.0.1:8080]",
      "      --topic <TOPIC>  Graph topic to subscribe to (default: the configured one)",
      "      --probe          Send one latency probe after connecting",
      "  -h, --help           Print help"]
  | .help =>
    [p.about, "", p.usage [], "", "Arguments:",
      "  [COMMAND]...  Print help for the subcommand(s)"]

end BrokerTopology.CommandLine
