import BrokerTopology.CommandLine.Help
import BrokerTopology.Text.Similarity
import BrokerTopology.Text.Visible
/-!
# Arguments

The first argument names a command, and the options of the command follow. Arguments are taken one
after the other; the first that cannot be taken decides the refusal. A refusal may carry a tip that
names a similar word, and shows how the command is used.

An option whose value stands in an argument of its own is settled only when the next option comes or
the arguments end. So an argument that cannot be taken at all is refused before a missing value or a
repeated option is noticed.
-/

namespace BrokerTopology.CommandLine

/-- What the `watch` command is told. -/
structure WatchOptions where
  url : String := "ws://127.0.0.1:8080"
  topic : Option String := none
  probe : Bool := false
  deriving DecidableEq, Repr

/-- A command with its options. -/
inductive Command where
  | server
  | watch (options : WatchOptions)
  deriving DecidableEq, Repr

/-- Why arguments are refused. -/
inductive Refusal where
  /-- No command is named; the page of the program is shown instead. -/
  | noCommand
  | unknownCommand (word : String) (similar : List String) (usage : String)
  /-- No page of help goes under a word that follows the word for another page. -/
  | unknownPage (word : String) (behind : Page)
  /-- A command stands behind a double dash. -/
  | needlessDash (word : String) (usage : String)
  | unexpectedArgument (arg : String) (tip : Option String) (usage : String)
  | missingValue (option : Opt)
  | repeated (option : Opt) (usage : String)
  | unexpectedValue (value : String) (option : Opt) (usage : String)
  deriving DecidableEq, Repr

/-- What arguments ask for. -/
inductive Asked where
  | run (command : Command)
  | help (page : Page)
  | refused (why : Refusal)
  deriving DecidableEq, Repr

/-! ## The text of a refusal -/

/-- What is visible of a text, in quotes. -/
def inQuotes (s : String) : String := "'" ++ Text.visible s ++ "'"

/-- The tip that names similar commands. -/
def similarTip (similar : List String) : Option String :=
  match similar with
  | [] => none
  | [w] => some ("a similar subcommand exists: " ++ inQuotes w)
  | ws => some ("some similar subcommands exist: " ++ ", ".intercalate (ws.map inQuotes))

/-- Where help is found. The page on help has no option that shows it. -/
def hint (p : Page) : Option String :=
  if p.options.contains .help then some "For more information, try '--help'." else none

/-- The lines of a refusal, with blank lines between them: the cause, a tip, how the command is used,
and where to find help. -/
def refusalLines (cause : String) (tip usage hint : Option String) : List String :=
  (["error: " ++ cause] ++ (tip.map ("  tip: " ++ ·)).toList ++ usage.toList ++
    hint.toList).intersperse ""

/-- The lines that are shown for a refusal. -/
def Refusal.lines : Refusal → List String
  | .noCommand => Page.main.lines
  | .unknownCommand word similar usage =>
    refusalLines ("unrecognized subcommand " ++ inQuotes word) (similarTip similar) usage
      (hint .main)
  | .unknownPage word behind =>
    refusalLines ("unrecognized subcommand " ++ inQuotes word) none (behind.usage []) (hint behind)
  | .needlessDash word usage =>
    refusalLines ("unexpected argument " ++ inQuotes word ++ " found")
      ("subcommand " ++ inQuotes word ++ " exists; to use it, remove the '--' before it") usage
      (hint .main)
  | .unexpectedArgument arg tip usage =>
    refusalLines ("unexpected argument " ++ inQuotes arg ++ " found") tip usage (hint .main)
  | .missingValue option =>
    refusalLines ("a value is required for " ++ inQuotes option.shown ++ " but none was supplied")
      none none (hint .main)
  | .repeated option usage =>
    refusalLines ("the argument " ++ inQuotes option.shown ++ " cannot be used multiple times") none
      usage (hint .main)
  | .unexpectedValue value option usage =>
    refusalLines
      ("unexpected value " ++ inQuotes value ++ " for " ++ inQuotes option.shown ++
        " found; no more were expected")
      none usage (hint .main)

/-! ## Taking arguments -/

/-- The kinds of arguments. -/
inductive Arg where
  /-- Two dashes alone: no options follow. -/
  | dashes
  /-- A name behind two dashes, with a value if there is an equals sign. -/
  | long (name : String) (value : Option String)
  /-- A letter behind one dash. Letters that follow it are not looked at. -/
  | short (letter : Char)
  | word (text : String)
  deriving DecidableEq, Repr

/-- The kind of an argument. -/
def Arg.of (s : String) : Arg :=
  match s.toList with
  | ['-', '-'] => .dashes
  | '-' :: '-' :: rest =>
    let (name, value) := rest.span (· != '=')
    .long (String.ofList name) (value.tail?.map String.ofList)
  | '-' :: c :: _ => .short c
  | _ => .word s

/-- The similar option that an unknown one may stand for: an option of the command itself, or one of
a command that is named by a later argument. -/
def similarOption (p : Page) (name : String) (later : List String) : Option (Opt × Option Page) :=
  let best (q : Page) : Option Opt := do
    let long ← (Text.similarWords name (q.options.map Opt.long)).getLast?
    q.options.find? fun o => o.long == long
  match best p with
  | some o => some (o, none)
  | none =>
    if p = .main then
      let found := commands.filterMap fun q => do
        let o ← best q
        let place ← later.findIdx? (· == q.word)
        return (place, o, q)
      let first := found.foldl (fun acc e =>
        match acc with
        | some a => if e.1 < a.1 then some e else some a
        | none => some e) (none : Option (Nat × Opt × Page))
      first.map fun e => (e.2.1, some e.2.2)
    else none

/-- The refusal of an unknown option. A similar option of the command counts as given in the shown
usage. -/
def unknownOption (p : Page) (given : List Opt) (name : String) (later : List String) : Refusal :=
  match similarOption p name later with
  | none => .unexpectedArgument ("--" ++ name) none (p.usage given)
  | some (o, none) =>
    let given := if given.contains o then given else given ++ [o]
    .unexpectedArgument ("--" ++ name) (some ("a similar argument exists: " ++ inQuotes ("--" ++ o.long)))
      (p.usage given)
  | some (o, some q) =>
    .unexpectedArgument ("--" ++ name) (some (inQuotes (q.word ++ " --" ++ o.long) ++ " exists"))
      (p.usage given)

/-- Options that have been taken, in the order in which they were given. An option that has its value
in an argument of its own is pending, with the value as soon as that is read, until the next option
or the end of the arguments settles it. -/
structure Taken where
  given : List Opt := []
  options : WatchOptions := {}
  pending : Option (Opt × Option String) := none

/-- Takes an option with its value. -/
def Taken.take (t : Taken) (o : Opt) (value : String) : Taken :=
  { t with
    given := t.given ++ [o]
    options :=
      match o with
      | .url => { t.options with url := value }
      | .topic => { t.options with topic := some value }
      | .probe => { t.options with probe := true }
      | .help => t.options }

/-- Takes an option that has not been given before. -/
def Taken.takeNew (p : Page) (t : Taken) (o : Opt) (value : String) : Except Asked Taken :=
  if t.given.contains o then .error (.refused (.repeated o (p.usage []))) else .ok (t.take o value)

/-- Takes the pending option. -/
def Taken.settle (p : Page) (t : Taken) : Except Asked Taken :=
  match t.pending with
  | none => .ok t
  | some (o, none) => .error (.refused (.missingValue o))
  | some (o, some v) => takeNew p { t with pending := none } o v

/-- The options that count as given when an unknown one comes. A pending option does if it has its
value, but one that has come twice does not. -/
def Taken.known (t : Taken) : List Opt :=
  match t.pending with
  | some (o, some _) => if t.given.contains o then t.given.erase o else t.given ++ [o]
  | _ => t.given

/-- Takes the options of a command. An argument that cannot be taken at all is refused before the
pending option is settled. -/
def takeOptions (p : Page) : Taken → List String → Except Asked Taken
  | t, [] => t.settle p
  | t, a :: rest =>
    match Arg.of a with
    | .word w =>
      match t.pending with
      | some (o, none) => takeOptions p { t with pending := some (o, some w) } rest
      | _ => .error (.refused (.unexpectedArgument w none (p.usage [])))
    | .dashes =>
      match rest with
      | b :: _ => .error (.refused (.unexpectedArgument b none (p.usage [])))
      | [] => t.settle p
    | .short c =>
      if c = 'h' then do
        let _ ← t.settle p
        .error (.help p)
      else .error (.refused (.unexpectedArgument (String.ofList ['-', c]) none (p.usage [])))
    | .long name value =>
      match p.options.find? fun o => o.long == name, value with
      | none, _ => .error (.refused (unknownOption p t.known name rest))
      | some o, some v =>
        if o.valueName?.isNone then
          .error (.refused (.unexpectedValue v o (p.usageFrom t.given o)))
        else do
          let t ← t.settle p
          let t ← t.takeNew p o v
          takeOptions p t rest
      | some o, none => do
        let t ← t.settle p
        if o = .help then .error (.help p)
        else if o.valueName?.isSome then takeOptions p { t with pending := some (o, none) } rest
        else do
          let t ← t.takeNew p o ""
          takeOptions p t rest

/-- The page that is asked for by the words behind `help`. -/
def helpPage (p : Page) : List String → Asked
  | [] => .help p
  | w :: ws =>
    match if p = .main then commands.find? fun c => c.word == w else none with
    | some q => helpPage q ws
    | none => .refused (.unknownPage w p)

/-- What the arguments ask for. -/
def ask (args : List String) : Asked :=
  let usage := Page.main.usage []
  let unknown (w : String) : Asked :=
    .refused (.unknownCommand w (Text.similarWords w (commands.map Page.word)) usage)
  let finish (p : Page) (rest : List String) (command : WatchOptions → Command) : Asked :=
    match takeOptions p {} rest with
    | .ok t => .run (command t.options)
    | .error asked => asked
  match args with
  | [] => .refused .noCommand
  | a :: rest =>
    match Arg.of a with
    | .word "server" => finish .server rest fun _ => .server
    | .word "watch" => finish .watch rest .watch
    | .word "help" => helpPage .main rest
    | .word w => unknown w
    | .dashes =>
      match rest with
      | [] => .refused .noCommand
      | w :: _ =>
        if (commands.map Page.word).contains w then .refused (.needlessDash w usage) else unknown w
    | .short c =>
      if c = 'h' then .help .main
      else .refused (.unexpectedArgument (String.ofList ['-', c]) none usage)
    | .long name value =>
      if name = Opt.help.long then
        match value with
        | none => .help .main
        | some v => .refused (.unexpectedValue v .help (Page.main.usageFrom [] .help))
      else .refused (unknownOption .main [] name rest)

end BrokerTopology.CommandLine
