import BrokerTopology.CommandLine.Run
/-!
# The program

The outer layer reads the files of settings and the environment, runs the command and prints its
outcome. It has no transport of its own: a server that is to be watched is out of reach, and a
server that would go on to serve gives up.
-/

namespace BrokerTopology.CommandLine

/-- The names of the variables that set the settings of a section. -/
def sectionVariables (heading : String) (names : List String) : List String :=
  names.map fun n => ("netgraph__" ++ heading ++ "__" ++ n).map Char.toUpper

/-- The names of all variables that set a setting. -/
def variableNames : List String :=
  sectionVariables "server" Settings.serverNames ++ sectionVariables "graph" Settings.graphNames ++
    sectionVariables "log" Settings.logNames

/-- The variables that are set in the environment. -/
def readEnvironment : IO Settings.Environment :=
  variableNames.filterMapM fun name => do
    return (← IO.getEnv name).map fun value => (name, value)

/-- The files of settings that can be read. -/
def readFiles : IO Settings.Files :=
  Settings.Format.all.filterMapM fun format => do
    let name := Settings.defaultPath ++ format.ending
    try
      return some (name, ← IO.FS.readFile name)
    catch _ => return none

/-- Prints the lines of an outcome. -/
def Outcome.print (o : Outcome) : IO Unit := do
  o.out.forM fun line => IO.println line
  o.err.forM fun line => IO.eprintln line

end BrokerTopology.CommandLine

open BrokerTopology.CommandLine in
/-- Runs the program and ends with the exit code of its outcome. -/
def main (args : List String) : IO UInt32 := do
  let outcome := run args (← readFiles) (← readEnvironment) { server := .error .unreachable }
  let outcome := outcome.getD (failure "Server")
  outcome.print
  return outcome.code.toUInt32
