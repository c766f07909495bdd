import TwinGraph.Query.Cypher
import TwinGraph.Settings.File

/-! The command line: options and twin queries, each of which is answered in Cypher. Wrong usage
is told before wrong settings, and wrong settings before wrong queries. -/
namespace TwinGraph.CommandLine

structure Arguments where
  graphName : Option Text
  settingsFile : Option Text
  queries : List Text
  deriving DecidableEq, Repr

inductive UsageFault where
  | unknownOption (argument : Text)
  | missingValue (option : Text)
  | repeatedOption (option : Text)
  | noQueries
  deriving DecidableEq, Repr

inductive Command where
  | version
  | help
  | answer (arguments : Arguments)
  deriving DecidableEq, Repr

inductive Outcome where
  | wrongUsage (fault : UsageFault)
  | version
  | help
  | wrongSettings (error : SettingsError)
  | answers (results : List (Text × Except QueryError Text))

def graphNameOption : Text := "--graph-name"

def settingsOption : Text := "--config"

/-- Whether the argument looks like an option. A dash alone does not. -/
def isOption : Text → Bool
  | '-' :: _ :: _ => true
  | _ => false

def Arguments.setGraphName (value : Text) (a : Arguments) : Except UsageFault Arguments :=
  if a.graphName.isSome then .error (.repeatedOption graphNameOption)
  else .ok { a with graphName := some value }

/-- Sets the file of the settings, which may be done once and needs a name. -/
def Arguments.setSettingsFile (value : Text) (a : Arguments) : Except UsageFault Arguments :=
  if a.settingsFile.isSome then .error (.repeatedOption settingsOption)
  else if value.isEmpty then .error (.missingValue settingsOption)
  else .ok { a with settingsFile := some value }

def attached? (option argument : Text) : Option Text := Text.after? (option ++ ['=']) argument

def finish (a : Arguments) : Except UsageFault Command :=
  if a.queries.isEmpty then .error .noQueries else .ok (.answer a)

def readFrom (a : Arguments) : List Text → Except UsageFault Command
  | [] => finish a
  | argument :: rest =>
    if argument = "--" then finish { a with queries := a.queries ++ rest }
    else if argument = graphNameOption ∨ argument = settingsOption then
      match rest with
      | [] => .error (.missingValue argument)
      | value :: rest =>
        if isOption value then .error (.missingValue argument)
        else if argument = graphNameOption then do readFrom (← a.setGraphName value) rest
        else do readFrom (← a.setSettingsFile value) rest
    else
      match attached? graphNameOption argument, attached? settingsOption argument with
      | some value, _ => do readFrom (← a.setGraphName value) rest
      | none, some value => do readFrom (← a.setSettingsFile value) rest
      | none, none =>
        if argument = "--version" ∨ "-V".toList.isPrefixOf argument then .ok .version
        else if argument = "--help" ∨ "-h".toList.isPrefixOf argument then .ok .help
        else if isOption argument then .error (.unknownOption argument)
        else readFrom { a with queries := a.queries ++ [argument] } rest

def read (arguments : List Text) : Except UsageFault Command := readFrom ⟨none, none, []⟩ arguments

def loadSettings (env : Settings.Environment) (file : Text → Option Text) (a : Arguments) :
    Except SettingsError Settings :=
  match a.settingsFile with
  | some name => Settings.ofFile (file name)
  | none => Settings.ofEnvironment env

/-- Answers the queries for the graph of the settings, or the one that the arguments name. The
settings have to be right without that name too. -/
def answer (env : Settings.Environment) (file : Text → Option Text) (a : Arguments) :
    Except SettingsError (List (Text × Except QueryError Text)) := do
  let settings := (← loadSettings env file a).override ⟨a.graphName, none⟩
  settings.check
  return a.queries.map fun query => (query, Query.toCypher settings.graphName query)

def run (env : Settings.Environment) (file : Text → Option Text) (arguments : List Text) : Outcome :=
  match read arguments with
  | .error fault => .wrongUsage fault
  | .ok .version => .version
  | .ok .help => .help
  | .ok (.answer a) =>
    match answer env file a with
    | .error error => .wrongSettings error
    | .ok results => .answers results

def settingsFile? (arguments : List Text) : Option Text :=
  match read arguments with
  | .ok (.answer a) => a.settingsFile
  | _ => none

def usage : Text := "Usage: adt-cypher [--graph-name NAME] [--config FILE] QUERIES..."

def UsageFault.message : UsageFault → Text
  | unknownOption argument => Text.joined ["unexpected argument '", argument, "' found"]
  | missingValue option => Text.joined ["a value is required for '", option, "'"]
  | repeatedOption option => Text.joined ["'", option, "' cannot be used more than once"]
  | noQueries => "no queries are given"

namespace Outcome

def code : Outcome → Nat
  | wrongUsage _ => 2
  | version | help => 0
  | wrongSettings _ => 1
  | answers results => if results.all (·.2.isOk) then 0 else 2

def line (s : Text) : Text := s ++ ['\n']

def output : Outcome → Text
  | wrongUsage _ | wrongSettings _ => []
  | version => line "age-digital-twins 0.1.0"
  | help => line usage
  | answers results => results.flatMap fun (_, result) =>
    match result with
    | .ok cypher => line cypher
    | .error _ => []

def errors : Outcome → Text
  | wrongUsage fault => Text.joined ["error: ", fault.message, "\n\n", line usage]
  | version | help => []
  | wrongSettings error => line (Text.joined ["Configuration error: ", error.message])
  | answers results => results.flatMap fun (query, result) =>
    match result with
    | .ok _ => []
    | .error error => line (Text.joined [query, ": ", error.message])

end Outcome
end TwinGraph.CommandLine
