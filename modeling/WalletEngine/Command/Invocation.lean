import WalletEngine.Decimal.Literal
import WalletEngine.Settings

/-! # Invocations

The arguments of a process, told apart: options may stand anywhere, and what remains is the command
followed by its own arguments. What looks like an option but is a number remains too. The last
option counts for nothing if its value is missing.
-/

namespace WalletEngine.Command

/-- What the arguments say. -/
structure Invocation where
  /-- The command and its arguments. -/
  positionals : List String := []
  nodeUrl : Option String := none
  simulatorUrl : Option String := none
  dataDirectory : Option String := none
  port : Option UInt16 := none
  json : Bool := false
  pretty : Bool := false
  help : Bool := false
  version : Bool := false
  deriving DecidableEq, Repr

/-- An option that stands alone. -/
inductive Flag where
  | help
  | version
  | json
  | pretty
  deriving DecidableEq, Repr

/-- An option that takes the argument behind it as its value. -/
inductive Valued where
  | nodeUrl
  | simulatorUrl
  | dataDirectory
  | port
  deriving DecidableEq, Repr

/-- What an argument is when no option takes it as a value. -/
inductive Argument where
  | flag (flag : Flag)
  | valued (option : Valued)
  | positional
  /-- An option that is not known. -/
  | ignored
  deriving DecidableEq, Repr

def Argument.of (arg : String) : Argument :=
  if arg = "--help" || arg = "-h" then .flag .help
  else if arg = "--version" || arg = "-V" then .flag .version
  else if arg = "--json" then .flag .json
  else if arg = "--pretty" then .flag .pretty
  else if arg = "--node" then .valued .nodeUrl
  else if arg = "--simulator" then .valued .simulatorUrl
  else if arg = "--data-dir" || arg = "-d" then .valued .dataDirectory
  else if arg = "--port" || arg = "-p" then .valued .port
  else if !arg.startsWith "-" || (Decimal.Literal.parse? arg).isSome then .positional
  else .ignored

def readPort (text : String) : Option UInt16 :=
  (Decimal.natural? UInt16.size text).map UInt16.ofNat

namespace Invocation

def withFlag (i : Invocation) : Flag → Invocation
  | .help => { i with help := true }
  | .version => { i with version := true }
  | .json => { i with json := true }
  | .pretty => { i with pretty := true }

/-- The invocation with the value of an option; a later value replaces an earlier one, and a port
that is no number takes an earlier one back. -/
def withValue (i : Invocation) (value : String) : Valued → Invocation
  | .nodeUrl => { i with nodeUrl := some value }
  | .simulatorUrl => { i with simulatorUrl := some value }
  | .dataDirectory => { i with dataDirectory := some value }
  | .port => { i with port := readPort value }

def withPositional (i : Invocation) (arg : String) : Invocation :=
  { i with positionals := i.positionals ++ [arg] }

/-- The invocation with more arguments. -/
def scan (i : Invocation) : List String → Invocation
  | [] => i
  | arg :: rest =>
    match Argument.of arg, rest with
    | .flag flag, rest => (i.withFlag flag).scan rest
    | .valued option, value :: rest => (i.withValue value option).scan rest
    | .valued _, [] => i
    | .positional, rest => (i.withPositional arg).scan rest
    | .ignored, rest => i.scan rest

/-- The invocation of a process; a port may also come from its environment. -/
def parse (env : Environment) (args : List String) : Invocation :=
  let i : Invocation := scan {} args
  { i with port := i.port <|> (env.get? "DRIFTWALLET_PORT").bind readPort }

def command? (i : Invocation) : Option String := i.positionals.head?

def arguments (i : Invocation) : List String := i.positionals.drop 1

/-- Whether output is laid out in lines; a terminal is no reason for it if the compact form is asked
for. -/
def isPretty (i : Invocation) (terminal : Bool) : Bool := !i.json && (i.pretty || terminal)

/-- The settings of an environment, overridden by what the arguments say. -/
def settings (i : Invocation) (env : Environment) (home : Option String) : Settings :=
  let overrides := (i.nodeUrl.map .nodeUrl).toList ++ (i.simulatorUrl.map .simulatorUrl).toList ++
    (i.dataDirectory.map .dataDirectory).toList
  overrides.foldl Settings.override (Settings.ofEnvironment env home)

end Invocation
end WalletEngine.Command
