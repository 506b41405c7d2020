import WalletEngine.Settings
import WalletEngine.Text.Quoted

/-! # The file of variables

A file in the working directory may define variables for the process, one on a line. It never
changes a variable that is set to a text already, so of two definitions of one name the first counts.
A variable whose value is no text counts as unset. A variable whose name is empty, or that has a NUL
in its name or value, cannot be set at all.
-/

namespace WalletEngine.Command.DotEnv

def fileName : String := ".env"

/-- A variable that cannot be set. -/
structure Fault where
  name : String
  value : String
  /-- The variables by then. -/
  environment : Environment
  deriving DecidableEq

def Fault.message (fault : Fault) : String :=
  let reason := if (fault.name ++ fault.value).toList.contains '\x00' then
      "file name contained an unexpected NUL byte"
    else "Invalid argument (os error 22)"
  "failed to set environment variable `" ++ Text.quoted fault.name ++ "` to `" ++
    Text.quoted fault.value ++ "`: " ++ reason

/-- The name and the value that a line defines. Comments, lines without an equals sign and empty
values define nothing. -/
def definition? (line : String) : Option (String × String) :=
  let line := Text.strip Text.isBlank line.toList
  match line, line.span (· != '=') with
  | '#' :: _, _ => none
  | _, (name, _ :: value) =>
    let value := Text.strip (· == '"') (Text.strip Text.isBlank value)
    if value.isEmpty then none
    else some (Text.trim (String.ofList name), String.ofList value)
  | _, _ => none

/-- The lines of a text. -/
def lines (text : String) : List String :=
  (text.toList.splitOn '\n').map String.ofList

/-- The definitions in a text, from its first line on. -/
def definitions (text : String) : List (String × String) :=
  (lines text).filterMap definition?

/-- Whether a process can have a variable with this name and value. -/
def isSettable (name value : String) : Bool :=
  !name.isEmpty && !name.toList.contains '=' && !name.toList.contains '\x00' &&
    !value.toList.contains '\x00'

/-- Sets a variable, unless it is set to a text already. -/
def define (env : Environment) : String × String → Except Fault Environment := fun (name, value) =>
  if (env.get? name).isSome then .ok env
  else if isSettable name value then .ok (env.set name value)
  else .error ⟨name, value, env⟩

def load (text : String) (env : Environment) : Except Fault Environment :=
  (definitions text).foldlM define env

end WalletEngine.Command.DotEnv
