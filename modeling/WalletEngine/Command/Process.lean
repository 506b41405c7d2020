import WalletEngine.Command.Basic
import WalletEngine.Command.Crash
import WalletEngine.Command.DotEnv

/-! # The start of a process

Before a process does anything it looks at the file of variables, its environment and its arguments.
They settle how it goes on, or that it ends at once.
-/

namespace WalletEngine.Command
variable {m : Type → Type} [Monad m]

/-- How a process goes on. -/
inductive Course where
  | ended (ending : Ending)
  | errand (pretty : Bool) (settings : Settings) (errand : Errand)
  | watch (pretty : Bool) (settings : Settings)
  | serve (pretty : Bool) (settings : Settings) (port : UInt16)

/-- What a process finds when it starts. -/
structure Start where
  environment : Environment
  /-- The home directory of the account, if it has one. -/
  home : Option String
  arguments : List String
  /-- Whether somebody looks at the output. -/
  terminal : Bool
  /-- Where the process stands when it sets a variable. -/
  scene : Scene

/-- The ending of a process that could not set a variable. -/
def Ending.crash (scene : Scene) (fault : DotEnv.Fault) : Ending :=
  { code := 101, stderr := scene.report fault.environment fault.message }

def Invocation.course (i : Invocation) (env : Environment) (home : Option String)
    (terminal : Bool) : Course :=
  let pretty := i.isPretty terminal
  let settings := i.settings env home
  match i.task with
  | .error trouble => .ended (.of pretty (.error trouble))
  | .ok (.tell text) => .ended { code := 0, stdout := text ++ "\n" }
  | .ok (.errand errand) => .errand pretty settings errand
  | .ok .watch => .watch pretty settings
  | .ok .serve => .serve pretty settings (i.port.getD usualPort)

/-- The course of a process. -/
def begin (host : Host m) (s : Start) : m Course := do
  let text := (← host.readText DotEnv.fileName).toOption.getD ""
  match DotEnv.load text s.environment with
  | .ok env => return (Invocation.parse env s.arguments).course env s.home s.terminal
  | .error fault => return .ended (.crash s.scene fault)

end WalletEngine.Command
