import WalletEngine.Decimal.Natural
import WalletEngine.Store.Files
import WalletEngine.Text.Blank
import WalletEngine.Time.Instant

/-! # Settings

Where the servers and the data are and how often things are looked at. Each setting has a default,
which a variable of the environment may override; a blank variable counts as unset. Where the data are
by default depends on the account, too. Periods of timers are never zero.
-/

namespace WalletEngine

/-- The value of a variable, which need not be a text. -/
inductive Environment.Value where
  | text (s : String)
  /-- Bytes that are not UTF-8. -/
  | bytes (bs : Bytes) (broken : Utf8.decode? bs = none)
  deriving DecidableEq

instance : Coe String Environment.Value := ⟨.text⟩

def Environment.Value.text? : Environment.Value → Option String
  | .text s => some s
  | .bytes _ _ => none

/-- The variables of a process, each name once. -/
abbrev Environment := List (String × Environment.Value)

namespace Environment

/-- The names of the variables that mean something here. -/
def names : List String :=
  ["HOME", "XDG_DATA_HOME", "DRIFTWALLET_ROOT", "DRIFTWALLET_DATA_DIR", "DRIFTWALLET_NODE_URL",
   "DRIFTWALLET_SIMULATOR_URL", "DRIFTWALLET_REFRESH_SECS", "DRIFTWALLET_HEALTH_SECS",
   "DRIFTWALLET_TIMEOUT_SECS", "DRIFTWALLET_PORT", "RUST_BACKTRACE"]

/-- The value of a variable as it is. -/
def value? (env : Environment) (name : String) : Option Value := env.lookup name

/-- The value of a variable that is set to a text. -/
def get? (env : Environment) (name : String) : Option String := (env.value? name).bind Value.text?

/-- The value of a variable without the blanks around it, unless nothing is left. -/
def text? (env : Environment) (name : String) : Option String :=
  ((env.get? name).map Text.trim).filter (!·.isEmpty)

/-- A number of seconds above zero, in nanoseconds. -/
def seconds? (env : Environment) (name : String) : Option Nat :=
  (((env.text? name).bind (Decimal.natural? UInt64.size)).filter (0 < ·)).map (· * Time.perSecond)

def set (env : Environment) (name value : String) : Environment :=
  (name, .text value) :: env.filter (·.1 != name)

/-- The environment without a variable. -/
def unset (env : Environment) (name : String) : Environment :=
  env.filter (·.1 != name)

/-- The path that a variable names. Bytes that are not UTF-8 count as a path too; they show as in a
lenient reading. -/
def path? (env : Environment) (name : String) : Option String :=
  (env.value? name).map fun
    | .text s => s
    | .bytes bs _ => Utf8.lenient bs

/-- The home directory: the one that is named, else that of the account. -/
def homeDirectory? (env : Environment) (home : Option String) : Option String :=
  ((env.path? "HOME").filter (!·.isEmpty)) <|> home

/-- The directory for data of the user: the one that the desktop standard names if its path is
absolute, else the usual one in the home directory. Who has no home works where the process stands. -/
def userDataDirectory (env : Environment) (home : Option String) : String :=
  match (env.path? "XDG_DATA_HOME").filter (·.startsWith "/") with
  | some directory => directory
  | none => (env.homeDirectory? home).elim "." (joinPath · ".local/share")

theorem value?_cons (env : Environment) (first name : String) (value : Value) :
    value? ((first, value) :: env) name = if name = first then some value else env.value? name := by
  rw [value?, List.lookup_cons]
  by_cases h : name = first
  · simp [h]
  · rw [beq_false_of_ne h, if_neg h]
    rfl

theorem value?_unset (env : Environment) (name other : String) :
    (env.unset name).value? other = if other = name then none else env.value? other := by
  induction env with
  | nil => simp [unset, value?]
  | cons entry env ih =>
    obtain ⟨first, value⟩ := entry
    rw [unset] at ih
    rw [unset, List.filter_cons, value?_cons]
    by_cases hfirst : first = name
    · subst hfirst
      rw [if_neg (by simp), ih]
      by_cases hother : other = first <;> simp [hother]
    · by_cases hother : other = first
      · subst hother
        simp [hfirst, value?_cons]
      · simp [hfirst, hother, value?_cons, ih]

theorem value?_set (env : Environment) (name value other : String) :
    (env.set name value).value? other =
      if other = name then some (.text value) else env.value? other := by
  have hrest := env.value?_unset name other
  rw [unset] at hrest
  rw [set, value?_cons, hrest]
  split <;> rfl

end Environment

/-- The settings of a process. Times are in nanoseconds. -/
structure Settings where
  nodeUrl : String
  simulatorUrl : String
  dataDirectory : String
  /-- How often balance and history are fetched. -/
  refreshEvery : Nat
  /-- How often the services are probed. -/
  healthEvery : Nat
  /-- How long an exchange may take. -/
  requestTimeout : Nat
  deriving DecidableEq, Repr

namespace Settings

/-- The directory that is used if none is named. -/
def defaultDirectory (env : Environment) (home : Option String) : String :=
  joinPath ((env.get? "DRIFTWALLET_ROOT").getD (env.userDataDirectory home)) "driftwallet"

/-- The settings without any override. -/
def default (env : Environment) (home : Option String) : Settings where
  nodeUrl := "http://localhost:3000"
  simulatorUrl := "http://localhost:3001"
  dataDirectory := defaultDirectory env home
  refreshEvery := 10 * Time.perSecond
  healthEvery := 30 * Time.perSecond
  requestTimeout := 10 * Time.perSecond

def ofEnvironment (env : Environment) (home : Option String) : Settings :=
  let base := default env home
  { nodeUrl := (env.text? "DRIFTWALLET_NODE_URL").getD base.nodeUrl
    simulatorUrl := (env.text? "DRIFTWALLET_SIMULATOR_URL").getD base.simulatorUrl
    dataDirectory := (env.text? "DRIFTWALLET_DATA_DIR").getD base.dataDirectory
    refreshEvery := (env.seconds? "DRIFTWALLET_REFRESH_SECS").getD base.refreshEvery
    healthEvery := (env.seconds? "DRIFTWALLET_HEALTH_SECS").getD base.healthEvery
    requestTimeout := (env.seconds? "DRIFTWALLET_TIMEOUT_SECS").getD base.requestTimeout }

def leastPeriod : Nat := Time.perMilli

/-- One setting that a caller overrides. -/
inductive Override where
  | nodeUrl (url : String)
  | simulatorUrl (url : String)
  | dataDirectory (path : String)
  | refreshEvery (nanos : Nat)
  | healthEvery (nanos : Nat)
  | requestTimeout (nanos : Nat)
  deriving DecidableEq, Repr

/-- The settings with an override. Unlike a variable, it counts even if it is blank. -/
def override (s : Settings) : Override → Settings
  | .nodeUrl url => { s with nodeUrl := url }
  | .simulatorUrl url => { s with simulatorUrl := url }
  | .dataDirectory path => { s with dataDirectory := path }
  | .refreshEvery nanos => { s with refreshEvery := max nanos leastPeriod }
  | .healthEvery nanos => { s with healthEvery := max nanos leastPeriod }
  | .requestTimeout nanos => { s with requestTimeout := nanos }

end Settings
end WalletEngine
