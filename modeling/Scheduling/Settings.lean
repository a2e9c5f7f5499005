import Scheduling.Options.Document
import Scheduling.Scheduler
/-!
# Settings of a scheduler

What a scheduler is made from: the number of plans that may execute at once, the zone of its cron
schedules and the policies for plans that bring none. Settings are kept as documents, which may
name a zone that does not exist; a blueprint has passed the look-up of its zone.
-/

namespace Scheduling

/-- Why a number cannot be read from a text. -/
inductive NumeralFault
  | empty
  | badDigit
  | tooLarge
deriving DecidableEq, Repr

/-- The text that is shown for a number that cannot be read. -/
def NumeralFault.message : NumeralFault → String
  | empty => "cannot parse integer from empty string"
  | badDigit => "invalid digit found in string"
  | tooLarge => "number too large to fit in target type"

/-- Why settings are refused. -/
inductive SettingsError
  /-- The document cannot be read. -/
  | unreadable (reason : String)
  | badVariable (name value : String) (fault : NumeralFault)
  | noConcurrency
  | badZone (e : Error)
  | badPolicies (e : Error)
deriving DecidableEq, Repr

/-- The text that is shown for settings that are refused. -/
def SettingsError.message : SettingsError → String
  | unreadable reason => "parse error: " ++ reason
  | badVariable name value fault => name ++ "=`" ++ value ++ "`: " ++ fault.message
  | noConcurrency => "max_concurrency must be greater than 0"
  | badZone e => e.message
  | badPolicies e => "default_executor invalid: " ++ e.message

def SettingsError.error (e : SettingsError) : Error := .invalidConfig e.message

structure Settings where
  maxConcurrency : Nat
  /-- The name of the zone; without one it is the local time of the process. -/
  timezone : Option String
  defaultExecutor : ExecutorOptions
deriving DecidableEq, Repr, Inhabited

namespace Settings

/-- As many plans at a time as the machine has processors, which is one. -/
def standard : Settings := ⟨1, none, {}⟩

/-- The zone of the cron schedules. -/
def zone (s : Settings) (database : Zone.Database := Zone.recorded) : Except Error ZoneChoice :=
  match s.timezone with
  | none => .ok .localTime
  | some name => ZoneChoice.parse name database

/-- Checks the values; of a zone only the name counts. -/
def validate (s : Settings) : Except SettingsError Unit := do
  if s.maxConcurrency = 0 then throw .noConcurrency
  let _ ← s.zone.mapError .badZone
  s.defaultExecutor.validate.mapError .badPolicies

def json (s : Settings) : Json :=
  .object
    ([("max_concurrency", .integer s.maxConcurrency)]
      ++ ExecutorOptions.optionalMember "timezone" .string s.timezone
      ++ [("default_executor", s.defaultExecutor.json)])

def schema : Json.Schema Settings :=
  ⟨"SchedulerConfig",
    [⟨"max_concurrency", false, fun o s =>
        (Json.readNat .count s).map fun (n, rest) => ({ o with maxConcurrency := n }, rest)⟩,
      ⟨"timezone", false, fun o s =>
        (Json.readOption (Json.readText "a string") s).map
          fun (name, rest) => ({ o with timezone := name }, rest)⟩,
      ⟨"default_executor", false, fun o s =>
        (ExecutorOptions.read s).map
          fun (p, rest) => ({ o with defaultExecutor := p }, rest)⟩]⟩

/-- Reads settings; what is not given is as in the standard ones. -/
def read : Json.Reader Settings := schema.read standard

/-- Reads settings from a whole text, or tells why they cannot be read. -/
def parse (text : String) : Except String Settings := Json.readAll read text

/-- Reads settings from a whole text and checks them. -/
def load (text : String) : Except SettingsError Settings := do
  let s ← (parse text).mapError .unreadable
  s.validate
  return s

end Settings

/-- What a scheduler is made from, with its zone looked up. -/
structure Blueprint where
  maxConcurrency : Nat
  zone : ZoneChoice
  defaults : ExecutorOptions
deriving DecidableEq, Repr, Inhabited

namespace Blueprint

def standard : Blueprint :=
  ⟨Settings.standard.maxConcurrency, .localTime, Settings.standard.defaultExecutor⟩

def ofSettings (s : Settings) (database : Zone.Database := Zone.recorded) :
    Except Error Blueprint := do
  s.validate.mapError SettingsError.error
  let zone ← (s.zone database).mapError fun e => (SettingsError.badZone e).error
  return ⟨s.maxConcurrency, zone, s.defaultExecutor⟩

/-- Makes a scheduler, if the values are admissible. -/
def build (b : Blueprint) : Except Error Scheduler :=
  if b.maxConcurrency = 0 then .error SettingsError.noConcurrency.error
  else
    match b.defaults.validate with
    | .error e => .error (SettingsError.badPolicies e).error
    | .ok () => .ok (Scheduler.create b.maxConcurrency b.zone b.defaults)

end Blueprint

def Scheduler.ofSettings (s : Settings) (database : Zone.Database := Zone.recorded) :
    Except Error Scheduler := do
  (← Blueprint.ofSettings s database).build

end Scheduling
