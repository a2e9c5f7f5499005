import Scheduling.Settings
import Scheduling.Settings.Variables
/-!
# Settings from variables

The standard settings with a number and a zone from two variables, which may be set in the
environment or in a file.
-/

namespace Scheduling.Settings

/-- The variable with the number of plans that may execute at once. -/
def concurrencyVariable : String := "TASK_RUNTIME_MAX_CONCURRENCY"

def zoneVariable : String := "TASK_RUNTIME_TIMEZONE"

/-- Reads digits behind those of `n`. -/
def readDigits (n : Nat) : List Char → Except NumeralFault Nat
  | [] => .ok n
  | c :: rest =>
    if !c.isDigit then .error .badDigit
    else if Json.Width.count.greatest < 10 * n + (c.toNat - 48) then .error .tooLarge
    else readDigits (10 * n + (c.toNat - 48)) rest

def readCount (s : List Char) : Except NumeralFault Nat :=
  match s with
  | [] => .error .empty
  | ['+'] => .error .badDigit
  | '+' :: digits => readDigits 0 digits
  | digits => readDigits 0 digits

/-- The settings with the number from a variable, if it is set. -/
def withConcurrency (s : Settings) (value : Option String) : Except SettingsError Settings :=
  match value with
  | none => .ok s
  | some value =>
    match readCount (Text.trim value.toList) with
    | .ok n => .ok { s with maxConcurrency := n }
    | .error fault => .error (.badVariable concurrencyVariable value fault)

/-- The settings with the zone from a variable, unless it is blank. -/
def withZone (s : Settings) (value : Option String) : Settings :=
  match value with
  | none => s
  | some value =>
    match Text.trim value.toList with
    | [] => s
    | name => { s with timezone := some (String.ofList name) }

def ofVariables (set : Registry String String) : Except SettingsError Settings := do
  let s ← standard.withConcurrency (set.get? concurrencyVariable)
  let s := s.withZone (set.get? zoneVariable)
  s.validate
  return s

def ofEnvironment (set : Registry String String) (file : Option String) :
    Except SettingsError Settings :=
  ofVariables ((file.map (Variables.load set)).getD set)

end Scheduling.Settings
