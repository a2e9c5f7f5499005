import Scheduling.Time.Duration
import Scheduling.Cron.Schedule
import Scheduling.Time.Zone.Choice
/-!
# Errors

Everything that can go wrong when tasks are planned and run, each cause with its message.
-/

namespace Scheduling

/-- The causes of failure. Errors are values: a task keeps its last one and hands out copies. -/
inductive Error
  /-- The current state does not admit the operation. -/
  | conflict (reason : String)
  /-- There is no such task, plan, key or result. -/
  | notFound (what : String)
  /-- The caller gave a malformed argument. -/
  | invalidArgument (reason : String)
  | invalidCron (expression reason : String)
  /-- The settings are not admissible. -/
  | invalidConfig (reason : String)
  | deadlineExceeded
  | canceled
  | panic (text : String)
  | failed (reason : String)
  /-- Any other error of a task body, with its outermost description. -/
  | other (reason : String)
deriving DecidableEq, Repr, Inhabited

namespace Error

/-- The text that is shown for an error. -/
def message : Error → String
  | conflict reason => "conflict: " ++ reason
  | notFound what => "not found: " ++ what
  | invalidArgument reason => "invalid argument: " ++ reason
  | invalidCron expression reason => "invalid cron expression `" ++ expression ++ "`: " ++ reason
  | invalidConfig reason => "invalid configuration: " ++ reason
  | deadlineExceeded => "context deadline exceeded"
  | canceled => "context canceled"
  | panic text => text
  | failed reason => reason
  | other reason => reason

/-- The conflict of a task that must not start again before some time has passed. -/
def coolingDown (task : String) (remaining : Duration) : Error :=
  conflict ("task `" ++ task ++ "` is cooling down, " ++ remaining.text ++ " remaining")

/-- The conflict of a finished task that may run only once. -/
def onlyOnce (task : String) : Error :=
  conflict ("task `" ++ task ++ "` is done and may only run once")

def alreadyRunning (task : String) : Error :=
  conflict ("task `" ++ task ++ "` is already running")

def unknownZone (name : String) : Error :=
  invalidConfig ("unknown timezone `" ++ name ++ "`")

/-- An error of a task body to which descriptions were added one after the other; the last one
stands for it. -/
def described (message : String) (descriptions : List String) : Error :=
  other (descriptions.getLast?.getD message)

def isConflict : Error → Bool
  | conflict _ => true
  | _ => false

def isNotFound : Error → Bool
  | notFound _ => true
  | _ => false

def isContextError : Error → Bool
  | canceled | deadlineExceeded => true
  | _ => false

end Error

/-- Reads a cron expression or tells that it cannot be read. -/
def Cron.Schedule.parse (expression : String) : Except Error Schedule :=
  match Schedule.ofExpression? expression with
  | some schedule => .ok schedule
  | none => .error (.invalidCron expression "Invalid expression: Invalid cron expression.")

/-- Reads the name of a time zone or tells that there is no such zone. -/
def ZoneChoice.parse (name : String) (database : Zone.Database := Zone.recorded) :
    Except Error ZoneChoice :=
  match ZoneChoice.ofName? database name with
  | some zone => .ok zone
  | none => .error (.unknownZone name)

end Scheduling
