import Scheduling.Error
/-!
# Policies of an executor

How often a task is tried, how long a run may last, how long it then rests, and whether it may run
again at all.
-/

namespace Scheduling

/-- Tries a failing task again after a fixed delay. -/
structure RetryPolicy where
  /-- The number of attempts, the first one included. -/
  attempts : Nat
  /-- The pause between two attempts. -/
  delay : Duration
deriving DecidableEq, Repr, Inhabited

/-- The policies that an executor applies; all are off unless set. -/
structure ExecutorOptions where
  /-- The longest a run may last before its context is done. -/
  timeout : Option Duration := none
  retry : Option RetryPolicy := none
  /-- The rest after each run. -/
  cooldown : Option Duration := none
  /-- Refuse to start a task that is done; retries do not apply then. -/
  once : Bool := false
deriving DecidableEq, Repr, Inhabited

namespace ExecutorOptions

/-- Checks the values: a timeout and a number of attempts must not be zero. -/
def validate (o : ExecutorOptions) : Except Error Unit :=
  if o.timeout = some Duration.zero then
    .error (.invalidArgument "timeout must be greater than 0")
  else if o.retry.any (·.attempts == 0) then
    .error (.invalidArgument "retry attempts must be greater than 0")
  else .ok ()

/-- The retry policy in force: none for a task that may only run once. -/
def effectiveRetry (o : ExecutorOptions) : Option RetryPolicy :=
  if o.once then none else o.retry

end ExecutorOptions

end Scheduling
