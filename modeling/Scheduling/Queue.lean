import Scheduling.Error
import Scheduling.Registry
/-!
# Priority queues

A queue holds one entry per key and gives out the least one in an order that is looked at only
then, so the order may depend on facts that change while an entry waits. On a blocking queue a pop
waits while the queue is empty, and each push or reset wakes all pops that wait.
-/

namespace Scheduling

/-- Entries of a queue: identified by a key, with a priority of which lower values go first. -/
class Prioritized (α : Type) where
  key : α → String
  priority : α → Int
  withPriority : α → Int → α

export Prioritized (key priority withPriority)

def byPriority {α : Type} [Prioritized α] (a b : α) : Ordering :=
  (compare (priority a) (priority b)).then (compare (key a) (key b))

structure Queue (α : Type) where
  entries : Registry String α
  /-- Whether a pop of the empty queue waits. -/
  blocking : Bool
  /-- How many times all waiting pops were woken. -/
  wakeups : Nat

namespace Queue

variable {α : Type}

def create (blocking : Bool) : Queue α := ⟨Registry.empty, blocking, 0⟩

instance : Inhabited (Queue α) := ⟨create false⟩

def size (q : Queue α) : Nat := q.entries.size

def isEmpty (q : Queue α) : Bool := q.entries.isEmpty

/-- Whether an entry with a key is queued. -/
def contains (q : Queue α) (k : String) : Bool := q.entries.contains k

def emptyError : Error := .notFound "queue is empty"

/-- The first of the least elements of a list. -/
def least? (order : α → α → Ordering) : List α → Option α
  | [] => none
  | a :: rest =>
    match least? order rest with
    | none => some a
    | some b => if order b a == .lt then some b else some a

/-- Drops all entries and wakes the waiting pops. -/
def reset (q : Queue α) : Queue α :=
  { q with entries := Registry.empty, wakeups := q.wakeups + 1 }

/-- Takes the entry with a key out. -/
def removeKey (q : Queue α) (k : String) : Bool × Queue α :=
  (q.contains k, { q with entries := q.entries.erase k })

def items (q : Queue α) (order : α → α → Ordering) : List α :=
  q.entries.values.mergeSort fun a b => order a b != .gt

variable [Prioritized α]

/-- Queues entries, each in place of the one with its key, and wakes the waiting pops. -/
def push (q : Queue α) (items : List α) : Queue α :=
  { q with
    entries := items.foldl (fun es a => es.insert (key a) a) q.entries
    wakeups := if items.isEmpty then q.wakeups else q.wakeups + 1 }

/-- Takes the least entry out. -/
def takeFirst (q : Queue α) (order : α → α → Ordering) : Option (α × Queue α) :=
  (least? order q.entries.values).map fun a => (a, { q with entries := q.entries.erase (key a) })

/-- Takes the least entry out, or fails if there is none. -/
def tryPop (q : Queue α) (order : α → α → Ordering) : Except Error α × Queue α :=
  match q.takeFirst order with
  | some (a, q) => (.ok a, q)
  | none => (.error emptyError, q)

/-- Gives the entry with the same key the priority of `item`. -/
def update (q : Queue α) (item : α) : Except Error Unit × Queue α :=
  if q.contains (key item) then
    (.ok (),
      { q with entries := q.entries.modify (key item) fun a => withPriority a (priority item) })
  else (.error (.notFound ("queue key `" ++ key item ++ "`")), q)

def describe (q : Queue α) : String :=
  "PriorityQueue \x7b len: " ++ toString q.size ++ ", blocking: " ++ toString q.blocking ++ " \x7d"

end Queue

/-- Where a pop stands: not yet looked at the queue, or waiting since some number of wake-ups. -/
inductive PopPoint
  | fresh
  | waiting (wakeups : Nat)
deriving DecidableEq, Repr, Inhabited

namespace Queue

variable {α : Type} [Prioritized α]

/-- What a pop does when it is looked at: end with an entry or an error, or wait on. -/
inductive PopResult (α : Type)
  | ended (result : Except Error α)
  | waits (point : PopPoint)

/-- Whether a pop can go on: it is new, or there was a wake-up since it began to wait. -/
def canPop (q : Queue α) : PopPoint → Bool
  | .fresh => true
  | .waiting wakeups => q.wakeups != wakeups

/-- Lets a pop go on; `none` if it is not its turn. -/
def pop (q : Queue α) (order : α → α → Ordering) (point : PopPoint) :
    Option (PopResult α × Queue α) :=
  if q.canPop point then
    match q.takeFirst order with
    | some (a, q) => some (.ended (.ok a), q)
    | none =>
      if q.blocking then some (.waits (.waiting q.wakeups), q)
      else some (.ended (.error emptyError), q)
  else none

end Queue

end Scheduling
