import Scheduling.Queue
/-!
# Queues with waiting pops

A queue together with the pops that were asked for and have not ended. They get their turn, oldest
first, after each operation.
-/

namespace Scheduling

/-- A queue and the pops that wait, oldest first. -/
structure WaitingQueue (α : Type) where
  queue : Queue α
  waiting : List PopPoint

namespace WaitingQueue

variable {α : Type}

def create (blocking : Bool) : WaitingQueue α := ⟨Queue.create blocking, []⟩

def ask (w : WaitingQueue α) : WaitingQueue α := { w with waiting := w.waiting ++ [.fresh] }

variable [Prioritized α]

/-- Gives some pops their turn; those that end give an entry or an error. -/
def serve (order : α → α → Ordering) (q : Queue α) :
    List PopPoint → List (Except Error α) × WaitingQueue α
  | [] => ([], ⟨q, []⟩)
  | point :: rest =>
    match q.pop order point with
    | none =>
      let (results, w) := serve order q rest
      (results, { w with waiting := point :: w.waiting })
    | some (.ended result, q) =>
      let (results, w) := serve order q rest
      (result :: results, w)
    | some (.waits point, q) =>
      let (results, w) := serve order q rest
      (results, { w with waiting := point :: w.waiting })

/-- Gives all waiting pops their turn. -/
def settle (w : WaitingQueue α) (order : α → α → Ordering) :
    List (Except Error α) × WaitingQueue α :=
  serve order w.queue w.waiting

end WaitingQueue

/-- An entry that is nothing but a key and a priority. -/
structure Ticket where
  key : String
  priority : Int
deriving DecidableEq, Repr, Inhabited

instance : Prioritized Ticket where
  key := Ticket.key
  priority := Ticket.priority
  withPriority t priority := { t with priority := priority }

end Scheduling
