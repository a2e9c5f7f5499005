import Scheduling.Error
import Scheduling.Time.Clock
/-!
# Cancellation contexts

Contexts form a tree. A context is done when it or one of its ancestors was hit by a cancellation
or an expired deadline; its error is the cause of the hit nearest to it. A context made with a
timeout carries a timer that ends when the context is done.
-/

namespace Scheduling

/-- The number of a context; a child has a larger number than its parent. -/
abbrev ContextId := Nat

structure Context where
  /-- The context itself, then its ancestors up to the root. -/
  lineage : List ContextId
  /-- The earliest deadline of the context and its ancestors. -/
  deadline : Option Instant
  /-- Whether the context itself was hit. -/
  hit : Bool := false
  /-- Why the context itself was hit. -/
  cause : Option Error := none
deriving Repr, Inhabited

/-- All contexts, and which of them still wait for their own deadline. -/
structure ContextTree where
  nodes : Array Context
  timers : List ContextId
deriving Repr, Inhabited

namespace ContextTree

def empty : ContextTree := ⟨#[], []⟩

def get? (t : ContextTree) (c : ContextId) : Option Context := t.nodes[c]?

/-- A context with its ancestors, nearest first. -/
def lineage (t : ContextTree) (c : ContextId) : List ContextId :=
  ((t.get? c).map Context.lineage).getD []

def deadline (t : ContextTree) (c : ContextId) : Option Instant :=
  (t.get? c).bind Context.deadline

/-- Whether the context itself was hit. -/
def isHit (t : ContextTree) (c : ContextId) : Bool :=
  (t.get? c).any Context.hit

/-- Why the context itself was hit. -/
def cause (t : ContextTree) (c : ContextId) : Option Error :=
  (t.get? c).bind Context.cause

/-- Whether a context is done: it or an ancestor was hit. -/
def isDone (t : ContextTree) (c : ContextId) : Bool :=
  (t.lineage c).any t.isHit

/-- Why a context is done: the nearest recorded cause; a hit without a cause is a cancellation. -/
def error? (t : ContextTree) (c : ContextId) : Option Error :=
  if t.isDone c then some (((t.lineage c).findSome? t.cause).getD .canceled) else none

/-- Adds a context without a parent and gives its number. -/
def background (t : ContextTree) : ContextId × ContextTree :=
  (t.nodes.size, { t with nodes := t.nodes.push ⟨[t.nodes.size], none, false, none⟩ })

/-- Adds a context below another. -/
def child (t : ContextTree) (parent : ContextId) : ContextId × ContextTree :=
  (t.nodes.size,
    { t with
      nodes := t.nodes.push ⟨t.nodes.size :: t.lineage parent, t.deadline parent, false, none⟩ })

/-- Adds a context below another that expires at an instant, or when its parent does. -/
def childUntil (t : ContextTree) (parent : ContextId) (expiry : Instant) :
    ContextId × ContextTree :=
  let deadline := ((t.deadline parent).map (min · expiry)).getD expiry
  (t.nodes.size,
    { nodes := t.nodes.push ⟨t.nodes.size :: t.lineage parent, some deadline, false, none⟩
      timers := if t.isDone parent then t.timers else t.timers ++ [t.nodes.size] })

/-- Drops the timers of contexts that are done. -/
def prune (t : ContextTree) : ContextTree :=
  { t with timers := t.timers.filter fun c => !t.isDone c }

/-- Hits a context; the cause is recorded unless the context is done already. -/
def hitWith (t : ContextTree) (c : ContextId) (cause : Error) : ContextTree :=
  let done := t.isDone c
  prune
    { t with
      nodes := t.nodes.modify c fun n =>
        { n with
          hit := true
          cause := if n.cause.isNone && !done then some cause else n.cause } }

def cancel (t : ContextTree) (c : ContextId) : ContextTree := t.hitWith c .canceled

/-- Hits a context without recording a cause. -/
def cancelSilently (t : ContextTree) (c : ContextId) : ContextTree :=
  prune { t with nodes := t.nodes.modify c fun n => { n with hit := true } }

/-- Ends the timer of a context whose deadline has passed. -/
def expire (t : ContextTree) (c : ContextId) : ContextTree := t.hitWith c .deadlineExceeded

/-- Whether the timer of a context goes off at an instant. -/
def isDue (t : ContextTree) (now : Instant) (c : ContextId) : Bool :=
  t.timers.contains c && (t.deadline c).any (· ≤ now)

end ContextTree

end Scheduling
