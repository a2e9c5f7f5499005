import Scheduling.Json.Tree
import Scheduling.Queue.Waiting
import Scheduling.Scenario
import Scheduling.Settings.Environment
import Scheduling.Task.Document
import Scheduling.Proofs.Attempts
import Scheduling.Proofs.Lists
import Scheduling.Proofs.Contexts
import Scheduling.Proofs.Work
import Scheduling.Proofs.Calls
import Scheduling.Proofs.Operations
import Scheduling.Proofs.Reachable
import Scheduling.Proofs.Changes
import Scheduling.Proofs.Frames
import Scheduling.Proofs.Sessions
import Scheduling.Proofs.Workers
import Scheduling.Proofs.Load
import Scheduling.Proofs.Exclusivity
import Scheduling.Proofs.Permits
import Scheduling.Proofs.Conservation
import Scheduling.Proofs.Executing
import Scheduling.Proofs.Executors
import Scheduling.Proofs.Tasks
import Scheduling.Proofs.Turns
import Scheduling.Proofs.Cooldown
import Scheduling.Proofs.Scenarios
import Scheduling.Proofs.Queues
import Scheduling.Proofs.Loops
import Scheduling.Proofs.CronTables
import Scheduling.Proofs.Stores
import Scheduling.Proofs.Lifecycle
import Scheduling.Proofs.Settling
import Scheduling.Proofs.WorkConservation
import Scheduling.Proofs.Histories
import Scheduling.Proofs.DispatchSequence
import Scheduling.Proofs.Halts
import Scheduling.Proofs.Shutdown
import Scheduling.Proofs.Leftovers
import Scheduling.Proofs.KeyExclusion
import Scheduling.Proofs.Removal
import Scheduling.Proofs.Provenance
import Scheduling.Proofs.OnlyOnce
import Scheduling.Proofs.Cancellation
import Scheduling.Proofs.Timers
import Scheduling.Proofs.Additions
import Scheduling.Proofs.CronRegistry
import Scheduling.Proofs.Controls
import Scheduling.Proofs.Seclusion
import Scheduling.Proofs.SessionContexts
import Scheduling.Proofs.Running
import Scheduling.Proofs.Waiting
import Scheduling.Proofs.Panics
import Scheduling.Proofs.ByteOrder
import Scheduling.Proofs.QueueContents
import Scheduling.Proofs.BlockingPops
import Scheduling.Proofs.Causes
import Scheduling.Proofs.TaskStates
import Scheduling.Proofs.Calendar
import Scheduling.Proofs.Schedules
import Scheduling.Proofs.FiveWords
import Scheduling.Proofs.Zones
import Scheduling.Proofs.Search
import Scheduling.Proofs.Openings
import Scheduling.Proofs.NextTimes
import Scheduling.Proofs.TableChanges
import Scheduling.Proofs.Watches
import Scheduling.Proofs.Firings
import Scheduling.Proofs.Retries
import Scheduling.Proofs.Exhaustion
import Scheduling.Proofs.ExecutorMoves
import Scheduling.Proofs.ExecutorUses
import Scheduling.Proofs.HaltFlags
import Scheduling.Proofs.Refusals
import Scheduling.Proofs.AttemptRecords
import Scheduling.Proofs.Resting
import Scheduling.Proofs.Digits
import Scheduling.Proofs.RenderedSchedules
import Scheduling.Proofs.PrintedValues
import Scheduling.Proofs.StoredSettings
import Scheduling.Proofs.Deadlines
import Scheduling.Proofs.ContextWork
import Scheduling.Proofs.Expiry
import Scheduling.Proofs.QueueAccess
import Scheduling.Proofs.LiveOrder
import Scheduling.Proofs.TimerRounds
