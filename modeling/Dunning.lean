import Dunning.Flow.Check
import Dunning.Walk.Traverse
import Dunning.Store.Memory
import Dunning.Store.Table
import Dunning.Store.Archive
import Dunning.Engine.Execute
import Dunning.Engine.Resume
import Dunning.Command.Arguments
import Dunning.Command.Records
import Dunning.Main
import Dunning.Proofs.Walk.Outbox
import Dunning.Proofs.Walk.Waits
import Dunning.Proofs.Walk.Drain
import Dunning.Proofs.Walk.Tour
import Dunning.Proofs.Walk.Limit
import Dunning.Proofs.Walk.Exploration
import Dunning.Proofs.Walk.Chart
import Dunning.Proofs.Walk.Census
import Dunning.Proofs.Walk.Trail
import Dunning.Proofs.Walk.Refill
import Dunning.Proofs.Walk.Renaming
import Dunning.Proofs.Walk.Cutoff
import Dunning.Proofs.Walk.Rehearsal
import Dunning.Proofs.Walk.Reload
import Dunning.Proofs.Time.Order
import Dunning.Proofs.Store.Lawful
import Dunning.Proofs.Store.Refinement
import Dunning.Proofs.Store.Stock
import Dunning.Proofs.Engine.World
import Dunning.Proofs.Engine.Enrollment
import Dunning.Proofs.Engine.Overlap
import Dunning.Proofs.Engine.Prediction
import Dunning.Proofs.Engine.OrderLaw
import Dunning.Proofs.Engine.Coherent
import Dunning.Proofs.Engine.WellFormed
import Dunning.Proofs.Engine.Mirror
import Dunning.Proofs.Engine.Charting
import Dunning.Proofs.Engine.Confluence
import Dunning.Proofs.Engine.Wakeups
import Dunning.Proofs.Engine.Triggers
import Dunning.Proofs.Engine.Renaming
import Dunning.Proofs.Engine.FanOut
import Dunning.Proofs.Engine.InTurn
import Dunning.Proofs.Engine.Isolation
import Dunning.Proofs.Store.Guard
import Dunning.Proofs.Store.Tenancy
import Dunning.Proofs.Engine.Lifetime
import Dunning.Proofs.Engine.Tenancy
import Dunning.Proofs.Engine.Accounting
import Dunning.Proofs.Engine.Forks
import Dunning.Proofs.Engine.Clean
import Dunning.Proofs.Run.ReadBack
import Dunning.Proofs.Condition.Comparison
import Dunning.Proofs.Condition.Containment
import Dunning.Proofs.Text.Latin
import Dunning.Proofs.Trigger.Filters
import Dunning.Proofs.Number.Rounding
import Dunning.Proofs.Number.Decimal
import Dunning.Proofs.Number.Notation
import Dunning.Proofs.Number.PlainText
import Dunning.Proofs.Condition.DayCount
import Dunning.Proofs.Number.Nearest
import Dunning.Proofs.Number.QuickReading
import Dunning.Proofs.Json.Floats
import Dunning.Proofs.Run.Rereading
import Dunning.Proofs.Store.Chronology
