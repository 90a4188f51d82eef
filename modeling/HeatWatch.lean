import HeatWatch.Engine.Command
import HeatWatch.Main
import HeatWatch.Proofs.Table.Fetched
import HeatWatch.Proofs.Table.Kept
import HeatWatch.Proofs.Queue.Effect
import HeatWatch.Proofs.Queue.Lanes
import HeatWatch.Proofs.Queue.Kinds
import HeatWatch.Proofs.Queue.Demands
import HeatWatch.Proofs.Engine.Frame
import HeatWatch.Proofs.Engine.Moves
import HeatWatch.Proofs.Engine.Roster
import HeatWatch.Proofs.Engine.Staff
import HeatWatch.Proofs.Engine.Supply
import HeatWatch.Proofs.Engine.Phases
import HeatWatch.Proofs.Engine.Others
import HeatWatch.Proofs.Engine.Ledger
import HeatWatch.Proofs.Engine.Turns
import HeatWatch.Proofs.Engine.Outage
import HeatWatch.Proofs.Engine.Line
import HeatWatch.Proofs.Engine.Kinds
import HeatWatch.Proofs.Engine.Latest
import HeatWatch.Proofs.Engine.Chronicle
import HeatWatch.Proofs.Engine.Hearing
import HeatWatch.Proofs.Engine.Custody
import HeatWatch.Proofs.Engine.Wakes
import HeatWatch.Proofs.Engine.Wire
import HeatWatch.Proofs.Engine.Callers
import HeatWatch.Proofs.Engine.RoundTrips
import HeatWatch.Proofs.Engine.Stranded
import HeatWatch.Proofs.Engine.Visits
import HeatWatch.Proofs.Engine.Latecomers
import HeatWatch.Proofs.Engine.CallOrder
import HeatWatch.Proofs.Engine.Overtaking
import HeatWatch.Proofs.Engine.Shifts
import HeatWatch.Proofs.Engine.Signals
import HeatWatch.Proofs.Table.Results
import HeatWatch.Proofs.Table.Listeners
import HeatWatch.Proofs.Engine.Registration
import HeatWatch.Proofs.Engine.Prompt
import HeatWatch.Proofs.Engine.Trailing
import HeatWatch.Proofs.Engine.Quiescence
import HeatWatch.Proofs.Engine.Pacing
import HeatWatch.Proofs.Engine.Cadence
import HeatWatch.Proofs.Engine.Effort
import HeatWatch.Proofs.Engine.Progress
import HeatWatch.Proofs.Engine.Heartbeats
import HeatWatch.Proofs.Table.Capabilities
import HeatWatch.Proofs.Json.Records
import HeatWatch.Proofs.Engine.Callbacks
import HeatWatch.Proofs.Json.Prefixes
import HeatWatch.Proofs.Json.Printing
import HeatWatch.Proofs.Text.Order
import HeatWatch.Proofs.Json.Encoding
import HeatWatch.Proofs.Request.Bodies
import HeatWatch.Proofs.Table.Refusals
import HeatWatch.Proofs.Engine.Failures
import HeatWatch.Proofs.Engine.Sources
import HeatWatch.Proofs.Engine.FetchedOnce
import HeatWatch.Proofs.Request.Reads
import HeatWatch.Proofs.Json.Grammar
import HeatWatch.Proofs.Json.Derivations
import HeatWatch.Proofs.Json.Members
import HeatWatch.Proofs.Json.Edits
import HeatWatch.Proofs.Table.Queries
import HeatWatch.Proofs.Table.Coverage
import HeatWatch.Proofs.Table.Operations
import HeatWatch.Proofs.Table.History
import HeatWatch.Proofs.Table.Listings
import HeatWatch.Proofs.Engine.ReadsOnDemand
import HeatWatch.Proofs.Exchange.Dealings
import HeatWatch.Proofs.Engine.Exchanges
import HeatWatch.Proofs.Exchange.Tokens
import HeatWatch.Proofs.Queue.Warnings
import HeatWatch.Proofs.Json.Places
import HeatWatch.Proofs.Text.Trim
import HeatWatch.Proofs.Settings.Values
import HeatWatch.Proofs.Settings.Assignments
import HeatWatch.Proofs.Settings.Loading
import HeatWatch.Proofs.Settings.Arguments
import HeatWatch.Proofs.Decimal.Numerals
import HeatWatch.Proofs.Settings.Configuration
import HeatWatch.Proofs.Settings.Blanks
import HeatWatch.Proofs.Settings.Settable
import HeatWatch.Proofs.Installation.Numbers
import HeatWatch.Proofs.Installation.Temperatures
