import AdaptiveMtu.Binary64.Parts
import AdaptiveMtu.Binary64.Whole
import AdaptiveMtu.BoundedLog
import AdaptiveMtu.Bounds
import AdaptiveMtu.CommandLine.Load
import AdaptiveMtu.CommandLine.Options
import AdaptiveMtu.Config.Basic
import AdaptiveMtu.Config.Codec
import AdaptiveMtu.Decimal.Numeral
import AdaptiveMtu.Decimal.Shortest
import AdaptiveMtu.Engine.Basic
import AdaptiveMtu.Engine.Discretization
import AdaptiveMtu.Engine.Exposition
import AdaptiveMtu.Engine.Metrics
import AdaptiveMtu.Engine.Record
import AdaptiveMtu.Engine.Session
import AdaptiveMtu.Error
import AdaptiveMtu.Features.Field
import AdaptiveMtu.Features.Network
import AdaptiveMtu.Features.Vector
import AdaptiveMtu.Heuristic.Conditions
import AdaptiveMtu.Heuristic.Decision
import AdaptiveMtu.Heuristic.Rules
import AdaptiveMtu.Json.Access
import AdaptiveMtu.Json.Reader
import AdaptiveMtu.Json.Token
import AdaptiveMtu.Json.Value
import AdaptiveMtu.Json.Writer
import AdaptiveMtu.Linear.Artifact
import AdaptiveMtu.Linear.Learner
import AdaptiveMtu.Linear.Weights
import AdaptiveMtu.Main
import AdaptiveMtu.Model.Build
import AdaptiveMtu.Model.Kind
import AdaptiveMtu.Model.KindCodec
import AdaptiveMtu.Model.Scripted
import AdaptiveMtu.Model.Tree
import AdaptiveMtu.Proofs.BoundedLog
import AdaptiveMtu.Proofs.Session.Run
import AdaptiveMtu.Proofs.Session.Step
import AdaptiveMtu.Service.Basic
import AdaptiveMtu.Service.Schedule
import AdaptiveMtu.Service.Session
import AdaptiveMtu.Storage.Directory
import AdaptiveMtu.Proofs.Bounds
import AdaptiveMtu.Proofs.Session.Answers
import AdaptiveMtu.Proofs.Session.History
import AdaptiveMtu.Proofs.Binary64.Unpacking
import AdaptiveMtu.Proofs.Linear.Memory
import AdaptiveMtu.Proofs.Linear.Recovery
import AdaptiveMtu.Proofs.Binary64.Nearest
import AdaptiveMtu.Proofs.Binary64.Rounding
import AdaptiveMtu.Proofs.Binary64.Value
import AdaptiveMtu.Proofs.Binary64.Arithmetic
import AdaptiveMtu.Proofs.Binary64.Accuracy
import AdaptiveMtu.Proofs.Linear.Descent
import AdaptiveMtu.Proofs.Linear.Replay
import AdaptiveMtu.Proofs.Linear.Direction
import AdaptiveMtu.Proofs.Linear.Archive
import AdaptiveMtu.Proofs.Binary64.Order
import AdaptiveMtu.Proofs.Model.Leaves
import AdaptiveMtu.Proofs.Model.Composition
import AdaptiveMtu.Proofs.Model.Average
import AdaptiveMtu.Proofs.Model.Range
import AdaptiveMtu.Proofs.Session.Noninterference
import AdaptiveMtu.Proofs.Features.Neutral
import AdaptiveMtu.Proofs.Linear.Likeness
import AdaptiveMtu.Proofs.Model.Neutrality
import AdaptiveMtu.Proofs.Decimal.Digits
import AdaptiveMtu.Proofs.Json.Scanning
import AdaptiveMtu.Proofs.Json.RoundTrip
import AdaptiveMtu.Proofs.Binary64.Quotient
import AdaptiveMtu.Proofs.Decimal.Shortest
import AdaptiveMtu.Proofs.Decimal.RoundTrip
import AdaptiveMtu.Proofs.Binary64.InRange
import AdaptiveMtu.Proofs.Json.Access
import AdaptiveMtu.Proofs.Binary64.Hours
import AdaptiveMtu.Proofs.Features.Codec
import AdaptiveMtu.Proofs.Features.Building
import AdaptiveMtu.Proofs.Engine.RecordCodec
import AdaptiveMtu.Proofs.Storage.Directory
import AdaptiveMtu.Proofs.Session.Export
import AdaptiveMtu.Proofs.Session.Accounting
import AdaptiveMtu.Proofs.Service.ControlLoop
import AdaptiveMtu.Proofs.Service.Loops
import AdaptiveMtu.Proofs.Service.Lifecycle
import AdaptiveMtu.Proofs.Service.StartStop
import AdaptiveMtu.Proofs.Json.Members
import AdaptiveMtu.Proofs.Model.KindCodec
import AdaptiveMtu.Proofs.Config.Codec
import AdaptiveMtu.Proofs.Heuristic.Scaling
import AdaptiveMtu.Proofs.Heuristic.WholeNumbers
import AdaptiveMtu.Proofs.Binary64.Extended
import AdaptiveMtu.Proofs.Heuristic.BetterPath
import AdaptiveMtu.Proofs.Heuristic.CutBoost
import AdaptiveMtu.Proofs.Engine.CommonSizes
import AdaptiveMtu.Proofs.Model.ExactMean
import AdaptiveMtu.Proofs.Features.Entries
import AdaptiveMtu.Proofs.Features.EntryOrder
import AdaptiveMtu.Proofs.Features.TimeOfDay
import AdaptiveMtu.Proofs.Model.RawPrediction
import AdaptiveMtu.Proofs.Binary64.Overflow
import AdaptiveMtu.Proofs.Features.Normalization
import AdaptiveMtu.Proofs.Linear.Untouched
import AdaptiveMtu.Proofs.Linear.Starting
import AdaptiveMtu.Proofs.Linear.Finiteness
import AdaptiveMtu.Proofs.Linear.Divergence
import AdaptiveMtu.Proofs.Model.Degradation
import AdaptiveMtu.Proofs.Json.Grammar
import AdaptiveMtu.Proofs.Json.Scanned
import AdaptiveMtu.Proofs.Json.Reading
import AdaptiveMtu.Proofs.Json.Fields
import AdaptiveMtu.Proofs.Linear.Acceptance
import AdaptiveMtu.Proofs.Engine.Creation
import AdaptiveMtu.Proofs.Config.Validation
import AdaptiveMtu.Proofs.Model.CheckedArithmetic
