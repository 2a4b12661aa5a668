import Metering.Accumulator
import Metering.Binary64
import Metering.Buffer
import Metering.Buffer.Script
import Metering.Counter
import Metering.Description
import Metering.Error
import Metering.Exemplar
import Metering.Family
import Metering.Gauge
import Metering.Hash.Fnv1a
import Metering.Histogram
import Metering.Histogram.Settings
import Metering.Journal
import Metering.Json
import Metering.Json.Reader
import Metering.Json.Token
import Metering.Label
import Metering.LabelSet
import Metering.Layout
import Metering.Log
import Metering.Main
import Metering.Native.Bucket
import Metering.Native.Buckets
import Metering.Native.Schema
import Metering.Native.State
import Metering.Proofs.Accounting
import Metering.Proofs.Answers
import Metering.Proofs.Binary64.Growth
import Metering.Proofs.Binary64.Monotone
import Metering.Proofs.Binary64.Pack
import Metering.Proofs.Binary64.Product
import Metering.Proofs.Binary64.Quotient
import Metering.Proofs.Binary64.Rank
import Metering.Proofs.Binary64.Rounding
import Metering.Proofs.Binary64.Scale
import Metering.Proofs.Binary64.Sum
import Metering.Proofs.Binary64.Whole
import Metering.Proofs.Buffer.Actions
import Metering.Proofs.Buffer.Count
import Metering.Proofs.Buffer.Mirror
import Metering.Proofs.Buffer.Quiet
import Metering.Proofs.Buffer.Reentrant
import Metering.Proofs.Buffer.Waits
import Metering.Proofs.Collection
import Metering.Proofs.Counter.Accounts
import Metering.Proofs.Counter.Calls
import Metering.Proofs.Counter.Growth
import Metering.Proofs.Description
import Metering.Proofs.Description.Acceptance
import Metering.Proofs.Family.Calls
import Metering.Proofs.Family.Collected
import Metering.Proofs.Family.Directory
import Metering.Proofs.Family.Handles
import Metering.Proofs.Family.Journal
import Metering.Proofs.Family.Listing
import Metering.Proofs.Family.Live
import Metering.Proofs.Family.Map
import Metering.Proofs.Histogram.Acceptance
import Metering.Proofs.Histogram.Accepted
import Metering.Proofs.Histogram.Budget
import Metering.Proofs.Histogram.Calls
import Metering.Proofs.Histogram.Classic
import Metering.Proofs.Histogram.Consistency
import Metering.Proofs.Histogram.Core
import Metering.Proofs.Histogram.Course
import Metering.Proofs.Histogram.Due
import Metering.Proofs.Histogram.Frame
import Metering.Proofs.Histogram.Hybrid
import Metering.Proofs.Histogram.Journal
import Metering.Proofs.Histogram.Lasting
import Metering.Proofs.Histogram.Mirror
import Metering.Proofs.Histogram.Offers
import Metering.Proofs.Histogram.OneWay
import Metering.Proofs.Histogram.Reclassification
import Metering.Proofs.Histogram.Renewal
import Metering.Proofs.Histogram.Resets
import Metering.Proofs.Histogram.Resolution
import Metering.Proofs.Histogram.Settled
import Metering.Proofs.Histogram.Upkeep
import Metering.Proofs.Label
import Metering.Proofs.LabelSet
import Metering.Proofs.LabelSet.Text
import Metering.Proofs.Native.Bound
import Metering.Proofs.Native.Boundary
import Metering.Proofs.Native.Buckets
import Metering.Proofs.Native.Classification
import Metering.Proofs.Native.Exact
import Metering.Proofs.Native.Halving
import Metering.Proofs.Native.Index
import Metering.Proofs.Native.Mirror
import Metering.Proofs.Native.Schema
import Metering.Proofs.Native.Sound
import Metering.Proofs.Native.Table
import Metering.Proofs.Native.Threshold
import Metering.Proofs.Native.Words
import Metering.Proofs.Quiescence.ExactlyOnce
import Metering.Proofs.Quiescence.Ledger
import Metering.Proofs.Quiescence.Protocol
import Metering.Proofs.Records
import Metering.Proofs.Sampler
import Metering.Proofs.Scenario.Journal
import Metering.Proofs.Search
import Metering.Proofs.Stress.Lossless
import Metering.Proofs.Stress.Order
import Metering.Proofs.Stress.Series
import Metering.Proofs.Summary.Calls
import Metering.Proofs.Summary.Queries
import Metering.Proofs.Text.Quoted
import Metering.Ranked
import Metering.Recorder
import Metering.Scenario
import Metering.Scenario.Step
import Metering.Search
import Metering.Settings
import Metering.Snapshot
import Metering.Stress.Arguments
import Metering.Stress.Run
import Metering.Summary
import Metering.Text.Decimal
import Metering.Text.Quoted
import Metering.Text.Terminal
import Metering.Text.Unprintable
import Metering.Proofs.Layout
import Metering.Proofs.Binary64.Negation
import Metering.Proofs.Binary64.Split
