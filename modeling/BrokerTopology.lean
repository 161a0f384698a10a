import BrokerTopology.Broker.ClientId
import BrokerTopology.Broker.Server
import BrokerTopology.CommandLine.Run
import BrokerTopology.Main
import BrokerTopology.Proofs.Dict.Layout
import BrokerTopology.Proofs.Dict.Named
import BrokerTopology.Proofs.Graph.WellFormed
import BrokerTopology.Proofs.Graph.Clients
import BrokerTopology.Proofs.Graph.Edges
import BrokerTopology.Proofs.Graph.Operations
import BrokerTopology.Proofs.Graph.Run
import BrokerTopology.Proofs.Graph.Publishers
import BrokerTopology.Proofs.Graph.Subscribers
import BrokerTopology.Proofs.Table
import BrokerTopology.Proofs.Graph.Members
import BrokerTopology.Proofs.Broker.Run
import BrokerTopology.Proofs.Broker.Agreement
import BrokerTopology.Proofs.Broker.Delivery
import BrokerTopology.Proofs.Dict.Sweep
import BrokerTopology.Proofs.Dict.FiniteMap
import BrokerTopology.Proofs.Broker.Retained
import BrokerTopology.Proofs.Graph.Skeleton
import BrokerTopology.Proofs.Graph.Documents
import BrokerTopology.Proofs.Graph.Ledger
import BrokerTopology.Proofs.Graph.Actions
import BrokerTopology.Proofs.Graph.Commute
import BrokerTopology.Proofs.Graph.Refusals
import BrokerTopology.Proofs.Graph.EdgeAt
import BrokerTopology.Proofs.Graph.Accounts
import BrokerTopology.Proofs.Graph.Expiry
import BrokerTopology.Proofs.Graph.Drift
import BrokerTopology.Proofs.Graph.Lifetime
import BrokerTopology.Proofs.Graph.Quiescence
import BrokerTopology.Proofs.Graph.Silence
import BrokerTopology.Proofs.Graph.Integrity
import BrokerTopology.Proofs.Graph.Content
import BrokerTopology.Proofs.Graph.Bisimulation
import BrokerTopology.Proofs.Dict.Balance
import BrokerTopology.Proofs.Graph.Census
import BrokerTopology.Proofs.Broker.Requests
import BrokerTopology.Proofs.Broker.Admission
import BrokerTopology.Proofs.Broker.Alike
import BrokerTopology.Proofs.Broker.NonInterference
import BrokerTopology.Proofs.Filter.Covering
import BrokerTopology.Proofs.Graph.Republication
import BrokerTopology.Proofs.Json.Grammar
import BrokerTopology.Proofs.Json.Scalars
import BrokerTopology.Proofs.Json.Numbers
import BrokerTopology.Proofs.Json.Numerals
import BrokerTopology.Proofs.Json.Containers
import BrokerTopology.Proofs.Json.Reading
import BrokerTopology.Proofs.Json.Records
import BrokerTopology.Proofs.Json.Tagged
import BrokerTopology.Proofs.Graph.RoundTrip
import BrokerTopology.Proofs.Broker.Frames
import BrokerTopology.Proofs.Filter.SystemTopics
import BrokerTopology.Proofs.Broker.Rejection
import BrokerTopology.Proofs.Graph.Departure
import BrokerTopology.Proofs.Graph.Undo
import BrokerTopology.Proofs.Filter.ExactNames
import BrokerTopology.Proofs.Graph.Publication
import BrokerTopology.Proofs.Graph.Sampling
import BrokerTopology.Proofs.Broker.MemberOrder
import BrokerTopology.Proofs.Filter.Widening
import BrokerTopology.Proofs.Filter.Placement
import BrokerTopology.Proofs.Filter.Isolation
import BrokerTopology.Proofs.Graph.Pacing
import BrokerTopology.Proofs.Graph.Probes
import BrokerTopology.Proofs.Dict.Visits
import BrokerTopology.Proofs.Dict.Order
import BrokerTopology.Proofs.Dict.Resizing
import BrokerTopology.Proofs.Dict.HashPolynomial
import BrokerTopology.Proofs.Settings.Trees
import BrokerTopology.Proofs.Settings.Documents
import BrokerTopology.Proofs.Settings.Sections
import BrokerTopology.Proofs.Settings.Variables
import BrokerTopology.Proofs.Settings.Layers
