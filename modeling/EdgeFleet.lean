import EdgeFleet.Simulation.Run
import EdgeFleet.ValueError
import EdgeFleet.Directory.Rpc
import EdgeFleet.Main
import EdgeFleet.Proofs.Service.Freshness
import EdgeFleet.Proofs.Service.Ledger
import EdgeFleet.Proofs.WriteBack.Conservation
import EdgeFleet.Proofs.WriteBack.Shutdown
import EdgeFleet.Proofs.Edge.Change
import EdgeFleet.Proofs.Service.Issue
import EdgeFleet.Proofs.Service.Provenance
import EdgeFleet.Proofs.Directory.Memory
import EdgeFleet.Proofs.Service.Arrival
import EdgeFleet.Proofs.Json.Scan
import EdgeFleet.Proofs.Json.RoundTrip
import EdgeFleet.Proofs.Edge.Document
import EdgeFleet.Proofs.Edge.Content
import EdgeFleet.Proofs.Service.Alone
import EdgeFleet.Proofs.Simulation.Calm
import EdgeFleet.Proofs.Simulation.Flush
import EdgeFleet.Proofs.Simulation.Upkeep
import EdgeFleet.Proofs.Service.Advance
import EdgeFleet.Proofs.Service.Permits
import EdgeFleet.Proofs.Service.Account
import EdgeFleet.Proofs.Service.Admission
import EdgeFleet.Proofs.Service.Failure
import EdgeFleet.Proofs.Service.Granted
import EdgeFleet.Proofs.Session.Stream
import EdgeFleet.Proofs.Json.Narrow
import EdgeFleet.Proofs.Session.Grants
import EdgeFleet.Proofs.Ordered
import EdgeFleet.Proofs.Text.Numeral
import EdgeFleet.Proofs.Edge.Decoding
import EdgeFleet.Proofs.Cache.Recency
import EdgeFleet.Proofs.Edge.Log
import EdgeFleet.Proofs.WriteBack.Grid
import EdgeFleet.Proofs.Edge.Activation
import EdgeFleet.Proofs.Service.History
import EdgeFleet.Proofs.Simulation.Activation
import EdgeFleet.Proofs.Decimal.Rounding
import EdgeFleet.Proofs.Decimal.Shortest
import EdgeFleet.Proofs.Json.Real
import EdgeFleet.Proofs.Json.Documentary
import EdgeFleet.Proofs.Simulation.Readable
import EdgeFleet.Proofs.RecordId
import EdgeFleet.Proofs.User
import EdgeFleet.Proofs.Directory.Calls
import EdgeFleet.Proofs.Directory.Response
import EdgeFleet.Proofs.Service.ReadThrough
