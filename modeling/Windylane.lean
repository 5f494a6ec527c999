import Windylane.Lib.Prog
import Windylane.Lib.System
import Windylane.Lib.Rely
import Windylane.Lib.History
import Windylane.Lib.Traverse
import Windylane.Json
import Windylane.Domain
import Windylane.NodeConfig
import Windylane.Validation
import Windylane.Theorems.Validation
import Windylane.Lib.Table
import Windylane.Lib.Keyset
import Windylane.Lib.Ledger
import Windylane.Store.Tasks
import Windylane.Store.Broker
import Windylane.Store.Canvas
import Windylane.Store.Webhooks
import Windylane.Machine
import Windylane.Service.Tasks
import Windylane.Service.Metrics
import Windylane.Service.Engine
import Windylane.Service.Webhooks
import Windylane.Service.Executions
import Windylane.Service.Lists
import Windylane.Calls
import Windylane.Theorems.Footprints
import Windylane.Theorems.Deliveries
import Windylane.Run
import Windylane.Theorems.Runs
import Windylane.Theorems.Canvas
import Windylane.Theorems.Rows
import Windylane.Theorems.Executions
import Windylane.Theorems.Tasks
import Windylane.Theorems.Advance
import Windylane.Theorems.Requests
import Windylane.Theorems.Guarantees
import Windylane.Theorems.Semantics
import Windylane.Theorems.Leases
import Windylane.Theorems.Sends
import Windylane.Theorems.Idempotency
import Windylane.Theorems.Secrets
import Windylane.Theorems.Versions
import Windylane.Theorems.Provenance
import Windylane.Theorems.Broker
import Windylane.Theorems.Heartbeats
import Windylane.Theorems.Dispatching
import Windylane.Theorems.Edits
import Windylane.Lib.Steps
import Windylane.Pool
import Windylane.Theorems.Pool
import Windylane.Recorder
import Windylane.Theorems.Recorder
import Windylane.Theorems.Priorities
import Windylane.Theorems.Pages
import Windylane.Theorems.Metrics
import Windylane.Theorems.Identities
import Windylane.Theorems.TaskRows
import Windylane.Handler
import Windylane.Theorems.Handler
import Windylane.Theorems.Configs
import Windylane.Theorems.Coherence
import Windylane.Theorems.Records
import Windylane.Theorems.StartTimes
import Windylane.Theorems.Delays
import Windylane.Theorems.Links
import Windylane.Theorems.Claims
import Windylane.Theorems.Failures
import Windylane.Lib.Alone
import Windylane.Theorems.Alone
import Windylane.Theorems.Outcomes
import Windylane.Theorems.Adoption
import Windylane.Theorems.Progress
import Windylane.Theorems.Rounds
import Windylane.Theorems.Backoff
import Windylane.Theorems.Slugs
import Windylane.Theorems.Ingestion
import Windylane.Theorems.Limiter
import Windylane.Theorems.Responses
import Windylane.Theorems.NodeOrder
import Windylane.Theorems.Payloads
import Windylane.Dashboard.Editor
import Windylane.Theorems.Editor
import Windylane.Service.Rebuild
import Windylane.Theorems.Rebuild
import Windylane.Store.RedisKeys
import Windylane.Theorems.RedisKeys
import Windylane.Theorems.Returns
import Windylane.Theorems.Replays
import Windylane.Theorems.Quiescence
import Windylane.Lib.Accounts
import Windylane.Theorems.Reports
import Windylane.Theorems.Transitions
import Windylane.Theorems.Exactness
