import Cicache.Lib.Program
import Cicache.Lib.Machine
import Cicache.Lib.Unwinding
import Cicache.Lib.Text
import Cicache.Lib.Path
import Cicache.Pack
import Cicache.Truncation
import Cicache.Http
import Cicache.Url
import Cicache.Crates
import Cicache.Policy
import Cicache.Entry
import Cicache.World
import Cicache.Gha
import Cicache.Store
import Cicache.Proxy
import Cicache.System
import Cicache.Footprint
import Cicache.Growth
import Cicache.Startup
import Cicache.Replay
import Cicache.Confinement
import Cicache.Bypass
import Cicache.Listening
import Cicache.Credentials
import Cicache.Index
import Cicache.CacheControl
import Cicache.Scopes
import Cicache.Integrity
import Cicache.Lib.History
import Cicache.Outcomes
import Cicache.Lifecycle
import Cicache.Teardown
import Cicache.Lib.Stages
import Cicache.Delivery
import Cicache.Uploads
import Cicache.Tally
import Cicache.Lib.Beside
import Cicache.Honest
import Cicache.Domains
import Cicache.Metadata
import Cicache.Fetching
import Cicache.Relay
import Cicache.Fetched
import Cicache.Curlrc
import Cicache.Trust
import Cicache.Putting
import Cicache.Counted
import Cicache.Lookups
import Cicache.Marking
import Cicache.Shipped
import Cicache.Fleet
import Cicache.Rivals
import Cicache.Ledger
import Cicache.Origins
import Cicache.Lib.Allowance
import Cicache.Limits
import Cicache.Chain
import Cicache.Durable
import Cicache.Succession
import Cicache.Lib.Ending
import Cicache.Quiescence
import Cicache.Lib.Arrivals
import Cicache.Lib.Dues
import Cicache.Statistics
import Cicache.Counters
import Cicache.Log
import Cicache.Summaries
import Cicache.Minting
import Cicache.Present
import Cicache.Lib.CommandLine
import Cicache.Arguments
