import Switchboard.Main
import Switchboard.Proofs.RateLimit.Sweeping
import Switchboard.Proofs.RateLimit.Contention
import Switchboard.Proofs.RateLimit.Isolation
import Switchboard.Proofs.RateLimit.ConcurrentSweeps
import Switchboard.Proofs.RateLimit.Remaining
import Switchboard.Proofs.RateLimit.Retry
import Switchboard.Proofs.RateLimit.Waits
import Switchboard.Proofs.RateLimit.Keys
import Switchboard.Proofs.Middleware.Recovery
import Switchboard.Proofs.Middleware.Gatekeeping
import Switchboard.Proofs.Middleware.Deadlines
import Switchboard.Proofs.Router.Family
import Switchboard.Proofs.Router.TrailingSlash
import Switchboard.Proofs.Service.Capacity
import Switchboard.Proofs.Service.Replies
import Switchboard.Proofs.Service.Statistics
import Switchboard.Proofs.Token.Verification
import Switchboard.Proofs.Server.Routing
import Switchboard.Proofs.Token.RoundTrip
import Switchboard.Proofs.RateLimit.Eviction
import Switchboard.Proofs.Service.Sweeps
import Switchboard.Proofs.Route.Additions
import Switchboard.Proofs.Router.Refusals
import Switchboard.Proofs.Service.Construction
import Switchboard.Proofs.Middleware.CrossOrigin
import Switchboard.Proofs.Duration.Grammar
import Switchboard.Proofs.Token.Credentials
import Switchboard.Proofs.Router.RouteCount
