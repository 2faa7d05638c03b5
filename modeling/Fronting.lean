import Fronting.Server
import Fronting.Machine
import Fronting.Pipe
import Fronting.ServerStep
import Fronting.Coherence
import Fronting.ActorStep
import Fronting.SessionTable
import Fronting.Uploads
import Fronting.Downloads
import Fronting.Isolation
import Fronting.Backpressure
import Fronting.Client
import Fronting.ClientStep
import Fronting.ClientWrites
import Fronting.ClientReads
import Fronting.ClientFailures
import Fronting.Tunnel
import Fronting.Growth
import Fronting.TunnelWires
import Fronting.TunnelReads
import Fronting.TunnelWrites
import Fronting.TunnelUpstream
import Fronting.TunnelPipe
import Fronting.TunnelBytes
import Fronting.TunnelOwner
import Fronting.ClientErrors
import Fronting.Owner
import Fronting.Fetch
import Fronting.Stdio
import Fronting.ClientBodies
import Fronting.Readers
import Fronting.Cancellation
import Fronting.LongPoll
import Fronting.TunnelGets
import Fronting.Leftovers
import Fronting.IdleTimeout
import Fronting.EmptyWrites
import Fronting.Statuses
import Fronting.Timers
import Fronting.Lifetimes
import Fronting.WindDown
import Fronting.TunnelPhases
import Fronting.TunnelFaultless
import Fronting.SessionKeys
import Fronting.Rejections
import Fronting.Tally
import Fronting.Accounting
import Fronting.Reports
