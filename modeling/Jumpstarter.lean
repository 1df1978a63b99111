import Jumpstarter.Authorization.Metadata
import Jumpstarter.Cli.Decision
import Jumpstarter.Cli.TokenMonitor
import Jumpstarter.Client.EndingWarning
import Jumpstarter.Client.LeaseAsync
import Jumpstarter.Client.SelectorContains
import Jumpstarter.Client.StatusMonitor
import Jumpstarter.Driver.Mirror
import Jumpstarter.Driver.Presigned
import Jumpstarter.Driver.SshProxy
import Jumpstarter.Driver.TftpTask
import Jumpstarter.DutNetwork.Filter
import Jumpstarter.DutNetwork.Forwarding
import Jumpstarter.DutNetwork.Updates
import Jumpstarter.Exec.Children
import Jumpstarter.Exec.Output
import Jumpstarter.Exec.Signals
import Jumpstarter.Exec.Socket
import Jumpstarter.Exporter.Online
import Jumpstarter.ExporterSet.Ceiling
import Jumpstarter.ExporterSet.Demand
import Jumpstarter.ExporterSet.ScaleDown
import Jumpstarter.Flasher.Flash
import Jumpstarter.Flasher.Headers
import Jumpstarter.Flasher.Redaction
import Jumpstarter.Iscsi.Luns
import Jumpstarter.Lease.Acquisition
import Jumpstarter.Lease.ClientEnd
import Jumpstarter.Lease.EndedLabel
import Jumpstarter.Lease.Exclusive
import Jumpstarter.Lease.ListLeases
import Jumpstarter.Lease.PendingNames
import Jumpstarter.Lease.Released
import Jumpstarter.Lease.Update
import Jumpstarter.Mcp.Connections
import Jumpstarter.Mitmproxy.Endpoints
import Jumpstarter.Mitmproxy.Patch
import Jumpstarter.Mitmproxy.Sequences
import Jumpstarter.Mitmproxy.Watch
import Jumpstarter.Nvdemux.Manager
import Jumpstarter.Operator.Converge
import Jumpstarter.RideSX.FlashImages
import Jumpstarter.Runtime.Available
import Jumpstarter.Runtime.HookOrder
import Jumpstarter.Runtime.HookOutput
import Jumpstarter.Runtime.Release
import Jumpstarter.Runtime.Slot
import Jumpstarter.Runtime.StatusDrain
import Jumpstarter.Service.CompatRelease
import Jumpstarter.Service.Dial
import Jumpstarter.Service.LeaseLock
import Jumpstarter.Service.Telemetry
import Jumpstarter.Shell.CallMethod
import Jumpstarter.Streams.Decompress
import Jumpstarter.Streams.HalfClose
