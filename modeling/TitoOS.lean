import TitoOS.Delivery
import TitoOS.Accounting
import TitoOS.Escalation
import TitoOS.Isolation
import TitoOS.SnapshotGuard
import TitoOS.Refusal
import TitoOS.Addressing
import TitoOS.Unicast
import TitoOS.Restoration
import TitoOS.Backends
import TitoOS.Awaiting
import TitoOS.Quiescence
import TitoOS.Finality
import TitoOS.Redelivery
import TitoOS.Reporting
import TitoOS.Resaving
import TitoOS.Resumption
import TitoOS.Encoding
import TitoOS.Shutdown.Handover
import TitoOS.Shutdown.Resources
import TitoOS.Shutdown.Overtaking
import TitoOS.Failures
import TitoOS.Platforms.Dispatch
import TitoOS.Platforms.Accounting
import TitoOS.Gui.Gate
import TitoOS.Files.Writing
import TitoOS.Files.Overtaking
import TitoOS.Files.Limit
import TitoOS.Files.Contention
import TitoOS.Http.Allowlist
import TitoOS.Shell.Driver
import TitoOS.Shell.Reader
import TitoOS.Shell.Reaping
import TitoOS.Files.Listing
import TitoOS.Files.Descriptors
import TitoOS.Files.Refinement
import TitoOS.Gui.History
import TitoOS.Gui.Address
import TitoOS.Gui.Requests
import TitoOS.Integrations.Access
import TitoOS.Gui.Demo
import TitoOS.Gui.Stopping
