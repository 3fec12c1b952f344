import Maco.Lib.Interleaving
import Maco.Network.Check
import Maco.Lib.OptionText
import Maco.VM.Interface
import Maco.VM.Qemu
import Maco.Engine.Backup
import Maco.Jobs.Job
import Maco.Jobs.Service
import Maco.Jobs.Terminal
import Maco.Jobs.Exclusive
import Maco.Jobs.Listing
import Maco.L2.Helper
import Maco.L2.Capture
import Maco.VM.Hotplug
import Maco.VM.HotplugOutcome
import Maco.Engine.Network
import Maco.Engine.Ownership
import Maco.Engine.Separation
import Maco.Engine.Sharing
import Maco.Auth.Revocation
import Maco.Web.Access
import Maco.L2.Alone
import Maco.Lib.Locking
import Maco.Engine.Start
import Maco.Engine.Order
import Maco.Engine.Names
import Maco.Engine.Prune
import Maco.Engine.Complete
import Maco.Web.Events
import Maco.Web.Resource
import Maco.Jobs.Stream
import Maco.Engine.Schedules
import Maco.Engine.References
import Maco.Engine.Naming
import Maco.Engine.Tenure
import Maco.Storage.Files
import Maco.Engine.Growth
import Maco.Engine.DiskChanges
import Maco.Engine.Snapshot
import Maco.VM.Backup
import Maco.Network.Smooth
import Maco.Engine.VLANs
import Maco.Network.Undo
import Maco.Engine.Residue
import Maco.Engine.Assignments
import Maco.Web.Keys
import Maco.VM.Console
import Maco.Image.Inspect
import Maco.Web.Login
import Maco.Lib.Sweep
import Maco.Engine.Reconcile
import Maco.Lib.OptionList
import Maco.VM.Arguments
import Maco.Lib.Sorting
import Maco.Web.Pagination
import Maco.Jobs.Paging
import Maco.VM.Address
import Maco.Engine.InterfaceList
import Maco.Lib.Yaml
import Maco.Engine.GuestConfig
import Maco.Jobs.Submission
import Maco.Lib.Recent
import Maco.Jobs.Trimming
import Maco.Lib.Lease
import Maco.Jobs.Maintenance
import Maco.Network.Settled
import Maco.Network.Convergence
import Maco.Lib.Fallible
import Maco.Engine.Custody
import Maco.Engine.Holding
import Maco.Engine.Exclusive
