import GoUblksrv.Header
import GoUblksrv.Lib.Machine
import GoUblksrv.Lib.Program
import GoUblksrv.Lib.ListCount
import GoUblksrv.Lib.Progress
import GoUblksrv.Lib.Simulation
import GoUblksrv.Lib.Atomic
import GoUblksrv.Lib.Enclosed
import GoUblksrv.Lib.Decimal
import GoUblksrv.Lib.Layout
import GoUblksrv.Lib.Slots
import GoUblksrv.Lib.Shards
import GoUblksrv.Lib.Access
import GoUblksrv.Lib.Words
import GoUblksrv.Lib.Ledger
import GoUblksrv.Control.Commands
import GoUblksrv.Control.Ring
import GoUblksrv.Control.Affinity
import GoUblksrv.Control.Deletion
import GoUblksrv.Device.Actors
import GoUblksrv.Device.Inversion
import GoUblksrv.Device.Startup
import GoUblksrv.Device.Routing
import GoUblksrv.Device.Handshake
import GoUblksrv.Device.Daemon
import GoUblksrv.Device.DevInit
import GoUblksrv.Device.Geometry
import GoUblksrv.Device.Listing
import GoUblksrv.Pool.Message
import GoUblksrv.Pool.Actors
import GoUblksrv.Pool.Inversion
import GoUblksrv.Pool.Custody
import GoUblksrv.Pool.Stages
import GoUblksrv.Pool.Turns
import GoUblksrv.Pool.Outcome
import GoUblksrv.Pool.Places
import GoUblksrv.Pool.Transfer
import GoUblksrv.Pool.Endian
import GoUblksrv.Pool.Ranges
import GoUblksrv.Control.Params
import GoUblksrv.Control.Slots
import GoUblksrv.Control.Isolation
import GoUblksrv.Pool.Drain
import GoUblksrv.Store.Disk
import GoUblksrv.Store.Served
import GoUblksrv.Store.Linear
import GoUblksrv.Store.Completion
import GoUblksrv.Queue.UserData
import GoUblksrv.Queue.Windows
import GoUblksrv.Queue.InitFailure
import GoUblksrv.Queue.Memory
import GoUblksrv.Queue.Threads
import GoUblksrv.Queue.Init
import GoUblksrv.Queue.Inversion
import GoUblksrv.Queue.Protocol
import GoUblksrv.Queue.Tokens
import GoUblksrv.Queue.Capacity
import GoUblksrv.Queue.Bounds
import GoUblksrv.Queue.Erase
import GoUblksrv.Queue.Fetch
import GoUblksrv.Queue.Heap
import GoUblksrv.Queue.Footprint
import GoUblksrv.Queue.Garbage
import GoUblksrv.Queue.Locks
import GoUblksrv.Queue.Discipline
import GoUblksrv.Queue.Ownership
import GoUblksrv.Queue.Counter
import GoUblksrv.Queue.Shutdown
import GoUblksrv.Queue.WakeUp
import GoUblksrv.Queue.Progress
import GoUblksrv.Queue.Holders
import GoUblksrv.Queue.Quiescence
import GoUblksrv.Service.Actors
import GoUblksrv.Service.Pairing
import GoUblksrv.Service.Joint
import GoUblksrv.Service.Acks
import GoUblksrv.Service.Progress
import GoUblksrv.Queue.Stopping
import GoUblksrv.Service.Stopping
