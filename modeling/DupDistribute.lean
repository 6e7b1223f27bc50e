import DupDistribute.Base.Machine
import DupDistribute.Base.Memory
import DupDistribute.Base.CString
import DupDistribute.Base.Numeral
import DupDistribute.Base.TextFile
import DupDistribute.Base.Ring
import DupDistribute.Base.Family
import DupDistribute.Base.Ledger
import DupDistribute.Base.Strtoul
import DupDistribute.Wire.DataHeader
import DupDistribute.Wire.Address
import DupDistribute.Record.Recorder
import DupDistribute.Record.Names
import DupDistribute.Record.DayChange
import DupDistribute.Record.Sequence
import DupDistribute.Record.Contents
import DupDistribute.Playback.Scan
import DupDistribute.Playback.Ownership
import DupDistribute.Playback.Session
import DupDistribute.Playback.Truth
import DupDistribute.Playback.Window
import DupDistribute.Playback.Listing
import DupDistribute.Playback.Pacing
import DupDistribute.Playback.Delivery
import DupDistribute.Playback.Ending
import DupDistribute.Playback.Filing
import DupDistribute.Playback.Order
import DupDistribute.Playback.RoundTrip
import DupDistribute.Playback.TimeBuffer
import DupDistribute.Distribute.Client
import DupDistribute.Distribute.Process
import DupDistribute.Distribute.Handover
import DupDistribute.Distribute.Forward
import DupDistribute.Distribute.Thread
import DupDistribute.Distribute.Requests
import DupDistribute.Distribute.ShortRequests
import DupDistribute.Distribute.Sequential
import DupDistribute.Distribute.Completion
import DupDistribute.Distribute.Progress
import DupDistribute.Distribute.Segments
import DupDistribute.Distribute.Descriptors
import DupDistribute.Config.File
import DupDistribute.Config.Settings
import DupDistribute.Config.PhysicalLines
import DupDistribute.Config.Entries
import DupDistribute.Config.ClientTable
import DupDistribute.System.Protocol
import DupDistribute.System.Sessions
import DupDistribute.System.Locks
import DupDistribute.System.InFlight
import DupDistribute.System.Recording
import DupDistribute.Server.Tree
import DupDistribute.Server.Acceptors
import DupDistribute.Server.Endpoints
import DupDistribute.Server.Growth
import DupDistribute.Pool.Threadpool
import DupDistribute.Pool.Queue
import DupDistribute.Pool.Tasks
import DupDistribute.Pool.Size
import DupDistribute.Pool.Sleep
import DupDistribute.Pool.Destroy
import DupDistribute.Pool.Lock
import DupDistribute.Pool.Shutdown
import DupDistribute.Pool.Refusal
import DupDistribute.Pool.Arguments
import DupDistribute.Pool.Schedule
import DupDistribute.Pool.Create
import DupDistribute.Convert.Hex
import DupDistribute.Log.Printf
import DupDistribute.Log.LogWrite
import DupDistribute.Log.Call
import DupDistribute.Log.Threads
import DupDistribute.Log.Memory
import DupDistribute.Log.Path
