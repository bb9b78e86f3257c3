import CodeStrudy.Foundation.Machine
import CodeStrudy.Foundation.Loop
import CodeStrudy.Foundation.CInt
import CodeStrudy.Foundation.CString
import CodeStrudy.Foundation.FileIO
import CodeStrudy.Foundation.Separator
import CodeStrudy.Foundation.Substring
import CodeStrudy.Foundation.PtrArray
import CodeStrudy.Foundation.HeapBlock
import CodeStrudy.Foundation.DescTable
import CodeStrudy.Foundation.Rect
import CodeStrudy.Foundation.OneSlot
import CodeStrudy.Foundation.SemaphoreSet
import CodeStrudy.Foundation.MessageQueue
import CodeStrudy.Foundation.Children
import CodeStrudy.Foundation.Mutex
import CodeStrudy.Foundation.PrefixCode
import CodeStrudy.Foundation.Getopt
import CodeStrudy.Foundation.PathTree
import CodeStrudy.Foundation.Signals
import CodeStrudy.Foundation.FdTable
import CodeStrudy.Foundation.Network
import CodeStrudy.Foundation.LockTable
import CodeStrudy.GetNum.GetNum
import CodeStrudy.GetNum.GetInt
import CodeStrudy.GetNum.Literal
import CodeStrudy.ErrPrintf.Message
import CodeStrudy.Ftok.Key
import CodeStrudy.SeekIo.Interpreter
import CodeStrudy.SeekIo.HexDump
import CodeStrudy.XattrView.View
import CodeStrudy.TMount.Mount
import CodeStrudy.Tee.Tee
import CodeStrudy.FileCopy.Copy
import CodeStrudy.ScatterIo.ScatterIo
import CodeStrudy.AtomicAppend.Append
import CodeStrudy.Dup.Dup2
import CodeStrudy.Environ.Env
import CodeStrudy.Environ.Unset
import CodeStrudy.Environ.Set
import CodeStrudy.Environ.Modify
import CodeStrudy.FileServer.FileComm
import CodeStrudy.FileServer.NotifyServer
import CodeStrudy.FileServer.MqTransfer
import CodeStrudy.FileServer.Request
import CodeStrudy.Talk.Messages
import CodeStrudy.Talk.Server
import CodeStrudy.Talk.Routing
import CodeStrudy.Talk.System
import CodeStrudy.Talk.Delivery
import CodeStrudy.Talk.MemberCount
import CodeStrudy.SharedMemory.Programs
import CodeStrudy.SharedMemory.Relation
import CodeStrudy.SharedMemory.Initialisation
import CodeStrudy.SharedMemory.OneSet
import CodeStrudy.SharedMemory.TwoSets
import CodeStrudy.SharedMemory.Transfer
import CodeStrudy.SharedMemory.Termination
import CodeStrudy.ThreadCopy.Copy
import CodeStrudy.ThreadCopy.Outcome
import CodeStrudy.ThreadCopy.Termination
import CodeStrudy.SvmsgFile.Transfer
import CodeStrudy.SvmsgFile.Reaping
import CodeStrudy.SvmsgFile.System
import CodeStrudy.SvmsgFile.Apart
import CodeStrudy.SeqnumFifo.Server
import CodeStrudy.RemoteCommand.Command
import CodeStrudy.RemoteCommand.Response
import CodeStrudy.RemoteCommand.Redirect
import CodeStrudy.InotifyTree.FileTree
import CodeStrudy.InotifyTree.Monitor
import CodeStrudy.InotifyTree.Tracking
import CodeStrudy.InotifyTree.WatchTable
import CodeStrudy.InotifyTree.AddRemove
import CodeStrudy.MultiSigchld.Accounting
import CodeStrudy.InetServer.Sockets
import CodeStrudy.InetServer.SignalServer
import CodeStrudy.InetServer.PollServer
import CodeStrudy.InetServer.Descriptors
import CodeStrudy.InetSockets.Connect
import CodeStrudy.InetSockets.Passive
import CodeStrudy.Pathname.Judge
import CodeStrudy.Pathname.Dirname
import CodeStrudy.Pathname.Basename
import CodeStrudy.Pathname.Bounds
import CodeStrudy.Realpath.Realpath
import CodeStrudy.Execlp.Vectors
import CodeStrudy.Execlp.Search
import CodeStrudy.Execlp.Script
import CodeStrudy.ProcessLister.Status
import CodeStrudy.ProcessLister.Scan
import CodeStrudy.FreeAndSbrk.Free
import CodeStrudy.Delay3s.Sampling
import CodeStrudy.IdEcho.Echo
import CodeStrudy.UdpEcho.Echo
import CodeStrudy.UdpEcho.System
import CodeStrudy.UdpEcho.Reliable
import CodeStrudy.DatagramClient.Client
import CodeStrudy.SelectPipes.Select
import CodeStrudy.SelectPipes.Poll
import CodeStrudy.ThreadMultijoin.Program
import CodeStrudy.ThreadMultijoin.Bookkeeping
import CodeStrudy.ThreadMultijoin.MainLoop
import CodeStrudy.ThreadMultijoin.Deadlock
import CodeStrudy.OneTimeInit.Once
import CodeStrudy.OneTimeInit.Return
import CodeStrudy.AlienInvasion.Game
import CodeStrudy.AlienInvasion.Geometry
import CodeStrudy.AlienInvasion.Fleet
import CodeStrudy.AlienInvasion.ShipPosition
import CodeStrudy.AlienInvasion.Lives
import CodeStrudy.AlienInvasion.Direction
import CodeStrudy.AlienInvasion.Formation
import CodeStrudy.FlockDeadlock.Deadlock
import CodeStrudy.FilePerms.Umask
import CodeStrudy.ChildStatus.Status
import CodeStrudy.RtSignals.Values
import CodeStrudy.SigReceive.Counts
import CodeStrudy.TwoPipes.Plumbing
import CodeStrudy.TwoPipes.Exchange
import CodeStrudy.LockTester.Report
import CodeStrudy.MakeZombie.Handshake
