import ArceOS.Lib.Transition
import ArceOS.Lib.Ring
import ArceOS.Lib.Fifo
import ArceOS.Lib.OrdMap
import ArceOS.Lib.Str
import ArceOS.Lib.FirstMax
import ArceOS.Lib.PathTree
import ArceOS.Lib.Containers
import ArceOS.Lib.TryEach
import ArceOS.Lib.Scan
import ArceOS.Posix.Pipe
import ArceOS.Posix.FdOps
import ArceOS.Posix.PipeIo
import ArceOS.Posix.Epoll
import ArceOS.Posix.Select
import ArceOS.Posix.Pthread
import ArceOS.Fs.Vfs
import ArceOS.Fs.Ramfs
import ArceOS.Fs.RamfsWalk
import ArceOS.Fs.RamfsTree
import ArceOS.Fs.RamfsSpec
import ArceOS.Fs.Root
import ArceOS.Fs.CurrentDir
import ArceOS.Lib.ByteStore
import ArceOS.Lib.LeBytes
import ArceOS.Libc.Malloc
import ArceOS.Libc.Mktime
import ArceOS.Libc.Strtol
import ArceOS.Libc.Strtod
import ArceOS.Libc.Strftime
import ArceOS.Fs.Dev
import ArceOS.Fs.DevSpec
import ArceOS.Fs.Fops
import ArceOS.Fs.RamFile
import ArceOS.Fs.ReadDir
import ArceOS.Task.Sched
import ArceOS.Task.SchedInv
import ArceOS.Task.NotifyOne
import ArceOS.Sync.Mutex
import ArceOS.Sync.MutexInv
import ArceOS.Net.ListenTable
import ArceOS.Net.TcpSocket
import ArceOS.Net.TcpConnect
import ArceOS.Mm.AddrSpace
import ArceOS.Mm.AreaData
import ArceOS.Posix.Io
import ArceOS.Lib.Duration
import ArceOS.Posix.Time
import ArceOS.Hal.Time
import ArceOS.Posix.Lseek
import ArceOS.Mm.Loader
import ArceOS.Mm.LoaderSpec
import ArceOS.Hv.VmDev
import ArceOS.Lib.ByteOrder
import ArceOS.Posix.SockAddr
import ArceOS.Task.TaskExt
import ArceOS.Lib.Cursor
import ArceOS.Elf.Parse
import ArceOS.Elf.Format
import ArceOS.Mm.LoadElf
import ArceOS.Lib.IdTable
import ArceOS.Posix.FdCalls
import ArceOS.Lib.Move
import ArceOS.Libc.String
import ArceOS.Lib.Window
import ArceOS.Libc.Strstr
import ArceOS.Lib.CriticalFactorization
import ArceOS.Libc.Twoway
import ArceOS.Libc.TwowaySearch
