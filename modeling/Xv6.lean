import Xv6.Bio.Cache
import Xv6.Console.Readers
import Xv6.Exec.Load
import Xv6.Fs.Bitmap
import Xv6.Fs.ChunkLog
import Xv6.Fs.ShortWrite
import Xv6.Ftable.Lifetime
import Xv6.Grep.Lines
import Xv6.Log.Recovery
import Xv6.Log.Reservation
import Xv6.Mkfs.Lookup
import Xv6.Pipe.Read
import Xv6.Pipe.Wakeup
import Xv6.Proc.Accounting
import Xv6.Proc.ByPid
import Xv6.Proc.Priority
import Xv6.Proc.Times
import Xv6.Proc.Wait
import Xv6.Sched.Dispatch
import Xv6.Sched.ExitWait
import Xv6.Sched.Wakeup
import Xv6.Sh.Command
import Xv6.Spinlock.Nesting
import Xv6.Sysfile.Open
import Xv6.Trap.Syscall
import Xv6.Umalloc.Sbrk
import Xv6.Virtio.Requests
import Xv6.Vm.Copyinstr
import Xv6.Sched.Pass
