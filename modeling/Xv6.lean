import Xv6.Fs.UserBuffer
import Xv6.Fs.Transactions
import Xv6.Fs.Eviction
import Xv6.Fs.Getcwd
import Xv6.Kernel.Console
import Xv6.Kernel.PipeProperties
import Xv6.Fs.MkfsReads
import Xv6.Fs.InodeCache
import Xv6.Fs.SharedOffset
import Xv6.Fs.MkfsConsistent
import Xv6.Fs.Directory
import Xv6.Fs.Path
import Xv6.Fs.Accounting
import Xv6.User.Getcmd
import Xv6.User.Words
import Xv6.Fs.Truncate
import Xv6.Fs.BitmapSet
import Xv6.Vm.Isolation
import Xv6.Vm.Kinit
import Xv6.Vm.Allocuvm
import Xv6.Vm.Copyuvm
import Xv6.Kernel.LineDiscipline
import Xv6.Disk.Holders
import Xv6.Disk.Lru
import Xv6.Disk.IdeProperties
import Xv6.User.UmallocProperties
import Xv6.Kernel.Mp
import Xv6.User.Grep
import Xv6.Vm.PartialMap
