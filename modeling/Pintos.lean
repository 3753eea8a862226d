import Pintos.Threads.DonationWalk
import Pintos.Threads.Donation
import Pintos.Threads.Alarm
import Pintos.Threads.Malloc
import Pintos.Userprog.Waiting
import Pintos.Vm.Segments
import Pintos.Vm.StackPages
import Pintos.Vm.SwapSlots
import Pintos.Vm.Transparency
import Pintos.Vm.EvictionRace
import Pintos.Filesys.Paths
import Pintos.Filesys.DirectoryMap
import Pintos.Filesys.OpenFiles
import Pintos.Threads.Conditions
import Pintos.Threads.InterruptLevel
import Pintos.Userprog.Syscall
import Pintos.Filesys.CacheRace
import Pintos.Filesys.HandleTable
import Pintos.Filesys.Positions
import Pintos.Lib.Arithmetic
import Pintos.Lib.Strings
import Pintos.Devices.Intq
import Pintos.Lib.HeapSort
