import Jos.Env.Ids
import Jos.Mem.UserCheck
import Jos.Mem.KernMap
import Jos.Mem.Tlb
import Jos.Machine.Mode
import Jos.Machine.Fair
import Jos.Machine.BigLock
import Jos.Ulib.Pfentry
import Jos.Machine.Authority
import Jos.Machine.Fsipc
import Jos.Ulib.ForkHeap
import Jos.Ulib.Httpd
import Jos.Ulib.Loader
import Jos.Fs.Crash
import Jos.Net.Serv
import Jos.Net.Sockets
import Jos.Net.Mbox
import Jos.Fs.OpenIds
import Jos.Fs.Mount
import Jos.Ulib.FileWrite
import Jos.Fs.NewName
