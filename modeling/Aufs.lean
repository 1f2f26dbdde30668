import Aufs.Table
import Aufs.Machine
import Aufs.Kernel
import Aufs.Create
import Aufs.CreateSpec
import Aufs.Wf
import Aufs.Run
import Aufs.Tree
import Aufs.Ino
import Aufs.Refs
import Aufs.ErrPtr
import Aufs.FileOps
import Aufs.Reader
import Aufs.Init
import Aufs.Listing
import Aufs.Perm
import Aufs.Syscall
import Aufs.Access
import Aufs.Session
import Aufs.Resolve
import Aufs.Mount
