import Mathlib.Data.List.Basic
import Mathlib.Data.List.TakeWhile
/-!
# Kernel — the VFS objects aufs touches and the kernel helpers it calls

aufs (`src/aufs`) is built against a kernel that has `file_system_type.mount`, `mount_single` and `inode.__i_nlink`.
That kernel is not in the repository: the vendored `linux-2.6.14` predates all three.  This module models what aufs
reads and writes of the VFS — the dentry cache, the inodes, the superblock's root — and the helpers it calls, as that
kernel documents them.  The vendored source is the reference where the two agree (`fs/dcache.c`, `fs/namei.c`,
`fs/inode.c`, `fs/libfs.c`); where they differ the newer behaviour is modelled: `new_inode` no longer numbers the
inode, `lookup_one_len` reads `base->d_inode` first and also refuses `.` and `..`, and `simple_fill_super` gives the
root `i_ino = 1` and two links.

What the allocators hand out is not the kernel's to promise — whether a slab object is there, and what a recycled one
still holds — so each call takes it as an input (`Env`), and every theorem holds for every such input.  A path on
which the kernel would oops (a `NULL`, error or dangling pointer dereferenced, a missing `lookup` called) returns
`none`.
-/
namespace Aufs

/-! ## Pointer values, error codes, modes -/

/-- **A kernel pointer value as aufs handles it**: `NULL`, an object's address, or an error code `ERR_PTR` encodes.
`IS_ERR` holds exactly of the top `MAX_ERRNO` addresses, where no object lives, so the two are told apart by their
constructor. -/
inductive Ptr where
  | null
  | obj (a : Nat)
  | err (e : Int)
  deriving DecidableEq, Repr

def errPtr (e : Int) : Ptr := .err e

def isErr : Ptr → Bool
  | .err _ => true
  | _ => false

/-- `PTR_ERR`: the pointer read back as a `long`. -/
def ptrErr : Ptr → Int
  | .null => 0
  | .obj a => a
  | .err e => e

def EPERM : Int := 1
def ENOMEM : Int := 12
def EACCES : Int := 13
def EFAULT : Int := 14
def EBUSY : Int := 16
def EEXIST : Int := 17
def ENAMETOOLONG : Int := 36

def S_IFMT : Nat := 0o170000
def S_IFSOCK : Nat := 0o140000
def S_IFREG : Nat := 0o100000
def S_IFBLK : Nat := 0o060000
def S_IFDIR : Nat := 0o040000
def S_IFCHR : Nat := 0o020000
def S_IFIFO : Nat := 0o010000
def S_IRWXU : Nat := 0o700
def S_IRUGO : Nat := 0o444

def NAME_MAX : Nat := 255

/-! ## Inodes, dentries, the VFS -/

/-- The inode operations these code paths install: `empty_iops` (`new_inode`) or `simple_dir_inode_operations`. -/
inductive Iops where
  | empty
  | simpleDir
  deriving DecidableEq, Repr

/-- The file operations an inode can point at: the kernel's tables these code paths install, aufs's
`aufs_file_operations`, or another table a caller passes in, by its address. -/
inductive Fops where
  | empty
  | simpleDir
  | defChr
  | defBlk
  | defFifo
  | badSock
  | aufs
  | table (a : Nat)
  deriving DecidableEq, Repr

/-- The fields of `struct inode` these code paths read or write; `iPrivate` is `NULL` or the caller's pointer. -/
structure Inode where
  iIno : Nat
  iMode : Nat
  iUid : Nat
  iGid : Nat
  iBlocks : Nat
  iAtime : Nat
  iMtime : Nat
  iCtime : Nat
  iNlink : Nat
  iRdev : Nat
  iOp : Iops
  iFop : Fops
  iPrivate : Option Nat
  deriving DecidableEq, Repr

/-- The fields of `struct dentry` these code paths read or write.  `dParent` is the parent's index in the cache (the
root is its own parent), `dInode` the inode's, `NULL` for a negative dentry; `dCount` is the reference count and
`dHashed` is `!d_unhashed`. -/
structure Dentry where
  dName : String
  dParent : Nat
  dInode : Option Nat
  dCount : Nat
  dHashed : Bool
  deriving DecidableEq, Repr

/-- The VFS as aufs sees it: the dentry cache and the inodes, each indexed by allocation order (no path modelled here
frees either), and `aufs_mount->mnt_sb->s_root`, `NULL` while a pointer on the way is. -/
structure Vfs where
  dentries : List Dentry
  inodes : List Inode
  sRoot : Option Nat
  deriving DecidableEq, Repr

namespace Vfs

def modifyDentry (s : Vfs) (d : Nat) (f : Dentry → Dentry) : Vfs := { s with dentries := s.dentries.modify d f }

def modifyInode (s : Vfs) (i : Nat) (f : Inode → Inode) : Vfs := { s with inodes := s.inodes.modify i f }

/-- `dentry->d_inode`, read through: the inode of the dentry at `d`, if it is positive. -/
def inodeOf (s : Vfs) (d : Nat) : Option Inode :=
  match s.dentries[d]? with
  | some e => match e.dInode with
    | some i => s.inodes[i]?
    | none => none
  | none => none

end Vfs

/-- **What one call of aufs gets from its surroundings**: the calling task's `fsuid` and `fsgid`; whether
`inode_permission(dir, MAY_EXEC)` grants the lookup; the address of `aufs_create_file`'s variable `dentry` on the
kernel stack; whether `d_alloc` gets its slab object; and the slab object `new_inode` gets, if any, as its previous
use left it. -/
structure Env where
  fsuid : Nat
  fsgid : Nat
  mayExec : Bool
  frame : Nat
  dentryOk : Bool
  slab : Option Inode
  deriving DecidableEq, Repr

/-! ## The dentry cache -/

def dget (s : Vfs) (d : Nat) : Vfs := s.modifyDentry d (fun e => { e with dCount := e.dCount + 1 })

/-- `d_lookup(parent, name)`: the hashed child of `parent` with that name. -/
def dLookup (s : Vfs) (parent : Nat) (name : String) : Option Nat :=
  s.dentries.findIdx? (fun e => e.dHashed && e.dParent == parent && e.dName == name)

/-- `d_alloc(parent, name)` once its slab object is in hand: a dentry with one reference, no inode, not hashed, that
holds a reference on its parent. -/
def dAlloc (s : Vfs) (parent : Nat) (name : String) : Nat × Vfs :=
  (s.dentries.length, { s with dentries := (dget s parent).dentries ++ [⟨name, parent, none, 1, false⟩] })

/-- `d_rehash`, as `d_add(dentry, NULL)` in `simple_lookup` does it: the dentry is hashed, still negative. -/
def dRehash (s : Vfs) (d : Nat) : Vfs := s.modifyDentry d (fun e => { e with dHashed := true })

def dInstantiate (s : Vfs) (d i : Nat) : Vfs := s.modifyDentry d (fun e => { e with dInode := some i })

/-- The string a `const char *` holds: its characters up to the first `NUL`, which is what `strlen` measures. -/
def cString (name : String) : String := String.ofList (name.toList.takeWhile (· ≠ '\x00'))

/-- The names `lookup_one_len` refuses before it looks: empty, `.` and `..`, and any holding `/` or `NUL` (both ASCII,
so a scan of the characters finds them where the kernel's scan of the bytes does). -/
def badName (name : String) : Bool :=
  name.isEmpty || name == "." || name == ".." || name.toList.any (fun c => c == '/' || c == '\x00')

/-- A name `lookup_one_len` accepts holds no `NUL`, so `strlen` measures all of it. -/
theorem cString_of_badName {name : String} (h : badName name = false) : cString name = name := by
  have hn : ∀ c ∈ name.toList, c ≠ '\x00' := by
    intro c hc hc0
    simp only [badName, Bool.or_eq_false_iff, List.any_eq_false] at h
    exact h.2 c hc (by simp [hc0])
  unfold cString
  rw [List.takeWhile_eq_self_iff.2 (by simpa using hn), String.ofList_toList]

/-- **`lookup_one_len(name, base, strlen(name))`.**  `base->d_inode` is read first (the lock check); then
`EACCES` for a refused name or a refused search of `base`; the cached child with one more reference; else a new
child (`d_alloc`) that `simple_lookup` hashes negative, `ENOMEM` when its slab object is not had and `ENAMETOOLONG`
past `NAME_MAX` (the new dentry is put back).  A `base` whose inode has no `lookup` oopses on the call. -/
def lookupOneLen (env : Env) (name : String) (base : Nat) (s : Vfs) : Option (Ptr × Vfs) :=
  match s.inodeOf base with
  | none => none
  | some dir =>
    if badName name then some (errPtr (-EACCES), s)
    else if !env.mayExec then some (errPtr (-EACCES), s)
    else match dLookup s base name with
      | some d => some (.obj d, dget s d)
      | none =>
        if !env.dentryOk then some (errPtr (-ENOMEM), s)
        else if dir.iOp ≠ .simpleDir then none
        else if NAME_MAX < name.utf8ByteSize then some (errPtr (-ENAMETOOLONG), s)
        else some (.obj s.dentries.length, dRehash (dAlloc s base name).2 s.dentries.length)

/-! ## Inodes -/

/-- `inode_init_always`, as `new_inode` applies it to the slab object it gets: one link, no operations, no blocks, no
device and no private data.  The number, the mode, the owner and the times stay as the object's previous use left
them: the newer kernel leaves `i_ino` to the file system. -/
def inodeInitAlways (o : Inode) : Inode :=
  { o with iOp := .empty, iFop := .empty, iNlink := 1, iBlocks := 0, iRdev := 0, iPrivate := none }

/-- `new_inode(sb)`: the new inode's index, or `NULL` when no slab object is had. -/
def newInode (env : Env) (s : Vfs) : Option Nat × Vfs :=
  match env.slab with
  | none => (none, s)
  | some o => (some s.inodes.length, { s with inodes := s.inodes ++ [inodeInitAlways o] })

def initSpecialInode (inode : Inode) (mode rdev : Nat) : Inode :=
  let inode := { inode with iMode := mode }
  if mode &&& S_IFMT = S_IFCHR then { inode with iFop := .defChr, iRdev := rdev }
  else if mode &&& S_IFMT = S_IFBLK then { inode with iFop := .defBlk, iRdev := rdev }
  else if mode &&& S_IFMT = S_IFIFO then { inode with iFop := .defFifo }
  else if mode &&& S_IFMT = S_IFSOCK then { inode with iFop := .badSock }
  else inode

/-- The root inode `simple_fill_super` makes of the slab object it gets: number 1, `S_IFDIR | 0755`, the directory
operations, two links, every time `now`. -/
def rootInode (o : Inode) (now : Nat) : Inode :=
  { inodeInitAlways o with
    iIno := 1, iMode := S_IFDIR ||| 0o755, iAtime := now, iMtime := now, iCtime := now,
    iOp := .simpleDir, iFop := .simpleDir, iNlink := 2 }

/-- **`simple_fill_super(sb, magic, files)`** with a table whose first name is empty, so that no file is made: the
root inode under the root dentry `d_make_root` gives it, which is its own parent.  `ENOMEM` when either allocation
fails.  Of the superblock only the root is modelled. -/
def simpleFillSuper (env : Env) (now : Nat) : Except Int Vfs :=
  match env.slab with
  | none => .error (-ENOMEM)
  | some o =>
    if !env.dentryOk then .error (-ENOMEM)
    else .ok { dentries := [⟨"/", 0, some 0, 1, false⟩], inodes := [rootInode o now], sRoot := some 0 }

end Aufs
