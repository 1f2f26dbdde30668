import Aufs.Walk
import Aufs.FileOps
import Aufs.Listing
/-!
# Syscall — `open`, `read`, `write`, `getdents` and `close` on the mounted aufs

How user space reaches what `aufs_init` made, through the vendored `fs/open.c`, `fs/namei.c`, `fs/read_write.c`,
`fs/readdir.c` and `fs/libfs.c`.  `sys_open` walks the path (`open_namei`), checks the inode (`may_open`) and makes
an open file whose `f_op` is the inode's `i_fop` (`__dentry_open`); `read`, `write` and `getdents` check the file's
mode and call `f_op`: `aufs_file_read` and `aufs_file_write` for the files `aufs_init` made, `generic_read_dir` and
`dcache_readdir` for its directories, which hands `filldir` one entry at a time while its record fits the user's
buffer.  The kernels aufs is built for also have `O_PATH` (from 2.6.39): the walk alone, and a file with
`FMODE_PATH` and `empty_fops` that only `close` accepts.

The tasks are threads of one process: they share the table of open files, each with its own credentials.  The calls
are `open`, `read`, `write`, `getdents` and `close`, and they change nothing in the VFS that anything here reads: aufs
directories have no `create`, the walk's dentries are put back, and the inode times that `O_TRUNC` and `getdents` set
are read by nothing modelled.  What they change is the flag `enabled` and the table of open files (`Os`).  Calls that
change an inode (`chmod`, `fchmod`, `chown`, `utime`) are not modelled.
-/
namespace Aufs

def O_ACCMODE : Nat := 0o3
def O_CREAT : Nat := 0o100
def O_EXCL : Nat := 0o200
def O_TRUNC : Nat := 0o1000
def O_APPEND : Nat := 0o2000
def O_DIRECT : Nat := 0o40000
def O_DIRECTORY : Nat := 0o200000
def O_NOFOLLOW : Nat := 0o400000
def O_NOATIME : Nat := 0o1000000
def O_PATH : Nat := 0o10000000

def FMODE_READ : Nat := 1
def FMODE_WRITE : Nat := 2
def FMODE_PATH : Nat := 0x4000

def INT_MAX : Nat := 2147483647
def LLONG_MAX : Nat := 9223372036854775807

def EBADF : Int := 9
def EISDIR : Int := 21
def EINVAL : Int := 22
def ELOOP : Int := 40

/-! ## `open` -/

/-- `ACC_MODE(x)`: the string `"\000\004\002\006"` indexed by the access mode, the permission it asks for. -/
def accMode (x : Nat) : Nat := [0, MAY_READ, MAY_WRITE, MAY_READ ||| MAY_WRITE].getD (x &&& O_ACCMODE) 0

/-- `filp_open`'s flags for `open_namei`: the access mode one up (read `01`, write `10`, both `11`) unless it is `11`,
and write access asked for with `O_TRUNC`. -/
def nameiFlags (flags : Nat) : Nat :=
  let f := if (flags + 1) &&& O_ACCMODE ≠ 0 then flags + 1 else flags
  if f &&& O_TRUNC ≠ 0 then f ||| 2 else f

/-- `lookup_flags(f)`: follow links unless `O_NOFOLLOW`, and ask for a directory with `O_DIRECTORY`. -/
def lookupFlags (f : Nat) : Nat :=
  (if f &&& O_NOFOLLOW ≠ 0 then 0 else LOOKUP_FOLLOW) ||| (if f &&& O_DIRECTORY ≠ 0 then LOOKUP_DIRECTORY else 0)

/-- **`may_open(nd, acc_mode, flag)`** on the dentry `d`: a directory is not opened for writing; then `permission`;
`O_NOATIME` is for the owner or `CAP_FOWNER`.  The aufs mount has neither `MNT_NODEV` nor a read-only superblock,
no aufs inode is append-only or has leases or locks, and `O_TRUNC`'s truncation of an empty file to 0 succeeds. -/
def mayOpen (cred : Cred) (s : Vfs) (d accMode flag : Nat) : Int :=
  match s.inodeOf d with
  | none => -ENOENT
  | some inode =>
    if inode.iMode &&& S_IFMT = S_IFLNK then -ELOOP
    else if inode.iMode &&& S_IFMT = S_IFDIR ∧ flag &&& FMODE_WRITE ≠ 0 then -EISDIR
    else
      let err := permission cred inode accMode
      if err ≠ 0 then err
      else if flag &&& O_NOATIME ≠ 0 ∧ cred.fsuid ≠ inode.iUid ∧ cred.capFowner = false then -EPERM
      else 0

/-- `vfs_create(dir, dentry, mode, nd)` for a negative dentry under an aufs directory: `may_create`'s search and
write check, then `EACCES`, as neither table of inode operations has a `create`. -/
def vfsCreate (cred : Cred) (dir : Inode) : Int :=
  let err := permission cred dir (MAY_WRITE ||| MAY_EXEC)
  if err ≠ 0 then err else -EACCES

/-- The last component of an `O_CREAT` open under the directory `dir`: `__lookup_hash`'s search check and lookup,
then `vfs_create` for a negative dentry, and for a positive one `O_EXCL`, a directory, and `may_open`. -/
def openLast (cred : Cred) (dentryOk : Bool) (s : Vfs) (dir : Nat) (last : String) (flag acc : Nat) :
    Option (Except Int Nat) :=
  match s.inodeOf dir with
  | none => none
  | some dirInode =>
    let err := permission cred dirInode MAY_EXEC
    if err ≠ 0 then some (.error err)
    else match dLookup s dir last with
      | none =>
        if !dentryOk then some (.error (-ENOMEM))
        else if dirInode.iOp.lookup = false then none
        else if NAME_MAX < last.utf8ByteSize then some (.error (-ENAMETOOLONG))
        else some (.error (vfsCreate cred dirInode))
      | some d =>
        match s.inodeOf d with
        | none => some (.error (vfsCreate cred dirInode))
        | some inode =>
          if flag &&& O_EXCL ≠ 0 then some (.error (-EEXIST))
          else if inode.iMode &&& S_IFMT = S_IFDIR then some (.error (-EISDIR))
          else
            let err := mayOpen cred s d acc flag
            if err ≠ 0 then some (.error err) else some (.ok d)

/-- **`open_namei(pathname, flag, mode, nd)`** from the aufs root: the dentry to open, or the error.  Without
`O_CREAT` a walk and `may_open`; with it a walk to the last component's directory, which must be named (not the root,
`.` or `..`), and `openLast`. -/
def openNamei (cred : Cred) (dentryOk : Bool) (s : Vfs) (path : List String) (flag : Nat) :
    Option (Except Int Nat) :=
  let acc := accMode flag ||| (if flag &&& O_APPEND ≠ 0 then MAY_APPEND else 0)
  if flag &&& O_CREAT = 0 then
    match linkPathWalk cred dentryOk (lookupFlags flag) s 0 path with
    | some (.ok d) =>
      let err := mayOpen cred s d acc flag
      if err ≠ 0 then some (.error err) else some (.ok d)
    | r => r
  else
    match linkPathWalk cred dentryOk LOOKUP_PARENT s 0 path with
    | some (.ok dir) =>
      match path.getLast? with
      | none => some (.error (-EISDIR))
      | some last =>
        if last = "." ∨ last = ".." then some (.error (-EISDIR))
        else openLast cred dentryOk s dir last flag acc
    | r => r

/-- An open file: its dentry, the read and write bits of `f_mode` or `FMODE_PATH`, `f_op` and `f_pos`. -/
structure File where
  dentry : Nat
  fMode : Nat
  fOp : Fops
  fPos : Nat
  deriving DecidableEq, Repr

/-- **`__dentry_open(dentry, mnt, flags, f)`** on the dentry `d`: `f_mode` from the access mode, `f_op` the inode's
`i_fop`, `f_pos` 0, then `f_op->open`, which only the directory operations have (`dcache_dir_open` allocates the
directory's cursor, `ENOMEM` when `d_alloc` gets no slab object); `O_DIRECT` is refused, as no aufs inode's mapping
has `direct_IO`.  `none` for a table whose `open` the model does not have. -/
def dentryOpen (dentryOk : Bool) (d : Nat) (inode : Inode) (flags : Nat) : Option (Except Int File) :=
  let f : File := ⟨d, (flags + 1) &&& O_ACCMODE, inode.iFop, 0⟩
  let direct : Option (Except Int File) := if flags &&& O_DIRECT ≠ 0 then some (.error (-EINVAL)) else some (.ok f)
  match inode.iFop with
  | .simpleDir => if !dentryOk then some (.error (-ENOMEM)) else direct
  | .aufs => direct
  | .empty => direct
  | _ => none

/-- **`filp_open(filename, flags, mode)`**: the open file, or the error; `none` where the kernel oopses.  With `O_PATH`
`build_open_flags` keeps only `O_DIRECTORY` and `O_NOFOLLOW` for the walk and asks for no access, so `do_o_path` walks
and nothing else: no `may_open`, and `do_dentry_open` gives the file `FMODE_PATH` and `empty_fops` without calling
any `open`. -/
def filpOpen (s : Vfs) (cred : Cred) (path : List String) (flags : Nat) (dentryOk : Bool) :
    Option (Except Int File) :=
  if flags &&& O_PATH ≠ 0 then
    match linkPathWalk cred dentryOk (lookupFlags (flags &&& (O_DIRECTORY ||| O_NOFOLLOW ||| O_PATH))) s 0 path with
    | none => none
    | some (.error e) => some (.error e)
    | some (.ok d) => some (.ok ⟨d, FMODE_PATH, .empty, 0⟩)
  else
    match openNamei cred dentryOk s path (nameiFlags flags) with
    | none => none
    | some (.error e) => some (.error e)
    | some (.ok d) =>
      match s.inodeOf d with
      | none => none
      | some inode => dentryOpen dentryOk d inode flags

/-- The open files of the tasks, by descriptor, and the module's flag. -/
structure Os where
  enabled : Int
  files : List (Option File)
  deriving Repr

/-- No file open, and the flag as the module was loaded. -/
def Os.init : Os := ⟨enabledInit, []⟩

/-- The lowest free descriptor, as `get_unused_fd` finds it. -/
def firstFree : List (Option File) → Nat
  | [] => 0
  | none :: _ => 0
  | some _ :: fs => firstFree fs + 1

/-- `fd_install(fd, f)`. -/
def fdInstall (files : List (Option File)) (fd : Nat) (f : File) : List (Option File) :=
  if fd < files.length then files.set fd (some f) else files ++ [some f]

/-- What a system call returns: a value (a descriptor, a count, 0 or an error), the bytes a `read` copied (their
number is its value), or the names a `getdents` filled in (its value is the size of their records, 0 for none). -/
inductive Ret where
  | val (r : Int)
  | bytes (b : List Char)
  | names (l : List String)
  deriving DecidableEq, Repr

/-- **`sys_open(filename, flags, mode)`**: the lowest free descriptor for the file `filp_open` makes, or the error.
`getname`'s checks, `RLIMIT_NOFILE` and the limit on open files are not modelled. -/
def sysOpen (s : Vfs) (st : Os) (cred : Cred) (path : List String) (flags : Nat) (dentryOk : Bool) :
    Option (Ret × Os) :=
  match filpOpen s cred path flags dentryOk with
  | none => none
  | some (.error e) => some (.val e, st)
  | some (.ok f) => some (.val (firstFree st.files), { st with files := fdInstall st.files (firstFree st.files) f })

/-! ## `read`, `write`, `getdents`, `close` -/

/-- `rw_verify_area`: at most `INT_MAX` bytes, and an end that fits in a `loff_t`. -/
def rwVerifyArea (pos count : Nat) : Int := if INT_MAX < count ∨ LLONG_MAX < pos + count then -EINVAL else 0

def Os.setFile (st : Os) (fd : Nat) (f : File) : Os := { st with files := st.files.set fd (some f) }

/-- **`sys_read(fd, buf, count)`**: `EBADF` for a descriptor not open or a file not open for reading, `EINVAL` for a
table without `read`; then `aufs_file_read` from `f_pos`, which moves past what it copied, or `generic_read_dir`. -/
def sysRead (st : Os) (fd count : Nat) : Option (Ret × Os) :=
  match st.files[fd]? with
  | some (some f) =>
    if f.fMode &&& FMODE_READ = 0 then some (.val (-EBADF), st)
    else match f.fOp with
      | .aufs =>
        let err := rwVerifyArea f.fPos count
        if err ≠ 0 then some (.val err, st)
        else
          let r := aufsFileRead st.enabled count f.fPos
          some (.bytes r.1, st.setFile fd { f with fPos := r.2 })
      | .simpleDir =>
        let err := rwVerifyArea f.fPos count
        if err ≠ 0 then some (.val err, st) else some (.val (-EISDIR), st)
      | .empty => some (.val (-EINVAL), st)
      | _ => none
  | _ => some (.val (-EBADF), st)

/-- **`sys_write(fd, buf, count)`**: `EBADF` for a descriptor not open or a file not open for writing, `EINVAL` for a
table without `write` (the directory operations have none); then `aufs_file_write`, which sets the flag and returns
`count`, leaving `f_pos` where it was, or oopses on a buffer it cannot load from. -/
def sysWrite (st : Os) (fd : Nat) (buffer : Option UserBuf) (count : Nat) : Option (Ret × Os) :=
  match st.files[fd]? with
  | some (some f) =>
    if f.fMode &&& FMODE_WRITE = 0 then some (.val (-EBADF), st)
    else match f.fOp with
      | .aufs =>
        let err := rwVerifyArea f.fPos count
        if err ≠ 0 then some (.val err, st)
        else
          match aufsFileWrite buffer count with
          | none => none
          | some r => some (.val r.1, { st with enabled := r.2 })
      | .simpleDir => some (.val (-EINVAL), st)
      | .empty => some (.val (-EINVAL), st)
      | _ => none
  | _ => some (.val (-EBADF), st)

/-- `NAME_OFFSET(dirent)`: where `d_name` starts in a `struct linux_dirent`, after `d_ino`, `d_off` and `d_reclen`, on
a 64-bit kernel. -/
def NAME_OFFSET : Nat := 18

/-- `ROUND_UP(x)`: up to a multiple of `sizeof(long)`. -/
def roundUp (x : Nat) : Nat := (x + 8 - 1) / 8 * 8

/-- The record `filldir` writes for a name: `ROUND_UP(NAME_OFFSET(dirent) + namlen + 2)`, room for the name, its
`NUL` and the type byte. -/
def direntReclen (name : String) : Nat := roundUp (NAME_OFFSET + name.utf8ByteSize + 2)

/-- The bytes the records of a list of names take. -/
def direntsSize : List String → Nat
  | [] => 0
  | name :: rest => direntReclen name + direntsSize rest

/-- **`filldir` on each entry `dcache_readdir` offers**, into a buffer with `count` bytes left: the entries whose
records fit, in order, up to the first that does not, which `filldir` refuses with `EINVAL` and which ends the
listing. -/
def fillDir (count : Nat) : List String → List String
  | [] => []
  | name :: rest => if count < direntReclen name then [] else name :: fillDir (count - direntReclen name) rest

/-- **`sys_getdents(fd, dirent, count)`**: `EBADF` for a descriptor not open or open with `O_PATH` (which
`fdget_pos` refuses); `ENOTDIR` for a table without `readdir`; then `dcache_readdir` offers the entries from `f_pos`
to `filldir`, and `f_pos` moves past those that fit.  The call returns their records' size, 0 when there was none to
offer, and `buf.error`, `EINVAL`, when the first did not fit.  The cursor `dcache_readdir` moves stands after the first
`f_pos - 2` children, since no child is added while user space lists; the user's buffer is taken as writable. -/
def sysGetdents (s : Vfs) (st : Os) (fd count : Nat) : Option (Ret × Os) :=
  match st.files[fd]? with
  | some (some f) =>
    if f.fMode &&& FMODE_PATH ≠ 0 then some (.val (-EBADF), st)
    else match f.fOp with
      | .simpleDir =>
        let rest := (dcacheReaddir s f.dentry).drop f.fPos
        let l := fillDir count rest
        if rest ≠ [] ∧ l = [] then some (.val (-EINVAL), st)
        else some (.names l, st.setFile fd { f with fPos := f.fPos + l.length })
      | .aufs => some (.val (-ENOTDIR), st)
      | .empty => some (.val (-ENOTDIR), st)
      | _ => none
  | _ => some (.val (-EBADF), st)

/-- **`sys_close(fd)`**: `EBADF` for a descriptor not open; else the descriptor is freed. -/
def sysClose (st : Os) (fd : Nat) : Ret × Os :=
  match st.files[fd]? with
  | some (some _) => (.val 0, { st with files := st.files.set fd none })
  | _ => (.val (-EBADF), st)

/-! ## The system -/

/-- A system call of one of the tasks. -/
inductive Syscall where
  | open (cred : Cred) (path : List String) (flags : Nat) (dentryOk : Bool)
  | read (fd count : Nat)
  | write (fd : Nat) (buffer : Option UserBuf) (count : Nat)
  | getdents (fd count : Nat)
  | close (fd : Nat)

/-- **One system call** on the mounted VFS `s`: what it returns, and the open files and flag it leaves. -/
def Os.step (s : Vfs) (st : Os) : Syscall → Option (Ret × Os)
  | .open cred path flags ok => sysOpen s st cred path flags ok
  | .read fd count => sysRead st fd count
  | .write fd buffer count => sysWrite st fd buffer count
  | .getdents fd count => sysGetdents s st fd count
  | .close fd => some (sysClose st fd)

/-- The states a sequence of system calls, each of which `P` allows, reaches on `s` from `Os.init`. -/
def Os.Reach (s : Vfs) (P : Syscall → Prop) (st : Os) : Prop :=
  Machine.Reach (· = Os.init) (fun st st' => ∃ ev r, P ev ∧ Os.step s st ev = some (r, st')) st

/-! ## What one call can do -/

section spec

variable {s : Vfs} {st st' : Os} {cred : Cred} {ok : Bool} {path : List String} {flag : Nat} {d : Nat}

/-- What a granted `may_open` checked: the inode, `permission` for the access, and that a directory is not opened
for writing. -/
theorem mayOpen_eq_zero {acc : Nat} (h : mayOpen cred s d acc flag = 0) :
    ∃ n, s.inodeOf d = some n ∧ permission cred n acc = 0 ∧
      ¬ (n.iMode &&& S_IFMT = S_IFDIR ∧ flag &&& FMODE_WRITE ≠ 0) := by
  unfold mayOpen at h
  split at h
  · exact absurd h (by decide)
  · rename_i n hn
    split at h
    · exact absurd h (by decide)
    split at h
    · exact absurd h (by decide)
    rename_i hdir
    refine ⟨n, hn, ?_, hdir⟩
    by_contra hp
    simp only [hp, ne_eq, not_false_eq_true, if_true] at h

/-- An error every walk from the root ends in is what `open_namei` returns, with or without `O_CREAT`. -/
theorem openNamei_of_walk {e : Int} (h : ∀ F, linkPathWalk cred ok F s 0 path = some (.error e)) :
    openNamei cred ok s path flag = some (.error e) := by
  unfold openNamei
  by_cases hc : flag &&& O_CREAT = 0
  · simp only [hc, if_true, h]
  · simp only [hc, if_false, h]

/-- A dentry found without `O_CREAT` and that `may_open` grants is what `open_namei` returns. -/
theorem openNamei_of_found (hw : linkPathWalk cred ok (lookupFlags flag) s 0 path = some (.ok d))
    (hc : flag &&& O_CREAT = 0)
    (hm : mayOpen cred s d (accMode flag ||| (if flag &&& O_APPEND ≠ 0 then MAY_APPEND else 0)) flag = 0) :
    openNamei cred ok s path flag = some (.ok d) := by
  simp only [openNamei, hc, if_true, hw, hm, ne_eq, not_true_eq_false, if_false]

/-- `may_open` of an inode that is no link, opened for writing only if no directory, is `permission`'s, without
`O_NOATIME`. -/
theorem mayOpen_of_perm {n : Inode} {acc : Nat} (hn : s.inodeOf d = some n) (hl : ¬ n.iMode &&& S_IFMT = S_IFLNK)
    (hd : ¬ (n.iMode &&& S_IFMT = S_IFDIR ∧ flag &&& FMODE_WRITE ≠ 0)) (hp : permission cred n acc = 0)
    (ha : flag &&& O_NOATIME = 0) : mayOpen cred s d acc flag = 0 := by
  simp [mayOpen, hn, hl, hd, hp, ha]

/-- Without `O_PATH`, the dentry `open_namei` gives goes to `__dentry_open` with its inode. -/
theorem filpOpen_of_namei {n : Inode} (hp : flag &&& O_PATH = 0)
    (hd : openNamei cred ok s path (nameiFlags flag) = some (.ok d)) (hn : s.inodeOf d = some n) :
    filpOpen s cred path flag ok = dentryOpen ok d n flag := by
  simp only [filpOpen, hp, ne_eq, not_true_eq_false, if_false, hd, hn]

/-- **A read-only open of an inode every class may read**, found by the walk: the lowest free descriptor, on a file
open for reading at offset 0 with the inode's operations. -/
theorem sysOpen_readonly {n : Inode}
    (hw : linkPathWalk cred true (lookupFlags (nameiFlags 0)) s 0 path = some (.ok d)) (hn : s.inodeOf d = some n)
    (hl : ¬ n.iMode &&& S_IFMT = S_IFLNK) (hr : n.iMode &&& 0o444 = 0o444)
    (hf : n.iFop = .simpleDir ∨ n.iFop = .aufs) :
    sysOpen s st cred path 0 true = some (.val (firstFree st.files),
      { st with files := fdInstall st.files (firstFree st.files) ⟨d, FMODE_READ, n.iFop, 0⟩ }) := by
  have hacc : accMode (nameiFlags 0) ||| (if nameiFlags 0 &&& O_APPEND ≠ 0 then MAY_APPEND else 0) = MAY_READ := by
    decide
  have hm : mayOpen cred s d MAY_READ (nameiFlags 0) = 0 :=
    mayOpen_of_perm hn hl (fun h => h.2 (by decide)) (permission_read hr) (by decide)
  rw [← hacc] at hm
  have hdo : dentryOpen true d n 0 = some (.ok ⟨d, FMODE_READ, n.iFop, 0⟩) := by
    rcases hf with hf | hf <;> simp [dentryOpen, hf, O_DIRECT, O_ACCMODE, FMODE_READ]
  rw [sysOpen, filpOpen_of_namei (by decide) (openNamei_of_found hw (by decide) hm) hn, hdo]

theorem openLast_ok {dir : Nat} {last : String} {acc : Nat} (h : openLast cred ok s dir last flag acc = some (.ok d)) :
    ∃ n, s.inodeOf d = some n ∧ permission cred n acc = 0 ∧
      ¬ (n.iMode &&& S_IFMT = S_IFDIR ∧ flag &&& FMODE_WRITE ≠ 0) ∧ dLookup s dir last = some d := by
  unfold openLast at h
  cases hdir : s.inodeOf dir with
  | none =>
    rw [hdir] at h
    cases h
  | some dirInode =>
    rw [hdir] at h
    dsimp only at h
    by_cases hx : permission cred dirInode MAY_EXEC = 0
    · rw [if_neg (not_not.2 hx)] at h
      cases hl : dLookup s dir last with
      | none =>
        -- a name the cache does not have is created, and `vfs_create` refuses
        rw [hl] at h
        split_ifs at h <;> cases h
      | some d' =>
        rw [hl] at h
        dsimp only at h
        cases hn : s.inodeOf d' with
        | none =>
          rw [hn] at h
          cases h
        | some inode =>
          rw [hn] at h
          dsimp only at h
          -- only the branch past `may_open` gives the dentry
          split_ifs at h with h₁ h₂ h₃ <;> cases h
          obtain ⟨n, hn', hp, hd⟩ := mayOpen_eq_zero (of_not_not h₃)
          exact ⟨n, hn', hp, hd, rfl⟩
    · rw [if_pos hx] at h
      cases h

/-- **A dentry `open_namei` gives has passed `permission`** for what the open asks, and is where the walk ends or a
name `d_lookup` finds. -/
theorem openNamei_ok (h : openNamei cred ok s path flag = some (.ok d)) :
    ∃ n, s.inodeOf d = some n ∧
      permission cred n (accMode flag ||| (if flag &&& O_APPEND ≠ 0 then MAY_APPEND else 0)) = 0 ∧
      ¬ (n.iMode &&& S_IFMT = S_IFDIR ∧ flag &&& FMODE_WRITE ≠ 0) ∧
      (linkPathWalk cred ok (lookupFlags flag) s 0 path = some (.ok d) ∨ ∃ dir last, dLookup s dir last = some d) := by
  unfold openNamei at h
  dsimp only at h
  generalize accMode flag ||| (if flag &&& O_APPEND ≠ 0 then MAY_APPEND else 0) = acc at h ⊢
  split at h
  · -- without `O_CREAT`: the walk, then `may_open`
    split at h
    · rename_i d' hw
      by_cases hm : mayOpen cred s d' acc flag = 0
      · rw [if_neg (not_not.2 hm)] at h
        obtain rfl : d' = d := Except.ok.inj (Option.some.inj h)
        obtain ⟨n, hn, hp, hd⟩ := mayOpen_eq_zero hm
        exact ⟨n, hn, hp, hd, .inl hw⟩
      · rw [if_pos hm] at h
        cases h
    · rename_i hr
      exact absurd h (hr d)
  · split at h
    · split at h
      · cases h
      · split at h
        · cases h
        · obtain ⟨n, hn, hp, hd, hl⟩ := openLast_ok h
          exact ⟨n, hn, hp, hd, .inr ⟨_, _, hl⟩⟩
    · rename_i hr
      exact absurd h (hr d)

theorem lookupFlags_parent (flag : Nat) : lookupFlags flag &&& LOOKUP_PARENT = 0 := by
  unfold lookupFlags
  split_ifs <;> decide

theorem nameiFlags_accmode {flags : Nat} (h : (flags + 1) &&& O_ACCMODE = 2 ∨ (flags + 1) &&& O_ACCMODE = 3) :
    nameiFlags flags &&& O_ACCMODE = (flags + 1) &&& O_ACCMODE := by
  have hne : (flags + 1) &&& O_ACCMODE ≠ 0 := by
    rcases h with h | h <;> rw [h] <;> decide
  unfold nameiFlags
  simp only [hne, ne_eq, not_false_eq_true, if_true]
  split
  · -- `O_TRUNC` adds the write bit the access mode already has
    rw [Nat.and_or_distrib_right]
    rcases h with h | h <;> rw [h] <;> decide
  · rfl

/-- **A file open for writing was checked for a write**: the access modes that give `FMODE_WRITE` ask `may_open` for
`MAY_WRITE`. -/
theorem fmode_write_cases {flags : Nat} (h : (flags + 1) &&& O_ACCMODE &&& FMODE_WRITE ≠ 0) :
    (flags + 1) &&& O_ACCMODE = 2 ∨ (flags + 1) &&& O_ACCMODE = 3 := by
  have hle : (flags + 1) &&& O_ACCMODE ≤ 3 := Nat.and_le_right
  generalize (flags + 1) &&& O_ACCMODE = v at h hle ⊢
  rcases (by omega : v = 0 ∨ v = 1 ∨ v = 2 ∨ v = 3) with rfl | rfl | rfl | rfl
  · exact absurd h (by decide)
  · exact absurd h (by decide)
  · exact .inl rfl
  · exact .inr rfl

theorem accMode_write_of_fmode {flags : Nat} (h : (flags + 1) &&& O_ACCMODE &&& FMODE_WRITE ≠ 0) :
    (accMode (nameiFlags flags) ||| (if nameiFlags flags &&& O_APPEND ≠ 0 then MAY_APPEND else 0)) &&& MAY_WRITE ≠ 0 := by
  have hv := fmode_write_cases h
  have hacc : accMode (nameiFlags flags) &&& MAY_WRITE = MAY_WRITE := by
    unfold accMode
    rw [nameiFlags_accmode hv]
    rcases hv with hv | hv <;> rw [hv] <;> decide
  rw [Nat.and_or_distrib_right, hacc]
  intro h0
  exact absurd (Nat.or_eq_zero_iff.1 h0).1 (by decide)

theorem dentryOpen_ok {n : Inode} {f : File} (h : dentryOpen ok d n flag = some (.ok f)) :
    f = ⟨d, (flag + 1) &&& O_ACCMODE, n.iFop, 0⟩ := by
  unfold dentryOpen at h
  dsimp only at h
  split at h <;> try cases h
  all_goals
    first
    | (split at h
       · cases h
       · split at h
         · cases h
         · exact (Except.ok.inj (Option.some.inj h)).symm)
    | (split at h
       · cases h
       · exact (Except.ok.inj (Option.some.inj h)).symm)

/-- An error every walk from the root ends in is what `filp_open` returns, with or without `O_PATH` and `O_CREAT`. -/
theorem filpOpen_of_walk {e : Int} (h : ∀ F, linkPathWalk cred ok F s 0 path = some (.error e)) :
    filpOpen s cred path flag ok = some (.error e) := by
  unfold filpOpen
  split_ifs
  · rw [h]
  · rw [openNamei_of_walk h]

/-- **The two files `filp_open` makes**: with `O_PATH`, a file with `FMODE_PATH` and `empty_fops` where the walk ends;
without it, a file on the dentry `open_namei` gave, with the access mode's bits and the inode's `i_fop`. -/
theorem filpOpen_ok {f : File} (h : filpOpen s cred path flag ok = some (.ok f)) :
    (flag &&& O_PATH ≠ 0 ∧ ∃ d, linkPathWalk cred ok (lookupFlags (flag &&& (O_DIRECTORY ||| O_NOFOLLOW ||| O_PATH)))
        s 0 path = some (.ok d) ∧ f = ⟨d, FMODE_PATH, .empty, 0⟩) ∨
    (flag &&& O_PATH = 0 ∧ ∃ d n, openNamei cred ok s path (nameiFlags flag) = some (.ok d) ∧ s.inodeOf d = some n ∧
      f = ⟨d, (flag + 1) &&& O_ACCMODE, n.iFop, 0⟩) := by
  unfold filpOpen at h
  split_ifs at h with hp
  · left
    refine ⟨hp, ?_⟩
    split at h
    · cases h
    · cases h
    · rename_i d hw
      exact ⟨d, hw, (Except.ok.inj (Option.some.inj h)).symm⟩
  · right
    refine ⟨not_not.1 hp, ?_⟩
    split at h
    · cases h
    · cases h
    · rename_i d hd
      split at h
      · cases h
      · rename_i n hn
        exact ⟨d, n, hd, hn, dentryOpen_ok h⟩

theorem sysOpen_cases {r : Ret} (h : sysOpen s st cred path flag ok = some (r, st')) :
    st' = st ∨ ∃ f, filpOpen s cred path flag ok = some (.ok f) ∧
      st' = { st with files := fdInstall st.files (firstFree st.files) f } := by
  unfold sysOpen at h
  split at h
  · cases h
  · exact .inl (Prod.mk.inj (Option.some.inj h)).2.symm
  · rename_i f hf
    exact .inr ⟨f, hf, (Prod.mk.inj (Option.some.inj h)).2.symm⟩

theorem sysRead_cases {fd count : Nat} {r : Ret} (h : sysRead st fd count = some (r, st')) :
    st' = st ∨ ∃ f k, st.files[fd]? = some (some f) ∧ st' = st.setFile fd { f with fPos := k } := by
  unfold sysRead at h
  split at h
  · rename_i f hf
    split at h
    · exact .inl (Prod.mk.inj (Option.some.inj h)).2.symm
    split at h
    · dsimp only at h
      split at h
      · exact .inl (Prod.mk.inj (Option.some.inj h)).2.symm
      · exact .inr ⟨f, _, hf, (Prod.mk.inj (Option.some.inj h)).2.symm⟩
    · dsimp only at h
      split at h <;> exact .inl (Prod.mk.inj (Option.some.inj h)).2.symm
    · exact .inl (Prod.mk.inj (Option.some.inj h)).2.symm
    · cases h
  · exact .inl (Prod.mk.inj (Option.some.inj h)).2.symm

/-- A write that reaches `aufs_file_write` read its buffer, and sets the flag from the first byte. -/
theorem sysWrite_cases {fd count : Nat} {buffer : Option UserBuf} {r : Ret}
    (h : sysWrite st fd buffer count = some (r, st')) :
    st' = st ∨ ∃ f b, buffer = some b ∧ st.files[fd]? = some (some f) ∧ f.fOp = .aufs ∧
      f.fMode &&& FMODE_WRITE ≠ 0 ∧ st' = { st with enabled := if b.head = 48 then 0 else 1 } := by
  unfold sysWrite at h
  split at h
  · rename_i f hf
    split at h
    · exact .inl (Prod.mk.inj (Option.some.inj h)).2.symm
    · rename_i hw
      split at h
      · rename_i hop
        dsimp only at h
        split at h
        · exact .inl (Prod.mk.inj (Option.some.inj h)).2.symm
        · split at h
          · cases h
          · rename_i w hr
            cases buffer with
            | none => cases hr
            | some b =>
              rw [aufsFileWrite_some] at hr
              obtain rfl := Option.some.inj hr
              exact .inr ⟨f, b, rfl, hf, hop, hw, (Prod.mk.inj (Option.some.inj h)).2.symm⟩
      · exact .inl (Prod.mk.inj (Option.some.inj h)).2.symm
      · exact .inl (Prod.mk.inj (Option.some.inj h)).2.symm
      · cases h
  · exact .inl (Prod.mk.inj (Option.some.inj h)).2.symm

/-- Only a `getdents` on a directory moves a file. -/
theorem sysGetdents_cases {fd count : Nat} {r : Ret} (h : sysGetdents s st fd count = some (r, st')) :
    st' = st ∨ ∃ f k, st.files[fd]? = some (some f) ∧ f.fOp = .simpleDir ∧ st' = st.setFile fd { f with fPos := k } := by
  unfold sysGetdents at h
  split at h
  · rename_i f hf
    split at h
    · exact .inl (Prod.mk.inj (Option.some.inj h)).2.symm
    split at h
    · rename_i hop
      dsimp only at h
      split at h
      · exact .inl (Prod.mk.inj (Option.some.inj h)).2.symm
      · exact .inr ⟨f, _, hf, hop, (Prod.mk.inj (Option.some.inj h)).2.symm⟩
    · exact .inl (Prod.mk.inj (Option.some.inj h)).2.symm
    · exact .inl (Prod.mk.inj (Option.some.inj h)).2.symm
    · cases h
  · exact .inl (Prod.mk.inj (Option.some.inj h)).2.symm

theorem sysClose_cases {fd : Nat} : (sysClose st fd).2 = st ∨ (sysClose st fd).2 = { st with files := st.files.set fd none } := by
  unfold sysClose
  split
  · exact .inr rfl
  · exact .inl rfl

/-- **What one system call does** to the open files and the flag: nothing; a new open file at the lowest free
descriptor, the one `filp_open` made; a file moved to another position; the flag set by `aufs_file_write` from a
buffer it read, through a file open for writing with `aufs_file_operations`; or a descriptor freed. -/
theorem Os.step_cases {ev : Syscall} {r : Ret} (h : Os.step s st ev = some (r, st')) :
    st' = st ∨
    (∃ cred path flags ok f, ev = .open cred path flags ok ∧ filpOpen s cred path flags ok = some (.ok f) ∧
      st' = { st with files := fdInstall st.files (firstFree st.files) f }) ∨
    (∃ fd f k, st.files[fd]? = some (some f) ∧ st' = st.setFile fd { f with fPos := k }) ∨
    (∃ fd b count f, ev = .write fd (some b) count ∧ st.files[fd]? = some (some f) ∧ f.fOp = .aufs ∧
      f.fMode &&& FMODE_WRITE ≠ 0 ∧ st' = { st with enabled := if b.head = 48 then 0 else 1 }) ∨
    (∃ fd, st' = { st with files := st.files.set fd none }) := by
  cases ev with
  | «open» cred path flags ok =>
    rcases sysOpen_cases h with h | ⟨f, hf, rfl⟩
    · exact .inl h
    · exact .inr (.inl ⟨cred, path, flags, ok, f, rfl, hf, rfl⟩)
  | read fd count =>
    rcases sysRead_cases h with h | ⟨f, k, hf, rfl⟩
    · exact .inl h
    · exact .inr (.inr (.inl ⟨fd, f, k, hf, rfl⟩))
  | write fd buffer count =>
    rcases sysWrite_cases h with h | ⟨f, b, rfl, hf, hop, hw, rfl⟩
    · exact .inl h
    · exact .inr (.inr (.inr (.inl ⟨fd, b, count, f, rfl, hf, hop, hw, rfl⟩)))
  | getdents fd count =>
    rcases sysGetdents_cases h with h | ⟨f, k, hf, -, rfl⟩
    · exact .inl h
    · exact .inr (.inr (.inl ⟨fd, f, k, hf, rfl⟩))
  | close fd =>
    have h' : (sysClose st fd).2 = st' := congrArg Prod.snd (Option.some.inj h)
    obtain h | h : (sysClose st fd).2 = st ∨ (sysClose st fd).2 = { st with files := st.files.set fd none } :=
      sysClose_cases
    · exact .inl (h'.symm.trans h)
    · exact .inr (.inr (.inr (.inr ⟨fd, h'.symm.trans h⟩)))

end spec

/-! ## `getdents` -/

/-- What `filldir` fits is where the listing goes on. -/
theorem fillDir_prefix : ∀ (count : Nat) (l : List String), fillDir count l <+: l
  | _, [] => List.nil_prefix
  | count, name :: rest => by
    unfold fillDir
    split
    · exact List.nil_prefix
    · exact List.cons_prefix_cons.2 ⟨rfl, fillDir_prefix _ rest⟩

/-- **A buffer that holds every record gets every entry.** -/
theorem fillDir_of_le : ∀ {count : Nat} {l : List String}, direntsSize l ≤ count → fillDir count l = l
  | _, [], _ => rfl
  | count, name :: rest, h => by
    simp only [direntsSize] at h
    rw [fillDir, if_neg (by omega), fillDir_of_le (by omega)]

/-- The records take the same bytes in any order. -/
theorem direntsSize_perm {l l' : List String} (h : l.Perm l') : direntsSize l = direntsSize l' := by
  induction h with
  | nil => rfl
  | cons x _ ih => simp [direntsSize, ih]
  | swap x y l =>
    simp only [direntsSize]
    omega
  | trans _ _ ih₁ ih₂ => exact ih₁.trans ih₂

theorem Os.getElem?_setFile_self {st : Os} {fd : Nat} {f : File} (hf : st.files[fd]? = some (some f)) (g : File) :
    (st.setFile fd g).files[fd]? = some (some g) :=
  List.getElem?_set_self (List.getElem?_eq_some_iff.1 hf).1

section getdents

variable {s : Vfs} {st st' : Os} {fd count : Nat} {f : File}

/-- **`getdents` on a directory descriptor**: a value and nothing else (`EBADF` through an `O_PATH` descriptor,
`EINVAL` when the next record does not fit), or the names `filldir` fitted: the listing's next ones, none only at its
end, with the offset moved past them. -/
theorem sysGetdents_dir {r : Ret} (hf : st.files[fd]? = some (some f)) (hop : f.fOp = .simpleDir)
    (h : sysGetdents s st fd count = some (r, st')) :
    (∃ e, r = .val e ∧ st' = st) ∨
    ∃ l, r = .names l ∧ l <+: (dcacheReaddir s f.dentry).drop f.fPos ∧
      (l = [] → (dcacheReaddir s f.dentry).drop f.fPos = []) ∧ st' = st.setFile fd { f with fPos := f.fPos + l.length } := by
  simp only [sysGetdents, hf, hop] at h
  split_ifs at h with hp he
  · obtain ⟨rfl, rfl⟩ := Prod.mk.inj (Option.some.inj h)
    exact .inl ⟨_, rfl, rfl⟩
  · obtain ⟨rfl, rfl⟩ := Prod.mk.inj (Option.some.inj h)
    exact .inl ⟨_, rfl, rfl⟩
  · obtain ⟨rfl, rfl⟩ := Prod.mk.inj (Option.some.inj h)
    refine .inr ⟨_, rfl, fillDir_prefix _ _, fun hl => ?_, by rw [hop]⟩
    by_contra hr
    exact he ⟨hr, hl⟩

/-- **A buffer that holds the rest of the listing gets all of it**, and the offset moves to the end. -/
theorem sysGetdents_fits (hf : st.files[fd]? = some (some f)) (hop : f.fOp = .simpleDir)
    (hp : f.fMode &&& FMODE_PATH = 0) (hc : direntsSize ((dcacheReaddir s f.dentry).drop f.fPos) ≤ count) :
    sysGetdents s st fd count = some (.names ((dcacheReaddir s f.dentry).drop f.fPos),
      st.setFile fd { f with fPos := f.fPos + ((dcacheReaddir s f.dentry).drop f.fPos).length }) := by
  simp [sysGetdents, hf, hop, hp, fillDir_of_le hc]

/-- **Two `getdents` with a buffer that holds the rest of the listing**: the first gets all of it, the second
nothing. -/
theorem sysGetdents_twice (hf : st.files[fd]? = some (some f)) (hop : f.fOp = .simpleDir)
    (hp : f.fMode &&& FMODE_PATH = 0) (hc : direntsSize ((dcacheReaddir s f.dentry).drop f.fPos) ≤ count) :
    ∃ st₁ st₂, sysGetdents s st fd count = some (.names ((dcacheReaddir s f.dentry).drop f.fPos), st₁) ∧
      sysGetdents s st₁ fd count = some (.names [], st₂) := by
  have hend : (dcacheReaddir s f.dentry).drop (f.fPos + ((dcacheReaddir s f.dentry).drop f.fPos).length) = [] :=
    List.drop_eq_nil_of_le (by rw [List.length_drop]; omega)
  have hf₁ := Os.getElem?_setFile_self hf
    { f with fPos := f.fPos + ((dcacheReaddir s f.dentry).drop f.fPos).length }
  have h₂ := sysGetdents_fits (s := s) hf₁ hop hp (show direntsSize _ ≤ count by dsimp only; rw [hend]; exact Nat.zero_le _)
  dsimp only at h₂
  rw [hend] at h₂
  exact ⟨_, _, sysGetdents_fits hf hop hp hc, h₂⟩

end getdents

theorem rwVerifyArea_of_le {pos count : Nat} (hp : pos ≤ INT_MAX) (hc : count ≤ INT_MAX) :
    rwVerifyArea pos count = 0 := by
  unfold rwVerifyArea INT_MAX LLONG_MAX at *
  rw [if_neg (by omega)]

section write

variable {st : Os} {fd count : Nat} {f : File}

/-- **A write from a pointer the kernel cannot load from oopses** through a descriptor open for writing on an aufs
file: `aufs_file_write` dereferences it. -/
theorem sysWrite_fault (hf : st.files[fd]? = some (some f)) (hop : f.fOp = .aufs)
    (hw : f.fMode &&& FMODE_WRITE ≠ 0) (hv : rwVerifyArea f.fPos count = 0) : sysWrite st fd none count = none := by
  simp only [sysWrite, hf, hw, hop, hv, if_false, ne_eq, not_true_eq_false]
  rfl

end write

theorem sysRead_dir {st : Os} {fd count : Nat} {f : File} (hf : st.files[fd]? = some (some f))
    (hop : f.fOp = .simpleDir) : ∃ e, sysRead st fd count = some (.val e, st) := by
  unfold sysRead
  simp only [hf, hop]
  split_ifs <;> exact ⟨_, rfl⟩

/-! ## Descriptors -/

theorem getElem?_firstFree : ∀ files : List (Option File),
    files[firstFree files]? = some none ∨ files[firstFree files]? = none
  | [] => .inr rfl
  | none :: _ => .inl rfl
  | some _ :: fs => by simpa [firstFree] using getElem?_firstFree fs

theorem firstFree_le : ∀ files : List (Option File), firstFree files ≤ files.length
  | [] => Nat.le_refl 0
  | none :: _ => Nat.zero_le _
  | some _ :: fs => Nat.succ_le_succ (firstFree_le fs)

/-- **`open` takes no descriptor in use**: installing at the lowest free one leaves every open one as it was. -/
theorem fdInstall_firstFree {files : List (Option File)} {fd : Nat} {f g : File} (hf : files[fd]? = some (some f)) :
    (fdInstall files (firstFree files) g)[fd]? = some (some f) := by
  have hne : firstFree files ≠ fd := by
    rintro rfl
    rcases getElem?_firstFree files with h | h <;> rw [h] at hf <;> cases hf
  have hlt : fd < files.length := (List.getElem?_eq_some_iff.1 hf).1
  unfold fdInstall
  split
  · rw [List.getElem?_set_ne hne]
    exact hf
  · rw [List.getElem?_append_left hlt]
    exact hf

theorem fdInstall_firstFree_self (files : List (Option File)) (f : File) :
    (fdInstall files (firstFree files) f)[firstFree files]? = some (some f) := by
  unfold fdInstall
  split
  · rename_i h
    exact List.getElem?_set_self h
  · rename_i h
    have he : firstFree files = files.length := Nat.le_antisymm (firstFree_le files) (Nat.le_of_not_lt h)
    rw [he, List.getElem?_append_right (Nat.le_refl _), Nat.sub_self]
    rfl


/-! ## The open files -/

/-- Every open file has `P`. -/
def Os.FilesOk (P : File → Prop) (st : Os) : Prop := ∀ (fd : Nat) (f : File), st.files[fd]? = some (some f) → P f

section files

variable {P : File → Prop} {st : Os} {f : File}

theorem Os.filesOk_init : Os.init.FilesOk P := fun _ _ h => by simp [Os.init] at h

theorem Os.FilesOk.install (hF : st.FilesOk P) (hf : P f) (fd : Nat) :
    ({ st with files := fdInstall st.files fd f } : Os).FilesOk P := by
  intro i g hg
  simp only [fdInstall] at hg
  split at hg
  · rcases Table.getElem?_set_eq_some hg with ⟨-, h⟩ | h
    · rw [Option.some.inj h]
      exact hf
    · exact hF i g h
  · rcases Table.getElem?_append_singleton_eq_some hg with h | ⟨-, h⟩
    · exact hF i g h
    · rw [Option.some.inj h]
      exact hf

theorem Os.FilesOk.setFile (hF : st.FilesOk P) (hf : P f) (fd : Nat) : (st.setFile fd f).FilesOk P := by
  intro i g hg
  rcases Table.getElem?_set_eq_some hg with ⟨-, h⟩ | h
  · rw [Option.some.inj h]
    exact hf
  · exact hF i g h

theorem Os.FilesOk.close (hF : st.FilesOk P) (fd : Nat) : ({ st with files := st.files.set fd none } : Os).FilesOk P := by
  intro i g hg
  rcases Table.getElem?_set_eq_some hg with ⟨-, h⟩ | h
  · cases h
  · exact hF i g h

end files

end Aufs
