import Aufs.Kernel
/-!
# Create — `node.h`, `dentry.h`, the creating half of `file.h`, `supper.h`

The path every file and directory of aufs is made by: `aufs_create_file` asks `aufs_create_by_name`, which finds the
parent (the superblock's root for `NULL`), looks the name up and hands the dentry to `aufs_mkdir` or `aufs_create`;
both end in `aufs_mknod`, which gets an inode from `aufs_get_inode` and binds it.  Each definition is the function of
the same name, one to one; the out-parameter `struct dentry **dentry` is its address and what it holds, because
`aufs_create_by_name` tests the address itself with `IS_ERR`.
-/
namespace Aufs

/-! ## `node.h` -/

/-- What `aufs_get_inode` writes into the inode `new_inode` gave it: the mode (the 16 bits of `umode_t`), the calling
task's `fsuid` and `fsgid`, no blocks, access and modification times copied from the change time; then, by the mode's
type, nothing more for a regular file, the directory operations and a second link for a directory,
`init_special_inode` otherwise. -/
def aufsInodeSetup (env : Env) (mode dev : Nat) (inode : Inode) : Inode :=
  let inode := { inode with
    iMode := mode &&& 0xffff, iUid := env.fsuid, iGid := env.fsgid, iBlocks := 0, iAtime := inode.iCtime,
    iMtime := inode.iCtime }
  if mode &&& S_IFMT = S_IFREG then inode
  else if mode &&& S_IFMT = S_IFDIR then
    { inode with iOp := .simpleDir, iFop := .simpleDir, iNlink := inode.iNlink + 1 }
  else initSpecialInode inode (mode &&& 0xffff) dev

/-- `aufs_get_inode(sb, mode, dev)`: the new inode's index, or `NULL`. -/
def aufsGetInode (env : Env) (mode dev : Nat) (s : Vfs) : Option Nat × Vfs :=
  match newInode env s with
  | (none, s) => (none, s)
  | (some i, s) => (some i, s.modifyInode i (aufsInodeSetup env mode dev))

/-- **`aufs_mknod(dir, dentry, mode, dev)`**: `EEXIST` for a positive dentry; else a new inode bound to the dentry,
which takes one more reference, or `EPERM` when `aufs_get_inode` has none.  Oopses when `dentry` is not a dentry,
and when `dir` is `NULL` once it is read (`dir->i_sb`). -/
def aufsMknod (env : Env) (dir : Option Nat) (dentry : Ptr) (mode dev : Nat) (s : Vfs) : Option (Int × Vfs) :=
  match dentry with
  | .obj d =>
    match s.dentries[d]? with
    | none => none
    | some e =>
      if e.dInode.isSome then some (-EEXIST, s)
      else match dir with
        | none => none
        | some _ =>
          match aufsGetInode env mode dev s with
          | (some i, s) => some (0, dget (dInstantiate s d i) d)
          | (none, s) => some (-EPERM, s)
  | _ => none

/-- `aufs_mkdir(dir, dentry, mode)`: `aufs_mknod` as a directory, and on success one more link on `dir`. -/
def aufsMkdir (env : Env) (dir : Option Nat) (dentry : Ptr) (mode : Nat) (s : Vfs) : Option (Int × Vfs) :=
  match aufsMknod env dir dentry (mode ||| S_IFDIR) 0 s with
  | none => none
  | some (res, s) =>
    if res = 0 then
      match dir with
      | some i => some (res, s.modifyInode i (fun n => { n with iNlink := n.iNlink + 1 }))
      | none => none
    else some (res, s)

/-- `aufs_create(dir, dentry, mode)`: `aufs_mknod` as a regular file. -/
def aufsCreate (env : Env) (dir : Option Nat) (dentry : Ptr) (mode : Nat) (s : Vfs) : Option (Int × Vfs) :=
  aufsMknod env dir dentry (mode ||| S_IFREG) 0 s

/-! ## `dentry.h` -/

/-- **`aufs_create_by_name(name, mode, parent, dentry)`**, with `dentry` the address of the caller's variable and
`out` what it holds; returns the error and what the variable holds after.  The lookup gets `strlen(name)`
characters, the name up to its first `NUL`.  A `NULL` parent is
`aufs_mount->mnt_sb->s_root`, and `EFAULT` when that is `NULL` too.  The `IS_ERR` test is on `dentry`, the
variable's address, as the source has it, and `PTR_ERR` reads that address back. -/
def aufsCreateByName (env : Env) (name : String) (mode : Nat) (parent dentry out : Ptr) (s : Vfs) :
    Option (Int × Ptr × Vfs) :=
  let parent := if parent = .null then (match s.sRoot with | some r => Ptr.obj r | none => .null) else parent
  match parent with
  | .null => some (-EFAULT, out, s)
  | .err _ => none
  | .obj p =>
    match lookupOneLen env (cString name) p s with
    | none => none
    | some (found, s) =>
      if !isErr dentry then
        let dir := (s.dentries[p]?).bind (·.dInode)
        let r := if mode &&& S_IFMT = S_IFDIR then aufsMkdir env dir found mode s else aufsCreate env dir found mode s
        r.map (fun r => (r.1, found, r.2))
      else some (ptrErr dentry, found, s)

/-! ## `file.h`: creating -/

/-- **`aufs_create_file(name, mode, parent, data, fops)`**: the new dentry, or `NULL` on any error.  A positive
result gets `data` as its inode's private data and `fops` as its file operations, each only when not `NULL`. -/
def aufsCreateFile (env : Env) (name : String) (mode : Nat) (parent : Ptr) (data : Option Nat)
    (fops : Option Fops) (s : Vfs) : Option (Ptr × Vfs) :=
  match aufsCreateByName env name mode parent (.obj env.frame) .null s with
  | none => none
  | some (error, dentry, s) =>
    if error ≠ 0 then some (.null, s)
    else match dentry with
      | .obj d =>
        match s.dentries[d]? with
        | none => none
        | some e =>
          match e.dInode with
          | none => some (dentry, s)
          | some i =>
            let s := if data.isSome then s.modifyInode i (fun n => { n with iPrivate := data }) else s
            let s := match fops with
              | some f => s.modifyInode i (fun n => { n with iFop := f })
              | none => s
            some (dentry, s)
      | _ => none

/-- `aufs_create_dir(name, parent)`: a directory, `S_IRWXU | S_IRUGO`, with no data and no file operations. -/
def aufsCreateDir (env : Env) (name : String) (parent : Ptr) (s : Vfs) : Option (Ptr × Vfs) :=
  aufsCreateFile env name (S_IFDIR ||| S_IRWXU ||| S_IRUGO) parent none none s

/-! ## `supper.h` -/

/-- `aufs_fill_super(sb, data, silent)`: `simple_fill_super` with `AUFS_MAGIC` and the empty table `{{""}}`. -/
def aufsFillSuper (env : Env) (now : Nat) : Except Int Vfs := simpleFillSuper env now

/-- `aufs_get_sb(fs_type, flags, dev_name, data)`: `mount_single` with `aufs_fill_super`, which returns the root with
one more reference (`dget(s->s_root)`). -/
def aufsGetSb (env : Env) (now : Nat) : Except Int Vfs :=
  match aufsFillSuper env now with
  | .ok s => .ok (dget s 0)
  | .error e => .error e

end Aufs
