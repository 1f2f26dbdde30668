import Aufs.Run
/-!
# ErrPtr — a lookup that fails

`aufs_create_by_name` stores what `lookup_one_len` returns through its out-parameter `dentry` and then tests
`IS_ERR(dentry)`: the out-parameter itself, the address of `aufs_create_file`'s local variable, which is never an error
pointer.  So an error pointer from the lookup goes on to `aufs_mkdir` or `aufs_create`, and `aufs_mknod` reads
`dentry->d_inode` through it: the call oopses instead of returning `NULL` (`aufsCreateFile_of_lookup_err`).  Every name
the lookup refuses is such a case (`aufsCreateFile_of_badName`), the empty one among them (`create_empty_name_oops`).
-/
namespace Aufs

section

variable {s s₁ : Vfs} {env : Env} {name : String} {mode : Nat} {parent : Ptr} {data : Option Nat}
  {fops : Option Fops} {p : Nat} {e : Int}

theorem aufsMknod_err (dir : Option Nat) (m dev : Nat) : aufsMknod env dir (.err e) m dev s = none := rfl

/-- **Every lookup error oopses `aufs_create_file`**, whichever the mode, the data and the operations. -/
theorem aufsCreateFile_of_lookup_err (hp : parentOf s parent = some p)
    (hl : lookupOneLen env (cString name) p s = some (.err e, s₁)) :
    aufsCreateFile env name mode parent data fops s = none := by
  unfold aufsCreateFile
  rw [aufsCreateByName_of_lookup hp hl]
  by_cases hd : mode &&& S_IFMT = S_IFDIR
  · simp [hd, aufsMkdir, aufsMknod_err]
  · simp [hd, aufsCreate, aufsMknod_err]

theorem lookupOneLen_badName {dir : Inode} (hdir : s.inodeOf p = some dir) (hb : badName name = true) :
    lookupOneLen env name p s = some (errPtr (-EACCES), s) := by
  simp [lookupOneLen, hdir, hb]

/-- **A refused name oopses `aufs_create_file` under any parent that has an inode**: a name whose characters up to
its first `NUL` are refused, since the lookup gets `strlen(name)` of them. -/
theorem aufsCreateFile_of_badName {dir : Inode} (hp : parentOf s parent = some p) (hdir : s.inodeOf p = some dir)
    (hb : badName (cString name) = true) : aufsCreateFile env name mode parent data fops s = none :=
  aufsCreateFile_of_lookup_err hp (lookupOneLen_badName hdir hb)

theorem aufsCreateFile_of_badName_dot :
    badName (cString ".") = true ∧
      aufsCreateFile freshEnv "." (S_IFDIR ||| S_IRWXU ||| S_IRUGO) .null none none (rootVfs freshInode 0) = none :=
  ⟨by decide, aufsCreateFile_of_badName (p := 0) rfl rfl (by decide)⟩

end

/-- **An empty name under the root**: the lookup returns `ERR_PTR(-EACCES)` and `aufs_create_file` does not return. -/
theorem create_empty_name_oops :
    Reachable (rootVfs freshInode 0) ∧
      lookupOneLen freshEnv "" 0 (rootVfs freshInode 0) = some (.err (-EACCES), rootVfs freshInode 0) ∧
      aufsCreateFile freshEnv "" (S_IFREG ||| S_IRUGO) .null none (some .aufs) (rootVfs freshInode 0) = none :=
  ⟨reachable_fresh, by decide, by decide⟩

end Aufs
