import Aufs.Perm
import Aufs.Wf
/-!
# Walk — the path walk through the aufs tree

`__link_path_walk` of the vendored `fs/namei.c`, over the components of a path (the name split at its slashes), from
the aufs root, which the model takes as the task's root.  Before each component the walk asks for a search of the
directory it stands in (`exec_permission_lite`); `.` stays, `..` goes to the parent and stays at the root; any other
name is looked up in the dentry cache, or, when the cache has no dentry for it, by `real_lookup`: `d_alloc`, then the
directory's `lookup`, `simple_lookup`, which hashes the new dentry negative.  A negative dentry ends the walk with
`ENOENT`; one that is not last must have a `lookup`, or the walk ends with `ENOTDIR`.  `LOOKUP_PARENT` stops before
the last component, once its directory has been searched; `LOOKUP_DIRECTORY` asks the last to have a `lookup` too.

The dentry `real_lookup` allocates for a missing name is dropped before the walk returns (`simple_dentry_operations`
always delete), and the references the walk takes it puts back: the walk leaves the VFS as it found it.  From a
directory of a well-formed VFS it never oopses (`linkPathWalk_isSome`).
-/
namespace Aufs

def LOOKUP_FOLLOW : Nat := 1
def LOOKUP_DIRECTORY : Nat := 2
def LOOKUP_PARENT : Nat := 16

def ENOENT : Int := 2
def ENOTDIR : Int := 20

/-- Whether the inode operations have a `lookup`: `simple_dir_inode_operations` have `simple_lookup`, `empty_iops`
nothing. -/
def Iops.lookup : Iops → Bool
  | .simpleDir => true
  | .empty => false

/-- **`__link_path_walk(name, nd)`** from the dentry `d`, over the components of `name`, with the lookup flags
`flags`; `dentryOk` is whether `d_alloc` gets its slab object when `real_lookup` asks for one.  The dentry the walk
ends at, or the error; `none` where the kernel oopses: an inode read through a negative dentry, or a `lookup` called
that the directory does not have. -/
def linkPathWalk (cred : Cred) (dentryOk : Bool) (flags : Nat) (s : Vfs) : Nat → List String → Option (Except Int Nat)
  | d, [] => some (.ok d)
  | d, c :: cs =>
    match s.dentries[d]?, s.inodeOf d with
    | some e, some inode =>
      let err := execPermissionLite cred inode
      if err ≠ 0 then some (.error err)
      else if cs = [] ∧ flags &&& LOOKUP_PARENT ≠ 0 then some (.ok d)
      else if c = "." then linkPathWalk cred dentryOk flags s d cs
      -- `follow_dotdot`: the task's root is its own parent
      else if c = ".." then linkPathWalk cred dentryOk flags s (if d = 0 then d else e.dParent) cs
      else match dLookup s d c with
        | some d' =>
          match s.inodeOf d' with
          | none => some (.error (-ENOENT))
          | some inode' =>
            if cs = [] then
              if flags &&& LOOKUP_DIRECTORY ≠ 0 ∧ inode'.iOp.lookup = false then some (.error (-ENOTDIR))
              else some (.ok d')
            else if inode'.iOp.lookup = false then some (.error (-ENOTDIR))
            else linkPathWalk cred dentryOk flags s d' cs
        | none =>
          -- `real_lookup`: `d_alloc`, then `simple_lookup` hashes the new dentry negative
          if !dentryOk then some (.error (-ENOMEM))
          else if inode.iOp.lookup = false then none
          else if NAME_MAX < c.utf8ByteSize then some (.error (-ENAMETOOLONG))
          else some (.error (-ENOENT))
    | _, _ => none

section walk

variable {cred : Cred} {ok : Bool} {flags : Nat} {s : Vfs} {d : Nat} {e : Dentry} {n : Inode} {c : String}
  {cs : List String}

/-- **A refused search ends the walk** with the refusal, before the component is read. -/
theorem linkPathWalk_denied (he : s.dentries[d]? = some e) (hn : s.inodeOf d = some n)
    (hx : execPermissionLite cred n ≠ 0) :
    linkPathWalk cred ok flags s d (c :: cs) = some (.error (execPermissionLite cred n)) := by
  rw [linkPathWalk, he, hn]
  simp only [hx, ne_eq, not_false_eq_true, if_true]

/-- A granted search of a name the cache has, bound to a directory, goes on from there. -/
theorem linkPathWalk_down {d' : Nat} {n' : Inode} (he : s.dentries[d]? = some e) (hn : s.inodeOf d = some n)
    (hx : execPermissionLite cred n = 0) (hc : c ≠ ".") (hcc : c ≠ "..") (hl : dLookup s d c = some d')
    (hn' : s.inodeOf d' = some n') (hop : n'.iOp.lookup = true) (hcs : cs ≠ []) :
    linkPathWalk cred ok flags s d (c :: cs) = linkPathWalk cred ok flags s d' cs := by
  rw [linkPathWalk, he, hn]
  simp only [hx, hc, hcc, hl, hn', hop, hcs, ne_eq, not_true_eq_false, false_and, if_false, Bool.true_eq_false]

/-- The last component, a name the cache has on a positive dentry, ends the walk there unless `LOOKUP_PARENT`
stops it before, or `LOOKUP_DIRECTORY` asks for a directory it is not. -/
theorem linkPathWalk_last {d' : Nat} {n' : Inode} (he : s.dentries[d]? = some e) (hn : s.inodeOf d = some n)
    (hx : execPermissionLite cred n = 0) (hp : flags &&& LOOKUP_PARENT = 0) (hc : c ≠ ".") (hcc : c ≠ "..")
    (hl : dLookup s d c = some d') (hn' : s.inodeOf d' = some n')
    (hdir : flags &&& LOOKUP_DIRECTORY = 0 ∨ n'.iOp.lookup = true) :
    linkPathWalk cred ok flags s d [c] = some (.ok d') := by
  rw [linkPathWalk, he, hn]
  have hd : ¬ (flags &&& LOOKUP_DIRECTORY ≠ 0 ∧ n'.iOp.lookup = false) := by
    rintro ⟨h₁, h₂⟩
    rcases hdir with h | h
    · exact h₁ h
    · rw [h] at h₂
      cases h₂
  simp only [hx, hp, hc, hcc, hl, hn', hd, ne_eq, not_true_eq_false, and_false, if_false, if_true,
    linkPathWalk]

/-- **`LOOKUP_PARENT` stops at the last component's directory**, once it has been searched. -/
theorem linkPathWalk_parent (he : s.dentries[d]? = some e) (hn : s.inodeOf d = some n)
    (hx : execPermissionLite cred n = 0) (hp : flags &&& LOOKUP_PARENT ≠ 0) :
    linkPathWalk cred ok flags s d [c] = some (.ok d) := by
  rw [linkPathWalk, he, hn]
  simp only [hx, hp, ne_eq, not_true_eq_false, not_false_eq_true, and_self, if_true, if_false]

theorem Vfs.dentry_of_inodeOf (h : s.inodeOf d = some n) : ∃ e, s.dentries[d]? = some e := by
  unfold Vfs.inodeOf at h
  split at h
  · exact ⟨_, ‹_›⟩
  · cases h

theorem Vfs.inodeOf_mem (h : s.inodeOf d = some n) : ∃ i : Nat, s.inodes[i]? = some n := by
  unfold Vfs.inodeOf at h
  split at h
  · split at h
    · exact ⟨_, h⟩
    · cases h
  · cases h

theorem Wf.inodeOf_dir (hW : Wf s) {p : Nat} (hp : s.isDir p = true) :
    ∃ n, s.inodeOf p = some n ∧ n.iOp.lookup = true := by
  obtain ⟨x, i, m, hx, hi, hm, hd⟩ := Vfs.isDir_iff.1 hp
  refine ⟨m, by simp [Vfs.inodeOf, hx, hi, hm], ?_⟩
  rcases hW.kind p x i m hx hi hm with ⟨-, h⟩ | h
  · rw [h]
    rfl
  · rw [hd] at h
    cases h

/-- **The walk never oopses** from a dentry whose inode has a `lookup`, in a well-formed VFS: every dentry it moves
to is a directory or has been checked for a `lookup`. -/
theorem linkPathWalk_isSome (hW : Wf s) :
    ∀ (cs : List String) (d : Nat) (n : Inode), s.inodeOf d = some n → n.iOp.lookup = true →
      (linkPathWalk cred ok flags s d cs).isSome
  | [], _, _, _, _ => rfl
  | c :: cs, d, n, hn, hop => by
    obtain ⟨e, he⟩ := Vfs.dentry_of_inodeOf hn
    rw [linkPathWalk, he, hn]
    dsimp only
    split
    · rfl
    split
    · rfl
    split
    · exact linkPathWalk_isSome hW cs d n hn hop
    split
    · -- `..` below the root goes to the parent, a directory
      split
      · exact linkPathWalk_isSome hW cs d n hn hop
      · rename_i hd0
        obtain ⟨m, hm, hmop⟩ := hW.inodeOf_dir (hW.parentDir d e he (hW.hashed d e he hd0))
        exact linkPathWalk_isSome hW cs e.dParent m hm hmop
    split
    · rename_i d' _
      split
      · rfl
      · rename_i n' hn'
        split
        · split <;> rfl
        · split
          · rfl
          · rename_i hl
            exact linkPathWalk_isSome hW cs d' n' hn' (by simpa using hl)
    · split
      · rfl
      · split
        · rename_i hl
          rw [hop] at hl
          cases hl
        · split <;> rfl

end walk

end Aufs
