import Aufs.Create
import Aufs.Table
/-!
# CreateSpec — what each function of the creating path does, once

One lemma per function, which its callers cite instead of unfolding it: the primitives field by field,
`lookup_one_len`'s outcomes that are dentries (`lookupOneLen_obj`), `aufs_mknod` on a positive and on a negative
dentry, and `aufs_create_file` on a call whose lookup gives a dentry (`aufsCreateFile_of_lookup`), ending in the VFS
a creation that succeeds leaves (`createdVfs`).
-/
namespace Aufs

variable {s s₁ : Vfs} {env : Env} {name : String} {mode : Nat}

/-! ## The primitives, field by field -/

def incCount (e : Dentry) : Dentry := { e with dCount := e.dCount + 1 }

@[simp] theorem dget_dentries (s : Vfs) (d : Nat) : (dget s d).dentries = s.dentries.modify d incCount := rfl
@[simp] theorem dget_inodes (s : Vfs) (d : Nat) : (dget s d).inodes = s.inodes := rfl
@[simp] theorem dget_sRoot (s : Vfs) (d : Nat) : (dget s d).sRoot = s.sRoot := rfl

@[simp] theorem dInstantiate_dentries (s : Vfs) (d i : Nat) :
    (dInstantiate s d i).dentries = s.dentries.modify d (fun e => { e with dInode := some i }) := rfl
@[simp] theorem dInstantiate_inodes (s : Vfs) (d i : Nat) : (dInstantiate s d i).inodes = s.inodes := rfl
@[simp] theorem dInstantiate_sRoot (s : Vfs) (d i : Nat) : (dInstantiate s d i).sRoot = s.sRoot := rfl

@[simp] theorem modifyInode_dentries (s : Vfs) (i : Nat) (f : Inode → Inode) :
    (s.modifyInode i f).dentries = s.dentries := rfl
@[simp] theorem modifyInode_inodes (s : Vfs) (i : Nat) (f : Inode → Inode) :
    (s.modifyInode i f).inodes = s.inodes.modify i f := rfl
@[simp] theorem modifyInode_sRoot (s : Vfs) (i : Nat) (f : Inode → Inode) :
    (s.modifyInode i f).sRoot = s.sRoot := rfl

theorem dRehash_dAlloc (s : Vfs) (p : Nat) (name : String) :
    dRehash (dAlloc s p name).2 s.dentries.length =
      ⟨s.dentries.modify p incCount ++ [⟨name, p, none, 1, true⟩], s.inodes, s.sRoot⟩ := by
  have hl : (s.dentries.modify p incCount).length = s.dentries.length := List.length_modify _ _ _
  simp only [dRehash, dAlloc, Vfs.modifyDentry, dget_dentries]
  rw [← hl, Table.modify_append_length]

/-! ## `lookup_one_len` -/

/-- **What `lookup_one_len` can return as a dentry**, after `base` was read positive, the name accepted and the
search granted: the cached child with one more reference, or — when nothing is cached, the slab object is had, `base`
is a directory and the name fits `NAME_MAX` — a new hashed negative child at the end of the cache. -/
theorem lookupOneLen_obj {p c : Nat} (h : lookupOneLen env name p s = some (.obj c, s₁)) :
    ∃ dir, s.inodeOf p = some dir ∧ badName name = false ∧ env.mayExec = true ∧
      ((dLookup s p name = some c ∧ s₁ = dget s c) ∨
       (dLookup s p name = none ∧ env.dentryOk = true ∧ dir.iOp = .simpleDir ∧ name.utf8ByteSize ≤ NAME_MAX ∧
         c = s.dentries.length ∧ s₁ = ⟨s.dentries.modify p incCount ++ [⟨name, p, none, 1, true⟩], s.inodes, s.sRoot⟩)) := by
  unfold lookupOneLen at h
  cases hd0 : s.inodeOf p with
  | none => simp [hd0] at h
  | some dir =>
    simp only [hd0] at h
    refine ⟨dir, rfl, ?_⟩
    cases hb : badName name
    · cases hx : env.mayExec
      · simp [hb, hx, errPtr] at h
      · cases hdl : dLookup s p name with
        | some d =>
          simp only [hb, hx, hdl, Bool.false_eq_true, Bool.not_true, if_false, Option.some.injEq, Prod.mk.injEq,
            Ptr.obj.injEq] at h
          obtain ⟨rfl, rfl⟩ := h
          exact ⟨rfl, rfl, .inl ⟨rfl, rfl⟩⟩
        | none =>
          cases ha : env.dentryOk
          · simp [hb, hx, hdl, ha, errPtr] at h
          · by_cases hi : dir.iOp = .simpleDir
            · by_cases hn : NAME_MAX < name.utf8ByteSize
              · simp [hb, hx, hdl, ha, hi, hn, errPtr] at h
              · simp only [hb, hx, hdl, ha, hi, hn, Bool.false_eq_true, Bool.not_true, if_false,
                  ne_eq, not_true_eq_false, Option.some.injEq, Prod.mk.injEq, Ptr.obj.injEq] at h
                obtain ⟨rfl, rfl⟩ := h
                exact ⟨rfl, rfl, .inr ⟨rfl, rfl, hi, by omega, rfl, dRehash_dAlloc s p name⟩⟩
            · simp [hb, hx, hdl, ha, hi] at h
    · simp [hb, errPtr] at h

/-! ## `node.h` -/

theorem aufsMknod_positive {dir : Option Nat} {d dev : Nat} {e : Dentry} (hd : s.dentries[d]? = some e)
    (he : e.dInode.isSome = true) : aufsMknod env dir (.obj d) mode dev s = some (-EEXIST, s) := by
  simp [aufsMknod, hd, he]

/-- **`aufs_mknod` on a negative dentry**, once `dir` is a pointer: `EPERM` with nothing changed when no slab object
is had; else the dentry bound to a new inode, which `aufs_get_inode` set up, with one more reference. -/
theorem aufsMknod_negative {d j dev : Nat} {e : Dentry} (hd : s.dentries[d]? = some e) (he : e.dInode = none) :
    aufsMknod env (some j) (.obj d) mode dev s = some (match env.slab with
      | none => (-EPERM, s)
      | some o => (0, ⟨s.dentries.modify d (fun e => { e with dInode := some s.inodes.length, dCount := e.dCount + 1 }),
          s.inodes ++ [aufsInodeSetup env mode dev (inodeInitAlways o)], s.sRoot⟩)) := by
  cases ho : env.slab with
  | none => simp [aufsMknod, hd, he, aufsGetInode, newInode, ho]
  | some o =>
    have hi : (s.inodes ++ [inodeInitAlways o]).modify s.inodes.length (aufsInodeSetup env mode dev) =
        s.inodes ++ [aufsInodeSetup env mode dev (inodeInitAlways o)] := Table.modify_append_length _ _
    simp only [aufsMknod, hd, he, Option.isSome_none, Bool.false_eq_true, if_false, aufsGetInode, newInode, ho]
    simp only [dget, dInstantiate, Vfs.modifyDentry, Vfs.modifyInode, List.modify_modify_eq, hi]
    rfl

theorem aufsMkdir_eq {j : Nat} {dentry : Ptr} :
    aufsMkdir env (some j) dentry mode s = (aufsMknod env (some j) dentry (mode ||| S_IFDIR) 0 s).map
      (fun r => if r.1 = 0 then (r.1, r.2.modifyInode j (fun n => { n with iNlink := n.iNlink + 1 })) else r) := by
  unfold aufsMkdir
  cases aufsMknod env (some j) dentry (mode ||| S_IFDIR) 0 s with
  | none => rfl
  | some r => by_cases h : r.1 = 0 <;> simp [h]

/-! ## `dentry.h` -/

/-- The dentry a call's `parent` stands for: `NULL` is the superblock's root. -/
def parentOf (s : Vfs) : Ptr → Option Nat
  | .null => s.sRoot
  | .obj d => some d
  | .err _ => none

/-- **`aufs_create_by_name` once `lookup_one_len` returned** on the name up to its first `NUL`: the `IS_ERR` test on
the variable's address always passes, so whatever the lookup returned, a dentry or an error pointer, goes to
`aufs_mkdir` or `aufs_create` with the parent's inode as `dir`. -/
theorem aufsCreateByName_of_lookup {p a : Nat} {found parent out : Ptr} (hp : parentOf s parent = some p)
    (hl : lookupOneLen env (cString name) p s = some (found, s₁)) :
    aufsCreateByName env name mode parent (.obj a) out s =
      (if mode &&& S_IFMT = S_IFDIR then aufsMkdir env ((s₁.dentries[p]?).bind (·.dInode)) found mode s₁
        else aufsCreate env ((s₁.dentries[p]?).bind (·.dInode)) found mode s₁).map (fun r => (r.1, found, r.2)) := by
  cases parent with
  | null =>
    simp only [parentOf] at hp
    simp [aufsCreateByName, hp, hl, isErr]
  | obj d =>
    simp only [parentOf, Option.some.injEq] at hp
    subst hp
    simp [aufsCreateByName, hl, isErr]
  | err e => simp [parentOf] at hp

/-! ## `file.h` -/

theorem initSpecialInode_iPrivate (n : Inode) (m rdev : Nat) : (initSpecialInode n m rdev).iPrivate = n.iPrivate := by
  unfold initSpecialInode
  split_ifs <;> rfl

theorem aufsInodeSetup_iPrivate (n : Inode) (m dev : Nat) : (aufsInodeSetup env m dev n).iPrivate = n.iPrivate := by
  unfold aufsInodeSetup
  split_ifs
  · rfl
  · rfl
  · exact initSpecialInode_iPrivate _ _ _

/-! ## Mode bits -/

/-- `umode_t` keeps the type bits: `i_mode = mode` truncates to 16 bits, above `S_IFMT`. -/
theorem umode_type (m : Nat) : (m &&& 0xffff) &&& S_IFMT = m &&& S_IFMT := by
  have hF : 0xffff &&& S_IFMT = S_IFMT := by decide
  rw [Nat.and_assoc, hF]

theorem type_or_dir {m : Nat} (h : m &&& S_IFMT = S_IFDIR) : (m ||| S_IFDIR) &&& S_IFMT = S_IFDIR := by
  rw [Nat.and_or_distrib_right, h]
  decide

theorem type_or_reg {m : Nat} (h : m &&& S_IFMT = S_IFREG ∨ m &&& S_IFMT = 0) :
    (m ||| S_IFREG) &&& S_IFMT = S_IFREG := by
  rw [Nat.and_or_distrib_right]
  rcases h with h | h <;> rw [h] <;> decide

theorem inode_eta_private {n : Inode} (h : n.iPrivate = none) : { n with iPrivate := none } = n := by
  rw [← h]

/-- The inode a creation that succeeds makes: as `aufs_get_inode` sets it up for the mode `aufs_mkdir` or
`aufs_create` passes, with `data` and `fops` from `aufs_create_file` (its own operations where `fops` is `NULL`). -/
def createdInode (env : Env) (o : Inode) (mode : Nat) (data : Option Nat) (fops : Option Fops) : Inode :=
  let n := aufsInodeSetup env (if mode &&& S_IFMT = S_IFDIR then mode ||| S_IFDIR else mode ||| S_IFREG) 0
    (inodeInitAlways o)
  { n with iPrivate := data, iFop := fops.getD n.iFop }

/-- **The VFS a creation that succeeds leaves**, from the VFS `s₁` its lookup left: the dentry `c` bound to the new
inode, with one more reference, and for a directory one more link on the parent's inode `pi`. -/
def createdVfs (env : Env) (o : Inode) (mode : Nat) (data : Option Nat) (fops : Option Fops) (pi c : Nat)
    (s₁ : Vfs) : Vfs :=
  { dentries := s₁.dentries.modify c (fun e => { e with dInode := some s₁.inodes.length, dCount := e.dCount + 1 }),
    inodes := (if mode &&& S_IFMT = S_IFDIR then s₁.inodes.modify pi (fun n => { n with iNlink := n.iNlink + 1 })
      else s₁.inodes) ++ [createdInode env o mode data fops],
    sRoot := s₁.sRoot }

variable {o : Inode} {data : Option Nat} {fops : Option Fops}

/-- **A directory is made a directory**: type `S_IFDIR`, the directory operations, two links. -/
theorem createdInode_dir (h : mode &&& S_IFMT = S_IFDIR) :
    (createdInode env o mode data fops).iMode &&& S_IFMT = S_IFDIR ∧
      (createdInode env o mode data fops).iOp = .simpleDir ∧ (createdInode env o mode data fops).iNlink = 2 := by
  have ht := type_or_dir h
  have hne : S_IFDIR ≠ S_IFREG := by decide
  refine ⟨?_, ?_, ?_⟩
  · simp only [createdInode, h, if_true, aufsInodeSetup, ht, hne, if_false]
    rw [umode_type, ht]
  · simp [createdInode, h, aufsInodeSetup, ht, hne]
  · simp [createdInode, h, aufsInodeSetup, ht, hne, inodeInitAlways]

/-- **Anything else in the domain is made a regular file**, with the one link `new_inode` gave it. -/
theorem createdInode_reg (h : mode &&& S_IFMT = S_IFREG ∨ mode &&& S_IFMT = 0) :
    (createdInode env o mode data fops).iMode &&& S_IFMT = S_IFREG ∧
      (createdInode env o mode data fops).iNlink = 1 := by
  have ht := type_or_reg h
  have hnd : ¬ mode &&& S_IFMT = S_IFDIR := by rcases h with h | h <;> rw [h] <;> decide
  refine ⟨?_, ?_⟩
  · simp only [createdInode, hnd, if_false, aufsInodeSetup, ht, if_true]
    rw [umode_type, ht]
  · simp [createdInode, hnd, aufsInodeSetup, ht, inodeInitAlways]

/-- A regular file keeps the `empty_iops` `new_inode` gave it: no `lookup`. -/
theorem createdInode_reg_iOp (h : mode &&& S_IFMT = S_IFREG ∨ mode &&& S_IFMT = 0) :
    (createdInode env o mode data fops).iOp = .empty := by
  have ht := type_or_reg h
  have hnd : ¬ mode &&& S_IFMT = S_IFDIR := by rcases h with h | h <;> rw [h] <;> decide
  simp [createdInode, hnd, aufsInodeSetup, ht, inodeInitAlways]

/-- **`aufs_create_file` once `lookup_one_len` gave a dentry `c`**: `NULL` with the lookup's VFS when `c` is positive
(`EEXIST`) or no inode is had (`EPERM`); else `c`, and the VFS `createdVfs` describes. -/
theorem aufsCreateFile_of_lookup {p c pi : Nat} {parent : Ptr} {data : Option Nat} {fops : Option Fops}
    {e : Dentry} (hp : parentOf s parent = some p) (hl : lookupOneLen env (cString name) p s = some (.obj c, s₁))
    (hpi : (s₁.dentries[p]?).bind (·.dInode) = some pi) (hpil : pi < s₁.inodes.length)
    (hc : s₁.dentries[c]? = some e) :
    aufsCreateFile env name mode parent data fops s =
      some (if e.dInode.isSome then (.null, s₁) else match env.slab with
        | none => (.null, s₁)
        | some o => (.obj c, createdVfs env o mode data fops pi c s₁)) := by
  unfold aufsCreateFile
  rw [aufsCreateByName_of_lookup hp hl, hpi]
  cases he : e.dInode with
  | some i =>
    have hm : ∀ m, aufsMknod env (some pi) (.obj c) m 0 s₁ = some (-EEXIST, s₁) :=
      fun m => aufsMknod_positive hc (by simp [he])
    by_cases hd : mode &&& S_IFMT = S_IFDIR
    · simp [hd, aufsMkdir_eq, hm, EEXIST]
    · simp [hd, aufsCreate, hm, EEXIST]
  | none =>
    cases ho : env.slab with
    | none =>
      have hm : ∀ m, aufsMknod env (some pi) (.obj c) m 0 s₁ = some (-EPERM, s₁) :=
        fun m => by rw [aufsMknod_negative hc he, ho]
      by_cases hd : mode &&& S_IFMT = S_IFDIR
      · simp [hd, aufsMkdir_eq, hm, EPERM]
      · simp [hd, aufsCreate, hm, EPERM]
    | some o =>
      have hc' : (s₁.dentries.modify c (fun e => { e with dInode := some s₁.inodes.length, dCount := e.dCount + 1 }))[c]? =
          some { e with dInode := some s₁.inodes.length, dCount := e.dCount + 1 } := by
        simp [hc]
      have hn : ∀ m, (aufsInodeSetup env m 0 (inodeInitAlways o)).iPrivate = none := fun m => by
        rw [aufsInodeSetup_iPrivate]; rfl
      by_cases hd : mode &&& S_IFMT = S_IFDIR
      · cases data <;> cases fops <;>
          simp [hd, aufsMkdir_eq, aufsMknod_negative hc he, ho, Vfs.modifyInode, Table.modify_append_left hpil, hc',
            createdVfs, createdInode, Table.modify_append_singleton, hn, inode_eta_private]
      · cases data <;> cases fops <;>
          simp [hd, aufsCreate, aufsMknod_negative hc he, ho, Vfs.modifyInode, hc', createdVfs, createdInode,
            Table.modify_append_singleton, hn, inode_eta_private]

end Aufs
