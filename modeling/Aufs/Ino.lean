import Aufs.Tree
/-!
# Ino — the inode numbers aufs leaves

`aufs_get_inode` sets the mode, the owner, the times and the operations of the inode `new_inode` gives it, never its
number, and the target kernel's `new_inode` leaves `i_ino` as the slab object held it.  So the inode a call creates
has the number its slab object came with (`Call.run_new_ino`), no call changes an inode's number (`Call.run_inos`),
and two directories made from fresh slab objects are both numbered 0 (`ino_collision`).
-/
namespace Aufs

theorem initSpecialInode_iIno (n : Inode) (m rdev : Nat) : (initSpecialInode n m rdev).iIno = n.iIno := by
  unfold initSpecialInode
  split_ifs <;> rfl

theorem aufsInodeSetup_iIno (env : Env) (m dev : Nat) (n : Inode) : (aufsInodeSetup env m dev n).iIno = n.iIno := by
  unfold aufsInodeSetup
  split_ifs
  · rfl
  · rfl
  · exact initSpecialInode_iIno _ _ _

section created

variable {s : Vfs} {env : Env} {o : Inode} {mode : Nat} {data : Option Nat} {fops : Option Fops} {pi c : Nat}

theorem createdInode_iIno : (createdInode env o mode data fops).iIno = o.iIno := by
  simp only [createdInode, aufsInodeSetup_iIno]
  rfl

def Vfs.inos (s : Vfs) : List Nat := s.inodes.map (·.iIno)

theorem created_inos : (createdVfs env o mode data fops pi c s).inos = s.inos ++ [o.iIno] := by
  simp only [Vfs.inos, createdVfs, List.map_append, List.map_cons, List.map_nil, createdInode_iIno]
  split
  · rw [Table.map_modify (f := fun n : Inode => { n with iNlink := n.iNlink + 1 }) (fun _ => rfl)]
  · rfl

end created

/-- **No creation call renumbers an inode, and one that creates adds its slab object's number.** -/
theorem Call.run_inos {s s' : Vfs} {env : Env} {c : Call} {r : Ptr} (hW : Wf s) (hL : Links s)
    (hc : CallOk s env c) (h : c.run env s = some (r, s')) :
    (r = .null ∧ s'.inos = s.inos) ∨ (∃ d o, r = .obj d ∧ env.slab = some o ∧ s'.inos = s.inos ++ [o.iIno]) := by
  obtain ⟨p, d, s₁, e, pe, pi, -, -, hl, -, -, -, -, -, -, ⟨rfl, rfl⟩ | ⟨o, rfl, ho, -, rfl⟩⟩ :=
    Call.run_cases hW hL hc h
  · exact .inl ⟨rfl, by rw [Vfs.inos, lookup_inodes hl]; rfl⟩
  · exact .inr ⟨d, o, rfl, ho, by rw [created_inos, Vfs.inos, lookup_inodes hl]; rfl⟩

theorem run_inos_fresh :
    ∃ r s', (Call.dir "a" .null).run freshEnv (rootVfs freshInode 0) = some (r, s') ∧
      ((r = .null ∧ s'.inos = (rootVfs freshInode 0).inos) ∨
        (∃ d o, r = .obj d ∧ freshEnv.slab = some o ∧ s'.inos = (rootVfs freshInode 0).inos ++ [o.iIno])) := by
  refine ⟨_, _, rfl, ?_⟩
  exact Call.run_inos Wf.rootVfs Links.rootVfs (by decide : CallOk _ freshEnv (Call.dir "a" .null)) rfl

/-- **The dentry a call returns is on an inode numbered as its slab object was**: aufs assigns no number. -/
theorem Call.run_new_ino {s s' : Vfs} {env : Env} {c : Call} {d : Nat} (hW : Wf s) (hL : Links s)
    (hc : CallOk s env c) (h : c.run env s = some (.obj d, s')) :
    ∃ o n, env.slab = some o ∧ s'.inodeOf d = some n ∧ n.iIno = o.iIno := by
  obtain ⟨p, d', s₁, e, pe, pi, -, -, -, -, -, he, -, -, -, ⟨hr, -⟩ | ⟨o, hr, ho, -, rfl⟩⟩ :=
    Call.run_cases hW hL hc h
  · cases hr
  · obtain rfl : d = d' := Ptr.obj.inj hr
    refine ⟨o, createdInode env o c.mode c.data c.fops, ho, ?_, createdInode_iIno⟩
    have hd : (createdVfs env o c.mode c.data c.fops pi d s₁).dentries[d]? =
        some { e with dInode := some s₁.inodes.length, dCount := e.dCount + 1 } := by
      simp [createdVfs, he]
    simp only [Vfs.inodeOf, hd, created_inode_new]

/-! ## Two inodes with one number -/

/-- The inode `i` is in the tree: the root's or a positive dentry's. -/
def Vfs.InTree (s : Vfs) (i : Nat) : Prop := ∃ (d : Nat) (e : Dentry), s.dentries[d]? = some e ∧ e.dInode = some i

/-- Distinct inodes of the tree have distinct numbers. -/
def DistinctIno (s : Vfs) : Prop :=
  ∀ i j n m, s.InTree i → s.InTree j → s.inodes[i]? = some n → s.inodes[j]? = some m → n.iIno = m.iIno → i = j

/-- **Two directories made under the root from fresh slab objects are both numbered 0.** -/
theorem ino_collision :
    ∃ s, runCalls [(freshEnv, Call.dir "a" .null), (freshEnv, Call.dir "b" .null)] (rootVfs freshInode 0) = some s ∧
      Reachable s ∧ ¬ DistinctIno s := by
  refine ⟨_, rfl, Reachable.runCalls [(freshEnv, Call.dir "a" .null), (freshEnv, Call.dir "b" .null)] reachable_fresh
    (by decide) rfl, fun h => ?_⟩
  have h12 := h 1 2 _ _ ⟨1, _, rfl, rfl⟩ ⟨2, _, rfl, rfl⟩ rfl rfl rfl
  exact absurd h12 (by decide)

end Aufs
