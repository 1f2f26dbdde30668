import Aufs.Run
/-!
# Tree — the tree of names aufs builds, and what one call does to it

The abstract state of the creation calls is a map from a parent and a name to what is there: the child's dentry, its
kind, its file operations and its private data (`Tree`).  What a call should do to it is `TreeCreate`: add one node
under a free name, or return `NULL` and change nothing, when the name is taken or no inode is had.

A VFS's tree (`Vfs.view`) reads each name through `d_lookup` and then the inode of the dentry found; the negative
dentries that failed creations leave are not in it.  A lookup does not change the tree (`view_lookup`) and a creation
adds exactly its node (`view_created`), so every creation call from a reachable VFS does to the tree what
`TreeCreate` says (`Call.refines_of_wf`).
-/
namespace Aufs

/-! ## The abstract tree -/

inductive Kind where
  | dir
  | reg
  deriving DecidableEq, Repr

/-- What the tree records of a file: its dentry, its kind, `i_fop` and `i_private`. -/
structure Node where
  dentry : Nat
  kind : Kind
  fop : Fops
  priv : Option Nat
  deriving DecidableEq, Repr

/-- A tree of names: what, if anything, is at each parent and name. -/
abbrev Tree := Nat × String → Option Node

/-- **A creation, on the tree**: `NULL` and no change when the name `k` is taken or no inode is had (`slabOk`);
otherwise the node `v d` is added at `k` and its dentry `d` returned. -/
def TreeCreate (t : Tree) (k : Nat × String) (slabOk : Bool) (v : Nat → Node) (r : Ptr) (t' : Tree) : Prop :=
  (r = .null ∧ (t k ≠ none ∨ slabOk = false) ∧ t' = t) ∨
    (∃ d, r = .obj d ∧ t k = none ∧ slabOk = true ∧ t' = Function.update t k (some (v d)))

/-- **A creation never removes or changes a node**: what is at a name stays. -/
theorem TreeCreate.mono {t t' : Tree} {k : Nat × String} {b : Bool} {v : Nat → Node} {r : Ptr}
    (h : TreeCreate t k b v r t') {k' : Nat × String} {x : Node} (hx : t k' = some x) : t' k' = some x := by
  rcases h with ⟨-, -, rfl⟩ | ⟨d, -, hk, -, rfl⟩
  · exact hx
  · have hne : k' ≠ k := by
      rintro rfl
      rw [hk] at hx
      cases hx
    rw [Function.update_of_ne hne]
    exact hx

def TreeStep (t t' : Tree) : Prop := ∃ k b v r, TreeCreate t k b v r t'

def kindOf (mode : Nat) : Kind := if mode &&& S_IFMT = S_IFDIR then .dir else .reg

/-- The node a call adds on the dentry `d`: a directory iff its mode's type is `S_IFDIR`, with the caller's file
operations if it gave any and else those `aufs_mknod` installs, and the caller's data. -/
def Call.node (c : Call) (d : Nat) : Node :=
  ⟨d, kindOf c.mode, c.fops.getD (if c.mode &&& S_IFMT = S_IFDIR then .simpleDir else .empty), c.data⟩

/-! ## The tree of a VFS -/

namespace Vfs

def inodeIdx (s : Vfs) (d : Nat) : Option Nat := (s.dentries[d]?).bind (·.dInode)

def node (s : Vfs) (d : Nat) : Option Node :=
  (s.inodeIdx d).bind (fun i => (s.inodes[i]?).map (fun n => ⟨d, kindOf n.iMode, n.iFop, n.iPrivate⟩))

/-- **The tree of a VFS**: at each parent and name, the node on the dentry `d_lookup` finds. -/
def view (s : Vfs) : Tree := fun k => (dLookup s k.1 k.2).bind s.node

end Vfs

theorem Vfs.node_congr {s s' : Vfs} {d : Nat} (hi : s'.inodeIdx d = s.inodeIdx d) (hn : s'.inodes = s.inodes) :
    s'.node d = s.node d := by
  simp only [Vfs.node, hi, hn]

theorem Vfs.node_negative {s : Vfs} {d : Nat} {e : Dentry} (hd : s.dentries[d]? = some e) (he : e.dInode = none) :
    s.node d = none := by
  simp [Vfs.node, Vfs.inodeIdx, hd, he]

theorem Wf.node_positive {s : Vfs} {d i : Nat} {e : Dentry} (hW : Wf s) (hd : s.dentries[d]? = some e)
    (he : e.dInode = some i) : s.node d ≠ none := by
  have hi : i < s.inodes.length := hW.inodeLt d e i hd he
  simp [Vfs.node, Vfs.inodeIdx, hd, he, hi]

theorem Wf.inodeIdx_lt {s : Vfs} {d i : Nat} (hW : Wf s) (h : s.inodeIdx d = some i) : i < s.inodes.length := by
  unfold Vfs.inodeIdx at h
  cases hd : s.dentries[d]? with
  | none => rw [hd] at h; cases h
  | some e =>
    rw [hd, Option.bind_some] at h
    exact hW.inodeLt d e i hd h

/-! ## A lookup leaves the tree as it is -/

section lookup

variable {s s₁ : Vfs} {env : Env} {name : String} {f : Dentry → Dentry} {p d : Nat}

theorem dLookup_countOnly (hf : CountOnly f) (q : Nat) (nm : String) :
    dLookup { s with dentries := s.dentries.modify d f } q nm = dLookup s q nm :=
  Table.findIdx?_modify (fun e => by rw [hf.hashed, hf.parent, hf.name]) _ _

theorem inodeIdx_countOnly (hf : CountOnly f) (k : Nat) :
    ({ s with dentries := s.dentries.modify d f } : Vfs).inodeIdx k = s.inodeIdx k := by
  simp only [Vfs.inodeIdx, List.getElem?_modify]
  cases s.dentries[k]? with
  | none => rfl
  | some e =>
    simp only [Option.map_eq_map, Option.map_some, Option.bind_some]
    split
    · exact hf.inode e
    · rfl

theorem view_countOnly (hf : CountOnly f) : ({ s with dentries := s.dentries.modify d f } : Vfs).view = s.view := by
  funext k
  simp only [Vfs.view, dLookup_countOnly hf]
  cases dLookup s k.1 k.2 with
  | none => rfl
  | some j => exact Vfs.node_congr (inodeIdx_countOnly hf j) rfl

/-- A negative child added at the end is no node, and `d_lookup` reaches it only where it found nothing before. -/
theorem view_addNegative {k : Nat} :
    ({ s with dentries := s.dentries ++ [⟨name, p, none, k, true⟩] } : Vfs).view = s.view := by
  funext ⟨q, nm⟩
  simp only [Vfs.view]
  cases hl : dLookup s q nm with
  | none =>
    have hnew : ({ s with dentries := s.dentries ++ [⟨name, p, none, k, true⟩] } : Vfs).node s.dentries.length =
        none := Vfs.node_negative (e := ⟨name, p, none, k, true⟩) (by simp) rfl
    simp only [dLookup, Table.findIdx?_append_singleton hl]
    split <;> simp [hnew]
  | some j =>
    have hj : j < s.dentries.length := (List.findIdx?_eq_some_iff_findIdx_eq.1 hl).1
    have hl' : dLookup { s with dentries := s.dentries ++ [⟨name, p, none, k, true⟩] } q nm = some j := by
      simp only [dLookup, List.findIdx?_append]
      rw [show s.dentries.findIdx? _ = some j from hl]
      rfl
    rw [hl', Option.bind_some, Option.bind_some]
    exact Vfs.node_congr (by simp [Vfs.inodeIdx, List.getElem?_append_left hj]) rfl

/-- **A lookup does not change the tree.** -/
theorem view_lookup (hl : lookupOneLen env name p s = some (.obj d, s₁)) : s₁.view = s.view := by
  obtain ⟨-, -, -, -, ⟨-, rfl⟩ | ⟨-, -, -, -, -, rfl⟩⟩ := lookupOneLen_obj hl
  · exact view_countOnly countOnly_incCount
  · exact (view_addNegative (s := { s with dentries := s.dentries.modify p incCount })).trans
      (view_countOnly countOnly_incCount)

theorem lookup_dLookup (hl : lookupOneLen env name p s = some (.obj d, s₁)) : dLookup s₁ p name = some d := by
  obtain ⟨-, -, -, -, ⟨hd, rfl⟩ | ⟨hn, -, -, -, rfl, rfl⟩⟩ := lookupOneLen_obj hl
  · exact (dLookup_countOnly countOnly_incCount p name).trans hd
  · have hn' : dLookup { s with dentries := s.dentries.modify p incCount } p name = none :=
      (dLookup_countOnly countOnly_incCount p name).trans hn
    have hlen : (s.dentries.modify p incCount).length = s.dentries.length := List.length_modify _ _ _
    simp only [dLookup, Table.findIdx?_append_singleton hn']
    simp [hlen]

end lookup

/-! ## A creation adds its node -/

section created

variable {s : Vfs} {env : Env} {o : Inode} {mode : Nat} {data : Option Nat} {fops : Option Fops} {pi c : Nat}
  {e : Dentry}

theorem kindOf_createdInode (hm : ModeOk mode) : kindOf (createdInode env o mode data fops).iMode = kindOf mode := by
  unfold kindOf
  by_cases hd : mode &&& S_IFMT = S_IFDIR
  · rw [if_pos hd, if_pos ((createdInode_type hm).2 hd)]
  · rw [if_neg hd, if_neg (fun h => hd ((createdInode_type hm).1 h))]

/-- **The file operations a creation installs**: the caller's, else the directory operations or, for a regular
file, those `new_inode` left. -/
theorem createdInode_iFop (hm : ModeOk mode) : (createdInode env o mode data fops).iFop =
    fops.getD (if mode &&& S_IFMT = S_IFDIR then .simpleDir else .empty) := by
  have hne : S_IFDIR ≠ S_IFREG := by decide
  by_cases hd : mode &&& S_IFMT = S_IFDIR
  · simp [createdInode, hd, aufsInodeSetup, type_or_dir hd, hne]
  · simp [createdInode, hd, aufsInodeSetup, type_or_reg (hm.resolve_left hd), inodeInitAlways]

theorem dLookup_created (q : Nat) (nm : String) :
    dLookup (createdVfs env o mode data fops pi c s) q nm = dLookup s q nm := by
  simp only [dLookup, createdVfs]
  apply Table.findIdx?_modify
  intro x
  rfl

theorem node_created_ne (hW : Wf s) {j : Nat} (hj : j ≠ c) :
    (createdVfs env o mode data fops pi c s).node j = s.node j := by
  have hidx : (createdVfs env o mode data fops pi c s).inodeIdx j = s.inodeIdx j := by
    simp only [Vfs.inodeIdx, created_dentry_ne hj]
  simp only [Vfs.node, hidx]
  cases hij : s.inodeIdx j with
  | none => rfl
  | some i =>
    have hi : i < s.inodes.length := hW.inodeIdx_lt hij
    simp only [Option.bind_some]
    cases hn' : (createdVfs env o mode data fops pi c s).inodes[i]? with
    | none =>
      rw [List.getElem?_eq_none_iff, created_inodes_length] at hn'
      omega
    | some n' =>
      obtain ⟨n, hn, rfl⟩ := created_inode_old hi hn'
      rw [hn]
      rfl

/-- **A creation adds exactly its node** at the name `d_lookup` finds its dentry under. -/
theorem view_created (hW : Wf s) (hc : s.dentries[c]? = some e) (hm : ModeOk mode) {p : Nat} {name : String}
    (hk : dLookup s p name = some c) :
    (createdVfs env o mode data fops pi c s).view = Function.update s.view (p, name)
      (some ⟨c, kindOf mode, fops.getD (if mode &&& S_IFMT = S_IFDIR then .simpleDir else .empty), data⟩) := by
  obtain ⟨e₀, hc₀, -, hcp, hcn⟩ := dLookup_some hk
  funext ⟨q, nm⟩
  simp only [Vfs.view, dLookup_created]
  by_cases hq : (q, nm) = (p, name)
  · -- the name created: its dentry is `c`, now on the new inode
    obtain ⟨rfl, rfl⟩ := Prod.mk.inj hq
    rw [Function.update_self, hk, Option.bind_some]
    have hidx : (createdVfs env o mode data fops pi c s).inodeIdx c = some s.inodes.length := by
      simp [Vfs.inodeIdx, createdVfs, hc]
    simp only [Vfs.node, hidx, Option.bind_some, created_inode_new, Option.map_some, kindOf_createdInode hm,
      createdInode_iFop hm]
    rfl
  · -- any other name: `d_lookup` finds another dentry, whose node stays
    rw [Function.update_of_ne hq]
    simp only [Vfs.view]
    cases hl : dLookup s q nm with
    | none => rfl
    | some j =>
      have hj : j ≠ c := by
        rintro rfl
        obtain ⟨e₁, he₁, -, hp₁, hn₁⟩ := dLookup_some hl
        rw [hc₀, Option.some.injEq] at he₁
        subst he₁
        exact hq (by rw [← hp₁, ← hn₁, hcp, hcn])
      exact node_created_ne hW hj

end created

/-! ## Every call does to the tree what `TreeCreate` says -/

/-- **What a creation call should do**: with `p` its parent (the root for `NULL`), the call returns `r` and
leaves `s'`, whose tree is the one `TreeCreate` makes of the tree of `s`; a call that returns `NULL` leaves every
inode as it was. -/
def Call.Refines (c : Call) (env : Env) (s : Vfs) : Prop :=
  ∃ p r s', parentOf s c.parent = some p ∧ c.run env s = some (r, s') ∧
    TreeCreate s.view (p, c.name) env.slab.isSome c.node r s'.view ∧ (r = .null → s'.inodes = s.inodes)

/-- **One creation call, on a VFS with the shape and the link counts, does what `TreeCreate` says.** -/
theorem Call.refines_of_wf {s : Vfs} {env : Env} {c : Call} (hW : Wf s) (hL : Links s) (hc : CallOk s env c) :
    c.Refines env s := by
  obtain ⟨p, d, s₁, e, pe, pi, hpp, hl, hW₁, -, he, -, -, -, -, -, hrun⟩ := Call.run_of_ok hW hL hc
  have hv : s₁.view = s.view := view_lookup hl
  have hk : dLookup s₁ p c.name = some d := lookup_dLookup hl
  have hino : s₁.inodes = s.inodes := lookup_inodes hl
  -- the tree at the name is the node on the lookup's dentry
  have hat : s.view (p, c.name) = s₁.node d := by
    rw [← hv]
    simp [Vfs.view, hk]
  cases hi : e.dInode with
  | some i =>
    -- `EEXIST`
    have htaken : s.view (p, c.name) ≠ none := by rw [hat]; exact hW₁.node_positive he hi
    refine ⟨p, .null, s₁, hpp, by rw [hrun]; simp [hi], .inl ⟨rfl, .inl htaken, hv⟩, fun _ => hino⟩
  | none =>
    have hfree : s.view (p, c.name) = none := by rw [hat]; exact Vfs.node_negative he hi
    cases ho : env.slab with
    | none =>
      -- `EPERM`
      refine ⟨p, .null, s₁, hpp, by rw [hrun]; simp [hi, ho], .inl ⟨rfl, .inr (by simp [ho]), hv⟩, fun _ => hino⟩
    | some o =>
      refine ⟨p, .obj d, createdVfs env o c.mode c.data c.fops pi d s₁, hpp, by rw [hrun]; simp [hi, ho],
        .inr ⟨d, rfl, hfree, by simp [ho], ?_⟩, fun h => by cases h⟩
      rw [view_created hW₁ he hc.mode hk, hv]
      rfl

/-- **The creation calls refine the tree machine**: in every VFS a sequence of them reaches from a mount, the link
counts hold, and every further call does to the tree of names what `TreeCreate` says. -/
theorem tree_calls_refine :
    (∀ s, Reachable s → Links s) ∧ ∀ s env (c : Call), Reachable s → CallOk s env c → c.Refines env s :=
  ⟨fun _ h => (reachable_wf h).2, fun _ _ _ h hc => Call.refines_of_wf (reachable_wf h).1 (reachable_wf h).2 hc⟩

theorem tree_calls_refine_fresh :
    Links (rootVfs freshInode 0) ∧ (Call.dir "a" .null).Refines freshEnv (rootVfs freshInode 0) :=
  ⟨tree_calls_refine.1 _ reachable_fresh, tree_calls_refine.2 _ _ _ reachable_fresh (by decide)⟩

/-! ## Whole runs, on the tree -/

theorem view_rootVfs (o : Inode) (now : Nat) : (rootVfs o now).view = fun _ => none := by
  funext ⟨q, nm⟩
  simp [Vfs.view, dLookup, rootVfs]

/-- **A creation call is a step of the tree machine.** -/
theorem Step.tree {s s' : Vfs} (h : Reachable s) (hs : Step s s') : TreeStep s.view s'.view := by
  obtain ⟨env, c, r, hc, hrun⟩ := hs
  obtain ⟨hW, hL⟩ := reachable_wf h
  obtain ⟨p, r', s'', -, hrun', ht, -⟩ := Call.refines_of_wf hW hL hc
  rw [hrun] at hrun'
  obtain ⟨rfl, rfl⟩ := Prod.mk.inj (Option.some.inj hrun')
  exact ⟨_, _, _, _, ht⟩

/-- **No run of creation calls loses a node**: from a reachable VFS, whatever calls follow, every name keeps what
is there. -/
theorem view_persists {s s' : Vfs} (h : Reachable s) (hr : Relation.ReflTransGen Step s s') {k : Nat × String}
    {x : Node} (hx : s.view k = some x) : s'.view k = some x := by
  refine Machine.Reach.stable (P := fun s => s.view k = some x) (fun s₁ s₂ h₁ hs hx₁ => ?_) h hr hx
  obtain ⟨_, _, _, _, ht⟩ := Step.tree h₁ hs
  exact ht.mono hx₁

theorem view_persists_fresh :
    ∃ s s', runCalls [(freshEnv, Call.dir "a" .null)] (rootVfs freshInode 0) = some s ∧
      (Call.dir "b" .null).run freshEnv s = some (.obj 2, s') ∧ s.view (0, "a") = some ⟨1, .dir, .simpleDir, none⟩ ∧
      s'.view (0, "a") = some ⟨1, .dir, .simpleDir, none⟩ := by
  have h : Reachable _ := Reachable.runCalls [(freshEnv, Call.dir "a" .null)] reachable_fresh (by decide) rfl
  refine ⟨_, _, rfl, rfl, by decide, ?_⟩
  exact view_persists h (.single ⟨freshEnv, Call.dir "b" .null, .obj 2, by decide, rfl⟩) (by decide)

end Aufs
