import Aufs.Access
import Aufs.Reader
/-!
# Resolve — the path walk, seen on the tree of names

What a path names in aufs can be read off the tree (`Tree.resolve`): from a directory and its ancestors, `.` stays,
`..` goes up one and stays at the top, and a name goes to the node the tree has under the directory, which must be a
directory unless it is the last; before each component the directory must be searchable.  There is no dentry cache,
no negative dentry, no `real_lookup` and no parent pointer: the ancestors are a stack.

`__link_path_walk` refines it on every VFS the calls reach (`walk_refines_resolve`): it ends at the dentry the tree
resolves the path to, and fails exactly where the resolution does, whoever walks and whatever `d_alloc` gets.  The
induction is carried by `Vfs.Chain`, the walk's dentry a directory whose ancestors are the stack, each the parent its
child was found under, so that `d_parent` is where `..` goes on the tree; and by `Vfs.LookupIffDir`, exactly the
directories having a `lookup`, so that the walk goes on through a name iff the tree's node there is a directory.
-/
namespace Aufs

/-! ## Resolution on the tree -/

/-- **Path resolution on a tree of names**, from the directory `d` whose ancestors, nearest first, are `up`: before
each component `d` must be searchable; `.` stays, `..` goes to the nearest ancestor and stays at the top, and a name
goes to the node the tree has under `d`, which must be a directory unless it is the last, and then too when
`dirOnly`.  The dentry it ends at, or `none`. -/
def Tree.resolve (t : Tree) (search : Nat → Bool) (dirOnly : Bool) : List Nat → Nat → List String → Option Nat
  | _, d, [] => some d
  | up, d, c :: cs =>
    if search d = false then none
    else if c = "." then Tree.resolve t search dirOnly up d cs
    else if c = ".." then
      match up with
      | [] => Tree.resolve t search dirOnly [] d cs
      | p :: up => Tree.resolve t search dirOnly up p cs
    else match t (d, c) with
      | none => none
      | some x =>
        if cs = [] then (if dirOnly = true ∧ x.kind ≠ .dir then none else some x.dentry)
        else if x.kind = .dir then Tree.resolve t search dirOnly (d :: up) x.dentry cs
        else none

/-- **Resolution of a path of directories**: as `Tree.resolve`, but every component must be a directory, the last
too; the directory it ends at and its ancestors. -/
def Tree.resolveDir (t : Tree) (search : Nat → Bool) : List Nat → Nat → List String → Option (List Nat × Nat)
  | up, d, [] => some (up, d)
  | up, d, c :: cs =>
    if search d = false then none
    else if c = "." then Tree.resolveDir t search up d cs
    else if c = ".." then
      match up with
      | [] => Tree.resolveDir t search [] d cs
      | p :: up => Tree.resolveDir t search up p cs
    else match t (d, c) with
      | none => none
      | some x => if x.kind = .dir then Tree.resolveDir t search (d :: up) x.dentry cs else none

section resolve

variable {t : Tree} {search : Nat → Bool} {b : Bool}

/-- **A path of directories, then anything**: resolving the whole is resolving the rest from where the directories
lead. -/
theorem Tree.resolve_append {q p : List String} {up up' : List Nat} {d d' : Nat}
    (h : t.resolveDir search up d p = some (up', d')) :
    t.resolve search b up d (p ++ q) = t.resolve search b up' d' q := by
  fun_induction Tree.resolveDir t search up d p with
  | case1 =>
    obtain ⟨rfl, rfl⟩ := Prod.mk.inj (Option.some.inj h)
    rfl
  | case2 => cases h
  | case3 _ _ _ hs ih =>
    rw [List.cons_append, ← ih h]
    simp [Tree.resolve, hs]
  | case4 _ _ hs _ ih =>
    rw [List.cons_append, ← ih h]
    simp [Tree.resolve, hs]
  | case5 _ _ hs _ _ _ ih =>
    rw [List.cons_append, ← ih h]
    simp [Tree.resolve, hs]
  | case6 => cases h
  | case7 _ _ c cs hs hdot hdd x hx hk ih =>
    -- a directory the tree has: the resolution goes on from it, also where the rest is empty
    rw [List.cons_append, ← ih h]
    by_cases hcq : cs ++ q = []
    · obtain ⟨rfl, rfl⟩ := List.append_eq_nil_iff.1 hcq
      simp [Tree.resolve, hs, hdot, hdd, hx, hk]
    · simp [Tree.resolve, hs, hdot, hdd, hx, hk, hcq]
  | case8 => cases h

/-- **Going into a directory and back out is staying**, when both may be searched. -/
theorem Tree.resolve_child_dotdot {up : List Nat} {d : Nat} {c : String} {cs : List String} {x : Node} (hs : search d = true) (hc : c ≠ "." ∧ c ≠ "..") (hx : t (d, c) = some x)
    (hk : x.kind = .dir) (hs' : search x.dentry = true) :
    t.resolve search b up d (c :: ".." :: cs) = t.resolve search b up d cs := by
  simp [Tree.resolve, hs, hc.1, hc.2, hx, hk, hs']

/-- **Resolution ends where it started, at one of the ancestors, or on a node of the tree.** -/
theorem Tree.resolve_cases {path : List String} {up : List Nat} {d d' : Nat}
    (h : t.resolve search b up d path = some d') : d' = d ∨ d' ∈ up ∨ ∃ k x, t k = some x ∧ x.dentry = d' := by
  fun_induction Tree.resolve t search b up d path with
  | case1 => exact .inl (Option.some.inj h).symm
  | case2 => cases h
  | case3 _ _ _ _ ih => exact ih h
  | case4 _ _ _ _ ih => exact ih h
  | case5 _ _ _ p up _ ih =>
    -- `..` goes to the nearest ancestor
    rcases ih h with rfl | hm | hx
    · exact .inr (.inl List.mem_cons_self)
    · exact .inr (.inl (List.mem_cons_of_mem _ hm))
    · exact .inr (.inr hx)
  | case6 => cases h
  | case7 => cases h
  | case8 _ _ _ _ _ _ x hx _ => exact .inr (.inr ⟨_, x, hx, Option.some.inj h⟩)
  | case9 up d _ _ _ _ _ x hx _ _ ih =>
    -- going down: the child, the directory it was found in, or further
    rcases ih h with rfl | hm | hx'
    · exact .inr (.inr ⟨_, x, hx, rfl⟩)
    · rcases List.mem_cons.1 hm with rfl | hm
      · exact .inl rfl
      · exact .inr (.inl hm)
    · exact .inr (.inr hx')
  | case10 => cases h

end resolve

/-! ## Where the walk stands -/

/-- **The walk's position**: `d` is a directory of `s` and `up` its ancestors, nearest first, up to the root, each
the parent its child was found under by `d_lookup`. -/
inductive Vfs.Chain (s : Vfs) : List Nat → Nat → Prop
  | root : Vfs.Chain s [] 0
  | child {up : List Nat} {p d : Nat} {c : String} :
      Vfs.Chain s up p → dLookup s p c = some d → s.isDir d = true → Vfs.Chain s (p :: up) d

/-- **Exactly the directories have a `lookup`**. -/
def Vfs.LookupIffDir (s : Vfs) : Prop :=
  ∀ (i : Nat) (n : Inode), s.inodes[i]? = some n → (n.iOp.lookup = true ↔ kindOf n.iMode = .dir)

/-- Whether `cred` may search the directory on the dentry `d`, as the walk asks before each component. -/
def Vfs.mayWalk (s : Vfs) (cred : Cred) (d : Nat) : Bool :=
  match s.inodeOf d with
  | some n => execPermissionLite cred n == 0
  | none => false

section chain

variable {s : Vfs} {up : List Nat} {d : Nat} {e : Dentry} {n : Inode}

theorem Vfs.Chain.isDir (hW : Wf s) : s.Chain up d → s.isDir d = true
  | .root => hW.rootDir
  | .child _ _ hd => hd

theorem Vfs.Chain.eq_root (h : s.Chain [] d) : d = 0 := by
  cases h
  rfl

/-- Below the root, the walk's `d_parent` is the nearest ancestor. -/
theorem Vfs.Chain.parent (hW : Wf s) {p : Nat} (h : s.Chain (p :: up) d) (he : s.dentries[d]? = some e) :
    d ≠ 0 ∧ e.dParent = p ∧ s.Chain up p := by
  cases h with
  | child hp hl _ =>
    obtain ⟨e', he', hh, hpar, -⟩ := dLookup_some hl
    obtain rfl : e = e' := Option.some.inj (he.symm.trans he')
    refine ⟨?_, hpar, hp⟩
    -- a dentry `d_lookup` finds is hashed, and the root's is not
    rintro rfl
    obtain ⟨r, hr, -, hrh⟩ := hW.root
    rw [hr] at he
    rw [Option.some.inj he, hh] at hrh
    cases hrh

theorem Vfs.isDir_of_inodeOf (h : s.inodeOf d = some n) (hk : kindOf n.iMode = .dir) : s.isDir d = true := by
  unfold Vfs.inodeOf at h
  split at h
  · rename_i x hx
    split at h
    · rename_i i hi
      have hd : n.iMode &&& S_IFMT = S_IFDIR := by
        unfold kindOf at hk
        split at hk
        · assumption
        · cases hk
      exact Vfs.isDir_iff.2 ⟨x, i, n, hx, hi, h, hd⟩
    · cases h
  · cases h

theorem Vfs.LookupIffDir.inodeOf (hL : s.LookupIffDir) (h : s.inodeOf d = some n) :
    n.iOp.lookup = true ↔ kindOf n.iMode = .dir := by
  obtain ⟨i, hi⟩ := Vfs.inodeOf_mem h
  exact hL i n hi

theorem Vfs.node_eq (s : Vfs) (d : Nat) :
    s.node d = (s.inodeOf d).map fun n => ⟨d, kindOf n.iMode, n.iFop, n.iPrivate⟩ := by
  unfold Vfs.node Vfs.inodeIdx Vfs.inodeOf
  cases s.dentries[d]? with
  | none => rfl
  | some e =>
    simp only [Option.bind_some]
    cases e.dInode <;> rfl

end chain

/-! ## Exactly the directories have a `lookup`, on every VFS the calls reach -/

section lookupIffDir

variable {s s' : Vfs}

theorem createdInode_lookup {env : Env} {o : Inode} {mode : Nat} {data : Option Nat} {fops : Option Fops}
    (hm : ModeOk mode) :
    (createdInode env o mode data fops).iOp.lookup = true ↔ kindOf (createdInode env o mode data fops).iMode = .dir := by
  rw [kindOf_createdInode hm]
  by_cases hd : mode &&& S_IFMT = S_IFDIR
  · simp [kindOf, hd, (createdInode_dir hd).2.1, Iops.lookup]
  · simp [kindOf, hd, createdInode_reg_iOp (hm.resolve_left hd), Iops.lookup]

theorem Vfs.LookupIffDir.step (hL : s.LookupIffDir) (hW : Wf s) (hLk : Links s) (h : Step s s') :
    s'.LookupIffDir := by
  obtain ⟨env, c, r, hc, hrun⟩ := h
  obtain ⟨p, d, s₁, e, pe, pi, -, -, hl, -, -, -, -, -, -, ⟨-, rfl⟩ | ⟨o, -, -, -, rfl⟩⟩ :=
    Call.run_cases hW hLk hc hrun
  · intro i n hn
    rw [lookup_inodes hl] at hn
    exact hL i n hn
  · intro i n hn
    rcases created_inode_eq_some hn with ⟨-, rfl⟩ | ⟨n₀, hn₀, rfl⟩
    · exact createdInode_lookup hc.mode
    · rw [lookup_inodes hl] at hn₀
      exact hL i n₀ hn₀

theorem reachable_lookupIffDir (h : Reachable s) : s.LookupIffDir := by
  refine Machine.Reach.induction (P := Vfs.LookupIffDir) (fun s₀ h₀ => ?_)
    (fun s s' hr hL hs => hL.step (reachable_wf hr).1 (reachable_wf hr).2 hs) h
  obtain ⟨env, now, hm⟩ := h₀
  obtain ⟨o, rfl⟩ := aufsGetSb_ok hm
  intro i n hn
  obtain ⟨-, rfl⟩ := rootVfs_inode hn
  have hk : kindOf (rootInode o now).iMode = .dir := by rw [kindOf, if_pos rootInode_type]
  rw [hk]
  exact ⟨fun _ => rfl, fun _ => rfl⟩

end lookupIffDir

/-! ## The walk refines the resolution -/

section walk

variable {s : Vfs} {cred : Cred} {ok : Bool} {F : Nat}

/-- **From a position of the walk, `__link_path_walk` resolves a path as the tree does**: it ends at the dentry the
tree resolves the path to, and with an error exactly where the resolution fails. -/
theorem Vfs.Chain.walk (hW : Wf s) (hL : s.LookupIffDir) (hF : F &&& LOOKUP_PARENT = 0) :
    ∀ (path : List String) {up : List Nat} {d : Nat}, s.Chain up d →
      (linkPathWalk cred ok F s d path).map Except.toOption =
        some (s.view.resolve (s.mayWalk cred) (F &&& LOOKUP_DIRECTORY != 0) up d path)
  | [], _, _, _ => by simp [linkPathWalk, Tree.resolve, Except.toOption]
  | c :: cs, up, d, hC => by
    obtain ⟨n, hn, hop⟩ := hW.inodeOf_dir (hC.isDir hW)
    obtain ⟨e, he⟩ := Vfs.dentry_of_inodeOf hn
    have hm : s.mayWalk cred d = (execPermissionLite cred n == 0) := by simp only [Vfs.mayWalk, hn]
    by_cases hx : execPermissionLite cred n = 0
    swap
    · rw [linkPathWalk_denied he hn hx]
      simp [Tree.resolve, hm, hx, Except.toOption]
    rw [linkPathWalk, he, hn]
    simp only [Tree.resolve, hm, hx, hF, beq_self_eq_true, Bool.true_eq_false, if_false, ne_eq, not_true_eq_false,
      and_false]
    by_cases hdot : c = "."
    · simp only [hdot, if_true]
      exact Vfs.Chain.walk hW hL hF cs hC
    by_cases hdd : c = ".."
    · simp only [hdd, if_true]
      -- `follow_dotdot` goes to `d_parent`, the nearest ancestor, and stays at the root
      cases up with
      | nil =>
        obtain rfl := hC.eq_root
        simp only [if_true]
        exact Vfs.Chain.walk hW hL hF cs hC
      | cons p up =>
        obtain ⟨hd0, hpar, hp⟩ := hC.parent hW he
        simp only [hd0, if_false, hpar]
        exact Vfs.Chain.walk hW hL hF cs hp
    simp only [hdot, hdd, if_false, Vfs.view]
    cases hl : dLookup s d c with
    | none =>
      -- `real_lookup` finds nothing under the name, whatever `d_alloc` gets
      cases ok <;> simp [hop, Except.toOption, apply_ite]
    | some d' =>
      simp only [Option.bind_some, Vfs.node_eq]
      cases hn' : s.inodeOf d' with
      | none => simp [Except.toOption]
      | some n' =>
        have hk := hL.inodeOf hn'
        simp only [Option.map_some]
        by_cases hcs : cs = []
        · subst hcs
          by_cases hdir : kindOf n'.iMode = .dir
          · simp [hdir, hk.2 hdir, Except.toOption]
          · have hlk : n'.iOp.lookup = false := by simpa [hdir] using hk
            simp [hdir, hlk, Except.toOption, apply_ite]
        · by_cases hdir : kindOf n'.iMode = .dir
          · simp only [hcs, hdir, hk.2 hdir, if_false, if_true, Bool.true_eq_false]
            exact Vfs.Chain.walk hW hL hF cs (.child hC hl (Vfs.isDir_of_inodeOf hn' hdir))
          · have hlk : n'.iOp.lookup = false := by simpa [hdir] using hk
            simp [hcs, hdir, hlk, Except.toOption]

end walk

/-! ## What user space opens -/

/-- An open file stands on the aufs root or on the dentry of a name of the tree, with the file operations of that
dentry's inode, or `empty_fops` for an `O_PATH` file. -/
def Vfs.FileOnTree (s : Vfs) (f : File) : Prop :=
  (∃ n, s.inodeOf f.dentry = some n ∧ f.fOp = if f.fMode = FMODE_PATH then .empty else n.iFop) ∧
    (f.dentry = 0 ∨ ∃ k x, s.view k = some x ∧ x.dentry = f.dentry)

section fileOnTree

variable {s : Vfs} {cred : Cred} {ok : Bool} {path : List String} {flag d : Nat}

/-- **A walk from the root without `LOOKUP_PARENT` ends at the aufs root or at a name of the tree.** -/
theorem walk_onTree (hW : Wf s) (hL : s.LookupIffDir) {F : Nat} (hF : F &&& LOOKUP_PARENT = 0)
    (hw : linkPathWalk cred ok F s 0 path = some (.ok d)) : d = 0 ∨ ∃ k x, s.view k = some x ∧ x.dentry = d := by
  have hr : (linkPathWalk cred ok F s 0 path).map Except.toOption =
      some (s.view.resolve (s.mayWalk cred) (F &&& LOOKUP_DIRECTORY != 0) [] 0 path) :=
    Vfs.Chain.walk hW hL hF path .root
  rw [hw] at hr
  rcases Tree.resolve_cases (Option.some.inj hr).symm with h0 | hup | hx
  · exact .inl h0
  · cases hup
  · exact .inr hx

/-- **`open_namei` gives the aufs root or a name of the tree**: the walk ends where the tree's resolution does, and
with `O_CREAT` the dentry is a positive one `d_lookup` found. -/
theorem openNamei_onTree (hW : Wf s) (hL : s.LookupIffDir) (h : openNamei cred ok s path flag = some (.ok d)) :
    d = 0 ∨ ∃ k x, s.view k = some x ∧ x.dentry = d := by
  obtain ⟨n, hn, -, -, hw | ⟨dir, last, hl⟩⟩ := openNamei_ok h
  · exact walk_onTree hW hL (lookupFlags_parent flag) hw
  · exact .inr ⟨(dir, last), ⟨d, kindOf n.iMode, n.iFop, n.iPrivate⟩, by simp [Vfs.view, hl, Vfs.node_eq, hn], rfl⟩

/-- What stands on the tree has an inode. -/
theorem Vfs.inodeOf_onTree (hW : Wf s) (h : d = 0 ∨ ∃ k x, s.view k = some x ∧ x.dentry = d) :
    ∃ n, s.inodeOf d = some n := by
  rcases h with rfl | ⟨⟨p, nm⟩, x, hx, rfl⟩
  · obtain ⟨e, i, n, he, hi, hn, -⟩ := Vfs.isDir_iff.1 hW.rootDir
    exact ⟨n, by simp [Vfs.inodeOf, he, hi, hn]⟩
  · obtain ⟨-, i, n, hi, hn, -⟩ := Vfs.view_eq_some hx
    exact ⟨n, by rw [Vfs.inodeOf_of_inodeIdx hi, hn]⟩

/-- **One call keeps every open file on the tree.** -/
theorem Os.step_fileOnTree (hW : Wf s) (hL : s.LookupIffDir) {st st' : Os} {ev : Syscall} {r : Ret}
    (h : Os.step s st ev = some (r, st')) (hF : st.FilesOk s.FileOnTree) : st'.FilesOk s.FileOnTree := by
  rcases Os.step_cases h with rfl | ⟨cred, path, flags, ok, f, rfl, hf, rfl⟩ |
    ⟨fd, f, k, hf, rfl⟩ | ⟨fd, b, count, f, rfl, -, -, -, rfl⟩ | ⟨fd, rfl⟩
  · exact hF
  · rcases filpOpen_ok hf with ⟨-, d, hw, rfl⟩ | ⟨-, d, n, hd, hn, rfl⟩
    · -- `O_PATH`: `empty_fops`, where the walk ends
      have ht := walk_onTree hW hL (lookupFlags_parent _) hw
      obtain ⟨n, hn⟩ := Vfs.inodeOf_onTree hW ht
      exact hF.install ⟨⟨n, hn, by simp⟩, ht⟩ _
    · -- `__dentry_open` takes the inode's `i_fop`, and an access mode is no `FMODE_PATH`
      have hm : (flags + 1) &&& O_ACCMODE ≠ FMODE_PATH := by
        have : (flags + 1) &&& O_ACCMODE ≤ 3 := Nat.and_le_right
        unfold FMODE_PATH
        omega
      exact hF.install ⟨⟨n, hn, by simp [hm]⟩, openNamei_onTree hW hL hd⟩ _
  · exact hF.setFile (f := { f with fPos := k }) (hF fd f hf) fd
  · exact hF
  · exact hF.close fd

theorem Os.Reach.fileOnTree (hs : Reachable s) {P : Syscall → Prop} {st : Os} (h : Os.Reach s P st) :
    st.FilesOk s.FileOnTree := by
  refine Machine.Reach.induction (P := fun st => st.FilesOk s.FileOnTree) ?_ ?_ h
  · rintro _ rfl
    exact Os.filesOk_init
  · rintro st st' - hF ⟨ev, r, -, hst⟩
    exact Os.step_fileOnTree (reachable_wf hs).1 (reachable_lookupIffDir hs) hst hF

end fileOnTree

section initInodes

variable {E : Env → Prop} {s : Vfs}

theorem InitInodes.mayWalk_root (hI : InitInodes E s) (hW : Wf s) (cred : Cred) : s.mayWalk cred 0 = true := by
  obtain ⟨n, hn, hmode, -⟩ := hI.rootInode hW
  have hx : execPermissionLite cred n = 0 := execPermissionLite_of_searchable (by rw [hmode]; decide)
  simp [Vfs.mayWalk, hn, hx]

theorem InitInodes.mayWalk_dir (hI : InitInodes E s) (hW : Wf s) {cred : Cred} {nm : String} {x : Node}
    (hv : s.view (0, nm) = some x) (hk : x.kind = .dir) (hd : x.dentry ≠ 0)
    (hc : (∀ env, E env → env.fsuid = cred.fsuid) ∨ cred.capDacOverride = true) :
    s.mayWalk cred x.dentry = true := by
  obtain ⟨-, n, env, hn, hE, hun, hmode, -⟩ := hI.dir hW hv hk hd
  have hx : execPermissionLite cred n = 0 := by
    rcases hc with hu | ho
    · exact execPermissionLite_owner (by rw [hun, hu env hE]) (by rw [hmode]; decide)
    · exact execPermissionLite_dir_override (by rw [hmode]; decide) ho
  simp [Vfs.mayWalk, hn, hx]

end initInodes

/-! ## On every VFS the calls reach -/

/-- **`__link_path_walk` refines path resolution on the tree**: on every VFS the calls reach, for every task and
whatever `d_alloc` gets, a walk from the root without `LOOKUP_PARENT` ends at the dentry the tree resolves the path
to, and fails exactly where the resolution does; it never oopses.  The walk's root is the task's root
(`current->fs->root`), so that `follow_dotdot` keeps `..` there; under a mount on a directory of another file system,
`..` at the aufs root would go up to that file system instead. -/
theorem walk_refines_resolve {s : Vfs} (hs : Reachable s) (cred : Cred) (ok : Bool) {F : Nat}
    (hF : F &&& LOOKUP_PARENT = 0) (path : List String) :
    (linkPathWalk cred ok F s 0 path).map Except.toOption =
      some (s.view.resolve (s.mayWalk cred) (F &&& LOOKUP_DIRECTORY != 0) [] 0 path) :=
  Vfs.Chain.walk (reachable_wf hs).1 (reachable_lookupIffDir hs) hF path .root

theorem walk_refines_resolve_init :
    ∃ s, aufsInit false freshEnv 0 (fun _ => freshEnv) = some (0, ⟨true, some (.ok s)⟩) ∧
      (linkPathWalk ⟨0, 0, [], false, false, false⟩ true 0 s 0 ["woman_star", "..", "man_star", "jw"]).map
          Except.toOption =
        some (s.view.resolve (s.mayWalk ⟨0, 0, [], false, false, false⟩) (0 &&& LOOKUP_DIRECTORY != 0) [] 0
          ["woman_star", "..", "man_star", "jw"]) := by
  obtain ⟨s, hs, hr, -, -⟩ := aufsInit_run kernMount_fresh grants_fresh
  exact ⟨s, hs, walk_refines_resolve hr.reachable _ true (by decide) _⟩

/-- **`..` undoes a step into a directory, anywhere in a path**: on every VFS the calls reach, where a path of
directories leads the walk from the root, going on into a subdirectory there and back out by `..` ends where going
straight on does, or fails where it fails, for a task that may search both directories.  As in
`walk_refines_resolve`, the aufs root is the task's root. -/
theorem walk_dotdot {s : Vfs} (hs : Reachable s) (cred : Cred) (ok : Bool) {F : Nat} (hF : F &&& LOOKUP_PARENT = 0)
    {p : List String} {up : List Nat} {d : Nat} (hp : s.view.resolveDir (s.mayWalk cred) [] 0 p = some (up, d))
    {c : String} {x : Node} (hc : c ≠ "." ∧ c ≠ "..") (hx : s.view (d, c) = some x) (hk : x.kind = .dir)
    (hsd : s.mayWalk cred d = true) (hsx : s.mayWalk cred x.dentry = true) (q : List String) :
    (linkPathWalk cred ok F s 0 (p ++ c :: ".." :: q)).map Except.toOption =
      (linkPathWalk cred ok F s 0 (p ++ q)).map Except.toOption := by
  have hW := (reachable_wf hs).1
  have hL := reachable_lookupIffDir hs
  rw [Vfs.Chain.walk hW hL hF _ .root, Vfs.Chain.walk hW hL hF _ .root, Tree.resolve_append hp,
    Tree.resolve_append hp, Tree.resolve_child_dotdot hsd hc hx hk hsx]

/-- `man_star/../woman_star/../man_star/jw` is `man_star/../man_star/jw` to the loading task. -/
theorem walk_dotdot_stars :
    ∃ s, aufsInit false freshEnv 0 (fun _ => freshEnv) = some (0, ⟨true, some (.ok s)⟩) ∧
      (linkPathWalk ⟨0, 0, [], false, false, false⟩ true 0 s 0
          (["man_star", ".."] ++ "woman_star" :: ".." :: ["man_star", "jw"])).map Except.toOption =
        (linkPathWalk ⟨0, 0, [], false, false, false⟩ true 0 s 0 (["man_star", ".."] ++ ["man_star", "jw"])).map
          Except.toOption := by
  obtain ⟨s, hs, hr, -, -⟩ := aufsInit_run kernMount_fresh grants_fresh
  obtain ⟨hI, hW, hv⟩ := aufsInit_inodes kernMount_fresh grants_fresh (fun _ => rfl) hs
  -- the loading task owns both stars
  have hu : ∀ env, InitEnv (fun _ => freshEnv) env → env.fsuid = 0 := fun _ ⟨_, he⟩ => by rw [he]; rfl
  have hw : s.view (0, "woman_star") = some ⟨1, .dir, .simpleDir, none⟩ := by rw [hv]; decide
  have hmn : s.view (0, "man_star") = some ⟨5, .dir, .simpleDir, none⟩ := by rw [hv]; decide
  have h5 : s.mayWalk ⟨0, 0, [], false, false, false⟩ 5 = true := hI.mayWalk_dir hW hmn rfl (by decide) (.inl hu)
  have hp : s.view.resolveDir (s.mayWalk ⟨0, 0, [], false, false, false⟩) [] 0 ["man_star", ".."] = some ([], 0) := by
    simp [Tree.resolveDir, hI.mayWalk_root hW, hmn, h5]
  exact ⟨s, hs, walk_dotdot hr.reachable _ true (by decide) hp (by decide) hw rfl (hI.mayWalk_root hW _)
    (hI.mayWalk_dir hW hw rfl (by decide) (.inl hu)) _⟩

/-- **User space opens only what is in the tree**: on every VFS the calls reach, after any `open`, `read`, `write`,
`getdents` and `close` by any tasks, every open descriptor is on the aufs root or on the dentry of a name of the
tree, on that dentry's inode and with its file operations, or `empty_fops` for an `O_PATH` one: no `open`, with or
without `O_CREAT` or `O_PATH`, gives a descriptor on a negative dentry or on one the tree does not show. -/
theorem files_in_tree {s : Vfs} (hs : Reachable s) {P : Syscall → Prop} {st : Os} (h : Os.Reach s P st) {fd : Nat}
    {f : File} (hf : st.files[fd]? = some (some f)) :
    (∃ n, s.inodeOf f.dentry = some n ∧ f.fOp = if f.fMode = FMODE_PATH then .empty else n.iFop) ∧
      (f.dentry = 0 ∨ ∃ k x, s.view k = some x ∧ x.dentry = f.dentry) :=
  Os.Reach.fileOnTree hs h fd f hf

/-- The loading task opens `woman_star/lbb`. -/
theorem files_in_tree_lbb :
    ∃ s, aufsInit false freshEnv 0 (fun _ => freshEnv) = some (0, ⟨true, some (.ok s)⟩) ∧
      Os.Reach s (fun _ => True) ⟨enabledInit, [some ⟨2, FMODE_READ, .aufs, 0⟩]⟩ ∧
      (∃ n, s.inodeOf 2 = some n ∧ Fops.aufs = if FMODE_READ = FMODE_PATH then .empty else n.iFop) ∧
      ((2 : Nat) = 0 ∨ ∃ k x, s.view k = some x ∧ x.dentry = 2) := by
  obtain ⟨s, hs, hr₀, -⟩ := aufsInit_run kernMount_fresh grants_fresh
  have hr : Os.Reach s (fun _ => True) ⟨enabledInit, [some ⟨2, FMODE_READ, .aufs, 0⟩]⟩ :=
    Machine.Reach.tail (Machine.Reach.of_init rfl)
      ⟨.open ⟨0, 0, [], false, false, false⟩ ["woman_star", "lbb"] 0 true, _, trivial, sysOpen_lbb_fresh hs⟩
  have hf : (⟨enabledInit, [some ⟨2, FMODE_READ, .aufs, 0⟩]⟩ : Os).files[0]? = some (some ⟨2, FMODE_READ, .aufs, 0⟩) :=
    rfl
  exact ⟨s, hs, hr, files_in_tree hr₀.reachable hr hf⟩

end Aufs
