import Aufs.Refs
import Aufs.ErrPtr
/-!
# Init — `aufs_init` and `aufs_exit`, the module's load and unload

`aufs_init` registers `aufs_type`, mounts it with `kern_mount`, and makes two blocks of the tree: a directory under
the root (`pslot = aufs_create_dir(dir, NULL)`), then three read-only files under `pslot` with
`aufs_file_operations`.  Nothing checks `pslot`: a directory that is not made leaves it `NULL`, which
`aufs_create_by_name` reads as the root, so that block's files are made in the root.

On the tree of names this is `initTree`, given which of the eight calls get an inode; every run of `aufs_init` whose
lookups are granted leaves a reachable VFS with that tree (`aufsInit_view`).  The return value is
`register_filesystem`'s whatever happens after it: a failed mount unregisters aufs and still returns 0, and a lookup
that fails oopses `aufs_init` (`aufsInit_enomem_oops`).  `aufs_exit` unmounts, and `d_genocide` leaves every
dentry `aufs_init` made referenced, so that the unmount finds all eight still referenced (`aufsExit_in_use`).
-/
namespace Aufs

/-! ## The model -/

/-- `register_filesystem(&aufs_type)`: `EBUSY` when a file system named `aufs` is registered already. -/
def registerFilesystem (taken : Bool) : Int := if taken then -EBUSY else 0

/-- `kern_mount(&aufs_type)`: `aufs_type.mount`, which is `aufs_get_sb`. -/
def kernMount (env : Env) (now : Nat) : Except Int Vfs := aufsGetSb env now

/-- What the module leaves besides its return value: whether `aufs_type` is registered, and `aufs_mount` — `NULL`
until `kern_mount` is called, then the mount or the error pointer `kern_mount` returned. -/
structure Loaded where
  registered : Bool
  aufsMount : Option (Except Int Vfs)

/-- The files of one block, call `k` onwards: `aufs_create_file(name, S_IFREG | S_IRUGO, pslot, NULL,
&aufs_file_operations)` for each name in turn, whatever the one before returned. -/
def aufsCreateFiles (env : Nat → Env) (k : Nat) (pslot : Ptr) : List String → Vfs → Option Vfs
  | [], s => some s
  | name :: names, s =>
    match aufsCreateFile (env k) name (S_IFREG ||| S_IRUGO) pslot none (some .aufs) s with
    | some (_, s) => aufsCreateFiles env (k + 1) pslot names s
    | none => none

/-- One block of `aufs_init`, call `k` onwards: `pslot = aufs_create_dir(dir, NULL)`, then the files under `pslot`. -/
def aufsInitStar (env : Nat → Env) (k : Nat) (dir : String) (files : List String) (s : Vfs) : Option Vfs :=
  match aufsCreateDir (env k) dir .null s with
  | some (pslot, s) => aufsCreateFiles env (k + 1) pslot files s
  | none => none

/-- **`aufs_init()`**, its eight calls numbered in order and call `k` made in the surroundings `env k`: the return
value and what the module leaves.  `ret` is `register_filesystem`'s; a failed `kern_mount` unregisters `aufs_type`
and returns `ret`. -/
def aufsInit (taken : Bool) (menv : Env) (now : Nat) (env : Nat → Env) : Option (Int × Loaded) :=
  let ret := registerFilesystem taken
  if ret ≠ 0 then some (ret, ⟨false, none⟩)
  else match kernMount menv now with
    | .error e => some (ret, ⟨false, some (.error e)⟩)
    | .ok s =>
      match aufsInitStar env 0 "woman_star" ["lbb", "fbb", "lj1"] s with
      | none => none
      | some s =>
        match aufsInitStar env 4 "man_star" ["ldh", "lcw", "jw"] s with
        | none => none
        | some s => some (ret, ⟨true, some (.ok s)⟩)

/-- The dentries below the root that are still referenced, by index: after `kill_litter_super`'s `d_genocide`,
those the unmount's shrink of the dentry cache cannot free. -/
def inUse (s : Vfs) : List Nat :=
  (List.range s.dentries.length).filter (fun d => d != 0 && (s.dentries[d]?).any (fun e => e.dCount != 0))

/-- **`aufs_exit()`**: `kern_unmount(aufs_mount)`, which for a mount ends in `kill_litter_super` and for an error
pointer does nothing, then `unregister_filesystem` and `aufs_mount = NULL`.  What the module leaves, and the dentries
the unmount finds still referenced. -/
def aufsExit (m : Loaded) : Loaded × List Nat :=
  (⟨false, none⟩, match m.aufsMount with
    | some (.ok s) => inUse (dGenocide s)
    | _ => [])

/-! ## The tree `aufs_init` builds -/

/-- The files of a block on the tree, call `k` onwards: call `k` adds the file `nm` under `p` on the dentry `k + 1`
when it gets an inode (`ok k`), and nothing when not. -/
def treeFiles (ok : Nat → Bool) (k p : Nat) : List String → Tree → Tree
  | [], t => t
  | nm :: nms, t =>
    treeFiles ok (k + 1) p nms (if ok k then Function.update t (p, nm) (some ⟨k + 1, .reg, .aufs, none⟩) else t)

/-- A block on the tree: the directory `dir` under the root on the dentry `k + 1`, and its files under it; when the
directory gets no inode, its files under the root. -/
def treeStar (ok : Nat → Bool) (k : Nat) (dir : String) (files : List String) (t : Tree) : Tree :=
  if ok k then treeFiles ok (k + 1) (k + 1) files (Function.update t (0, dir) (some ⟨k + 1, .dir, .simpleDir, none⟩))
  else treeFiles ok (k + 1) 0 files t

/-- **The tree `aufs_init` builds**, given which of its eight calls get an inode. -/
def initTree (ok : Nat → Bool) : Tree :=
  treeStar ok 4 "man_star" ["ldh", "lcw", "jw"] (treeStar ok 0 "woman_star" ["lbb", "fbb", "lj1"] (fun _ => none))

/-! ## One call on a new name -/

/-- The names in the dentry cache, in allocation order. -/
def Vfs.names (s : Vfs) : List String := s.dentries.map (·.dName)

section fresh

variable {s s' : Vfs} {env : Env} {c : Call} {r : Ptr}

theorem names_created {o : Inode} {mode : Nat} {data : Option Nat} {fops : Option Fops} {pi d : Nat} :
    (createdVfs env o mode data fops pi d s).names = s.names := by
  simp only [Vfs.names, createdVfs]
  exact Table.map_modify (f := fun e : Dentry => { e with dInode := some s.inodes.length, dCount := e.dCount + 1 })
    (fun _ => rfl) _ _

theorem dLookup_of_not_mem {p : Nat} {name : String} (hn : name ∉ s.names) : dLookup s p name = none := by
  cases h : dLookup s p name with
  | none => rfl
  | some d =>
    obtain ⟨e, he, -, -, rfl⟩ := dLookup_some h
    exact absurd (List.mem_map.2 ⟨e, List.mem_of_getElem? he, rfl⟩) hn

theorem Vfs.isDir_lookup {s₁ : Vfs} {name : String} {p d q : Nat}
    (hl : lookupOneLen env name p s = some (.obj d, s₁)) (hq : s.isDir q = true) : s₁.isDir q = true := by
  obtain ⟨-, -, -, -, ⟨-, rfl⟩ | ⟨-, -, -, -, -, rfl⟩⟩ := lookupOneLen_obj hl
  · exact (isDir_countOnly (s := s) (d := d) countOnly_incCount q).trans hq
  · have hql : q < (s.dentries.modify p incCount).length := by
      rw [List.length_modify]; exact Vfs.dentry_lt_of_isDir hq
    exact (isDir_addNegative (s := { s with dentries := s.dentries.modify p incCount }) q hql).trans
      ((isDir_countOnly countOnly_incCount q).trans hq)

/-- **A call keeps every directory a directory.** -/
theorem Call.run_isDir (hW : Wf s) (hL : Links s) (hc : CallOk s env c) (h : c.run env s = some (r, s'))
    {q : Nat} (hq : s.isDir q = true) : s'.isDir q = true := by
  obtain ⟨p, d, s₁, e, pe, pi, -, -, hl, hW₁, -, he, -, -, -, ⟨-, rfl⟩ | ⟨o, -, -, hi, rfl⟩⟩ :=
    Call.run_cases hW hL hc h
  · exact Vfs.isDir_lookup hl hq
  · have hq₁ := Vfs.isDir_lookup hl hq
    rw [created_isDir hW₁ (Vfs.isDir_ne_negative hq₁ he hi)]
    exact hq₁

theorem Call.run_parentOk (hW : Wf s) (hL : Links s) (hc : CallOk s env c) (h : c.run env s = some (r, s'))
    {x : Ptr} (hx : parentOk s x = true) : parentOk s' x = true := by
  cases x with
  | null => rfl
  | obj q => exact Call.run_isDir hW hL hc h hx
  | err _ => cases hx

theorem parentOf_wf (hW : Wf s) (hW' : Wf s') (x : Ptr) : parentOf s' x = parentOf s x := by
  cases x with
  | null => simp only [parentOf, hW.sRoot, hW'.sRoot]
  | obj _ => rfl
  | err _ => rfl

/-- **A directory a call returns is a directory.** -/
theorem Call.run_obj_isDir (hW : Wf s) (hL : Links s) (hc : CallOk s env c) {d : Nat}
    (h : c.run env s = some (.obj d, s')) (hd : c.mode &&& S_IFMT = S_IFDIR) : s'.isDir d = true := by
  obtain ⟨p, d', s₁, e, pe, pi, -, -, -, -, -, he, -, -, -, ⟨h₁, -⟩ | ⟨o, h₁, -, -, rfl⟩⟩ := Call.run_cases hW hL hc h
  · cases h₁
  · obtain rfl : d = d' := Ptr.obj.inj h₁
    refine Vfs.isDir_iff.2 ⟨{ e with dInode := some s₁.inodes.length, dCount := e.dCount + 1 }, _, _, ?_, rfl,
      created_inode_new, (createdInode_dir hd).1⟩
    simp [createdVfs, he]

/-- **A call on a name no dentry has**: its lookup allocates the dentry `s.dentries.length`, which the call returns
bound to a new inode when one is had, and `NULL` when not; the cache gains the name, and the tree the call's node or
nothing. -/
theorem Call.run_fresh (hW : Wf s) (hL : Links s) (hc : CallOk s env c) (hn : c.name ∉ s.names) :
    ∃ p s', parentOf s c.parent = some p ∧
      c.run env s = some (if env.slab.isSome then .obj s.dentries.length else .null, s') ∧
      s'.names = s.names ++ [c.name] ∧
      s'.view = if env.slab.isSome then Function.update s.view (p, c.name) (some (c.node s.dentries.length))
        else s.view := by
  obtain ⟨p, d, s₁, e, pe, pi, hpp, hl, hW₁, -, he, -, -, -, -, -, hrun⟩ := Call.run_of_ok hW hL hc
  have hv : s₁.view = s.view := view_lookup hl
  have hk : dLookup s₁ p c.name = some d := lookup_dLookup hl
  obtain ⟨-, -, -, -, ⟨hd, -⟩ | ⟨-, -, -, -, rfl, rfl⟩⟩ := lookupOneLen_obj hl
  · rw [dLookup_of_not_mem hn] at hd
    cases hd
  -- the lookup's dentry is the new negative one at the end of the cache
  have hlen : (s.dentries.modify p incCount).length = s.dentries.length := List.length_modify _ _ _
  have hnew : (s.dentries.modify p incCount ++ [⟨c.name, p, none, 1, true⟩])[s.dentries.length]? =
      some ⟨c.name, p, none, 1, true⟩ := by
    rw [← hlen]; simp
  obtain rfl : e = ⟨c.name, p, none, 1, true⟩ := Option.some.inj (he.symm.trans hnew)
  have hnames : Vfs.names ⟨s.dentries.modify p incCount ++ [⟨c.name, p, none, 1, true⟩], s.inodes, s.sRoot⟩ =
      s.names ++ [c.name] := by
    rw [Vfs.names, List.map_append, Table.map_modify (f := incCount) (fun _ => rfl)]
    rfl
  cases ho : env.slab with
  | none =>
    refine ⟨p, _, hpp, by rw [hrun]; simp [ho], hnames, by simp [hv]⟩
  | some o =>
    refine ⟨p, createdVfs env o c.mode c.data c.fops pi s.dentries.length _, hpp, by rw [hrun]; simp [ho],
      names_created.trans hnames, ?_⟩
    rw [view_created hW₁ he hc.mode hk, hv]
    rfl

end fresh

/-! ## The runs of `aufs_init` -/

/-- The call `aufsCreateFiles` makes for the file `name`. -/
def fileCall (name : String) (pslot : Ptr) : Call := ⟨name, S_IFREG ||| S_IRUGO, pslot, none, some .aufs⟩

theorem dir_mode : (S_IFDIR ||| S_IRWXU ||| S_IRUGO) &&& S_IFMT = S_IFDIR := by decide

theorem file_mode : (S_IFREG ||| S_IRUGO) &&& S_IFMT = S_IFREG := by decide

theorem fileCall_node (name : String) (pslot : Ptr) (d : Nat) :
    (fileCall name pslot).node d = ⟨d, .reg, .aufs, none⟩ := by
  have hk : kindOf (S_IFREG ||| S_IRUGO) = .reg := by decide
  simp only [Call.node, fileCall, hk, Option.getD_some]

theorem Call.dir_node (name : String) (parent : Ptr) (d : Nat) :
    (Call.dir name parent).node d = ⟨d, .dir, .simpleDir, none⟩ := by
  simp only [Call.node, Call.dir, kindOf, dir_mode, if_true, Option.getD_none]

/-- What `aufs_init` asks of every call: the lookup is granted, and the dentry it allocates. -/
def Grants (env : Nat → Env) : Prop := ∀ k, (env k).mayExec = true ∧ (env k).dentryOk = true

/-- Names `lookup_one_len` takes. -/
def NamesOk (names : List String) : Prop := ∀ nm ∈ names, badName nm = false ∧ nm.utf8ByteSize ≤ NAME_MAX

instance (names : List String) : Decidable (NamesOk names) := inferInstanceAs (Decidable (∀ nm ∈ names, _))

/-- One of `aufs_init`'s own calls: a directory under the root, or a file with `aufs_file_operations`. -/
def InitCall (c : Call) : Prop := (∃ dir, c = Call.dir dir .null) ∨ ∃ name pslot, c = fileCall name pslot

/-- One of `aufs_init`'s calls, in surroundings `E` allows. -/
def InitStep (E : Env → Prop) (s s' : Vfs) : Prop :=
  ∃ env c r, E env ∧ InitCall c ∧ CallOk s env c ∧ c.run env s = some (r, s')

/-- The VFSs `aufs_init`'s own calls reach from a mount, in surroundings `E` allows. -/
def InitReach (E : Env → Prop) (s : Vfs) : Prop := Machine.Reach Mounted (InitStep E) s

/-- The surroundings of one of the calls of a run of `aufs_init`. -/
def InitEnv (env : Nat → Env) (e : Env) : Prop := ∃ k, e = env k

theorem InitReach.reachable {E : Env → Prop} {s : Vfs} (h : InitReach E s) : Reachable s :=
  Machine.Reach.map id (fun _ h₀ => h₀) (fun _ _ _ ⟨env, c, r, _, _, hc, hrun⟩ => .inr ⟨env, c, r, hc, hrun⟩) h

theorem not_mem_of_nodup {l rest : List String} {a : String} (h : (l ++ a :: rest).Nodup) : a ∉ l :=
  fun ha => (List.nodup_append.1 h).2.2 a ha a List.mem_cons_self rfl

theorem length_of_names {s : Vfs} {l : List String} (h : s.names = l) : s.dentries.length = l.length := by
  rw [← h, Vfs.names, List.length_map]

theorem names_cons {s s₁ s' : Vfs} {a : String} {l : List String} (h₁ : s₁.names = s.names ++ [a])
    (h' : s'.names = s₁.names ++ l) : s'.names = s.names ++ a :: l := by
  rw [h', h₁, List.append_assoc]
  rfl

/-- **One call of `aufs_init` on the next of its names**: from a reachable VFS whose cache holds `k + 1` dentries and
none of the names still to come, the call allocates the dentry `k + 1` and leaves a reachable VFS whose cache holds
`k + 2` dentries and still none of the names after its own. -/
theorem Call.run_next {E : Env → Prop} {s : Vfs} {env : Env} {c : Call} {k : Nat} {rest : List String}
    (h : InitReach E s) (hE : E env) (hi : InitCall c) (hc : CallOk s env c) (hlen : s.dentries.length = k + 1)
    (hnd : (s.names ++ c.name :: rest).Nodup) :
    ∃ p s₁, parentOf s c.parent = some p ∧
      c.run env s = some (if env.slab.isSome then .obj (k + 1) else .null, s₁) ∧ InitReach E s₁ ∧
      s₁.dentries.length = k + 1 + 1 ∧ (s₁.names ++ rest).Nodup ∧ s₁.names = s.names ++ [c.name] ∧
      s₁.view = if env.slab.isSome then Function.update s.view (p, c.name) (some (c.node (k + 1))) else s.view := by
  obtain ⟨hW, hL⟩ := reachable_wf h.reachable
  obtain ⟨p, s₁, hp, hrun, hnames, hview⟩ := Call.run_fresh hW hL hc (not_mem_of_nodup hnd)
  rw [hlen] at hrun hview
  refine ⟨p, s₁, hp, hrun, Machine.Reach.tail h ⟨env, c, _, hE, hi, hc, hrun⟩, ?_, ?_, hnames, hview⟩
  · rw [length_of_names hnames, List.length_append, ← hlen, Vfs.names, List.length_map]
    rfl
  · rw [hnames, List.append_assoc]
    exact hnd

section run

variable {env : Nat → Env}

/-- **The files of a block, on new names**: from a reachable VFS whose cache holds `k + 1` dentries, under a parent
a creation call may name, each file is made or not as `treeFiles` says, and the cache gains every name. -/
theorem aufsCreateFiles_fresh (hg : Grants env) (pslot : Ptr) (p : Nat) :
    ∀ (names : List String) (k : Nat) (s : Vfs), InitReach (InitEnv env) s → parentOf s pslot = some p →
      parentOk s pslot = true → s.dentries.length = k + 1 → (s.names ++ names).Nodup → NamesOk names →
      ∃ s', aufsCreateFiles env k pslot names s = some s' ∧ InitReach (InitEnv env) s' ∧
        s'.names = s.names ++ names ∧
        s'.view = treeFiles (fun k => (env k).slab.isSome) k p names s.view
  | [], _, s, h, _, _, _, _, _ => ⟨s, rfl, h, by simp, rfl⟩
  | name :: names, k, s, h, hp, hpo, hlen, hnd, hok => by
    have hc : CallOk s (env k) (fileCall name pslot) :=
      ⟨hpo, (hok name List.mem_cons_self).1, (hok name List.mem_cons_self).2, (hg k).1, (hg k).2,
        .inr (.inl file_mode)⟩
    obtain ⟨p', s₁, hp', hrun, h₁, hlen₁, hnd₁, hnames, hview⟩ :=
      Call.run_next h ⟨k, rfl⟩ (.inr ⟨name, pslot, rfl⟩) hc hlen hnd
    obtain rfl : p = p' := Option.some.inj (hp.symm.trans hp')
    -- the next call starts from `s₁`, under the same parent
    obtain ⟨hW, hL⟩ := reachable_wf h.reachable
    have hp₁ : parentOf s₁ pslot = some p := (parentOf_wf hW (reachable_wf h₁.reachable).1 pslot).trans hp
    obtain ⟨s', hrun', h', hnames', hview'⟩ := aufsCreateFiles_fresh hg pslot p names (k + 1) s₁ h₁ hp₁
      (Call.run_parentOk hW hL hc hrun hpo) hlen₁ hnd₁ (fun nm hm => hok nm (List.mem_cons_of_mem _ hm))
    refine ⟨s', ?_, h', names_cons hnames hnames', ?_⟩
    · rw [aufsCreateFiles, show aufsCreateFile (env k) name (S_IFREG ||| S_IRUGO) pslot none (some .aufs) s =
        (fileCall name pslot).run (env k) s from rfl, hrun]
      exact hrun'
    · rw [hview', hview, fileCall_node, treeFiles]
      rfl

/-- **One block on new names**: the directory, made or not, and its files, under it or under the root, as `treeStar`
says. -/
theorem aufsInitStar_fresh (hg : Grants env) (k : Nat) (dir : String) (files : List String) {s : Vfs}
    (h : InitReach (InitEnv env) s) (hlen : s.dentries.length = k + 1) (hnd : (s.names ++ dir :: files).Nodup)
    (hok : NamesOk (dir :: files)) :
    ∃ s', aufsInitStar env k dir files s = some s' ∧ InitReach (InitEnv env) s' ∧
      s'.names = s.names ++ dir :: files ∧
      s'.view = treeStar (fun k => (env k).slab.isSome) k dir files s.view := by
  have hc : CallOk s (env k) (Call.dir dir .null) :=
    ⟨rfl, (hok dir List.mem_cons_self).1, (hok dir List.mem_cons_self).2, (hg k).1, (hg k).2, .inl dir_mode⟩
  obtain ⟨p, s₁, hp, hrun, h₁, hlen₁, hnd₁, hnames, hview⟩ := Call.run_next h ⟨k, rfl⟩ (.inl ⟨dir, rfl⟩) hc hlen hnd
  obtain ⟨hW, hL⟩ := reachable_wf h.reachable
  obtain rfl : p = 0 := by
    rw [Call.dir, parentOf, hW.sRoot] at hp
    exact (Option.some.inj hp).symm
  have hok₁ : NamesOk files := fun nm hm => hok nm (List.mem_cons_of_mem _ hm)
  have hstar : ∀ pslot, (Call.dir dir .null).run (env k) s = some (pslot, s₁) →
      aufsInitStar env k dir files s = aufsCreateFiles env (k + 1) pslot files s₁ := by
    intro pslot hr
    rw [aufsInitStar, ← Call.run_dir, hr]
  cases ho : (env k).slab with
  | none =>
    -- `pslot` is `NULL`: the files go to the root
    rw [ho] at hrun hview
    obtain ⟨s', hf, h', hnames', hview'⟩ := aufsCreateFiles_fresh hg .null 0 files (k + 1) s₁ h₁
      (by rw [parentOf, (reachable_wf h₁.reachable).1.sRoot]) rfl hlen₁ hnd₁ hok₁
    refine ⟨s', (hstar _ hrun).trans hf, h', names_cons hnames hnames', ?_⟩
    rw [hview', hview, treeStar, ho]
    rfl
  | some o =>
    rw [ho] at hrun hview
    have hdir : s₁.isDir (k + 1) = true := Call.run_obj_isDir hW hL hc hrun dir_mode
    obtain ⟨s', hf, h', hnames', hview'⟩ := aufsCreateFiles_fresh hg (.obj (k + 1)) (k + 1) files (k + 1) s₁ h₁
      rfl hdir hlen₁ hnd₁ hok₁
    refine ⟨s', (hstar _ hrun).trans hf, h', names_cons hnames hnames', ?_⟩
    rw [hview', hview, treeStar, ho, Call.dir_node]
    rfl

/-- A run of `aufs_init` after a mount, with every lookup granted: the VFS it leaves is reached by its own calls,
holds the root and the eight names, and has the tree `initTree`. -/
theorem aufsInit_run {menv : Env} {now : Nat} {s₀ : Vfs} (hm : kernMount menv now = .ok s₀) (hg : Grants env) :
    ∃ s, aufsInit false menv now env = some (0, ⟨true, some (.ok s)⟩) ∧ InitReach (InitEnv env) s ∧
      s.names = ["/", "woman_star", "lbb", "fbb", "lj1", "man_star", "ldh", "lcw", "jw"] ∧
      s.view = initTree (fun k => (env k).slab.isSome) := by
  obtain ⟨o, rfl⟩ := aufsGetSb_ok hm
  have h₀ : InitReach (InitEnv env) (rootVfs o now) := Machine.Reach.of_init ⟨menv, now, hm⟩
  have hn₀ : (rootVfs o now).names = ["/"] := rfl
  obtain ⟨s₁, hs₁, h₁, hn₁, hv₁⟩ := aufsInitStar_fresh hg 0 "woman_star" ["lbb", "fbb", "lj1"] h₀ rfl
    (by rw [hn₀]; decide) (by decide)
  have hlen₁ : s₁.dentries.length = 4 + 1 := by rw [length_of_names hn₁, hn₀]; rfl
  obtain ⟨s₂, hs₂, h₂, hn₂, hv₂⟩ := aufsInitStar_fresh hg 4 "man_star" ["ldh", "lcw", "jw"] h₁ hlen₁
    (by rw [hn₁, hn₀]; decide) (by decide)
  refine ⟨s₂, ?_, h₂, by rw [hn₂, hn₁, hn₀]; rfl, by rw [hv₂, hv₁, view_rootVfs]; rfl⟩
  have hreg : registerFilesystem false = 0 := rfl
  simp only [aufsInit, hreg, ne_eq, not_true_eq_false, if_false, hm, hs₁, hs₂]

/-- **`aufs_init` builds the tree `initTree` says**, whichever of its eight calls get an inode, once `aufs_type` is
registered and mounted and every lookup is granted: it returns 0, and the VFS it leaves is reachable, so that every
invariant of the creation calls holds of it. -/
theorem aufsInit_view {menv : Env} {now : Nat} {s₀ : Vfs} (hm : kernMount menv now = .ok s₀) (hg : Grants env) :
    ∃ s, aufsInit false menv now env = some (0, ⟨true, some (.ok s)⟩) ∧ Reachable s ∧
      s.view = initTree (fun k => (env k).slab.isSome) := by
  obtain ⟨s, hs, h, -, hv⟩ := aufsInit_run hm hg
  exact ⟨s, hs, h.reachable, hv⟩

end run

theorem aufsInit_view_fresh :
    ∃ s, aufsInit false freshEnv 0 (fun _ => freshEnv) = some (0, ⟨true, some (.ok s)⟩) ∧ Reachable s ∧
      s.view = initTree (fun _ => true) :=
  aufsInit_view (show kernMount freshEnv 0 = .ok (rootVfs freshInode 0) from rfl) (fun _ => ⟨rfl, rfl⟩)

/-- Every call gets its inode: the two directories under the root, each with its three files. -/
example : initTree (fun _ => true) (0, "woman_star") = some ⟨1, .dir, .simpleDir, none⟩ ∧
    initTree (fun _ => true) (1, "lbb") = some ⟨2, .reg, .aufs, none⟩ ∧
    initTree (fun _ => true) (5, "jw") = some ⟨8, .reg, .aufs, none⟩ := by decide

/-- `woman_star` gets no inode: its files are made in the root. -/
example : initTree (fun k => k != 0) (0, "woman_star") = none ∧
    initTree (fun k => k != 0) (0, "lbb") = some ⟨2, .reg, .aufs, none⟩ := by decide

/-! ## What `aufs_init` returns, and what `aufs_exit` finds -/

/-- **A failed dentry allocation oopses `aufs_init`**: when `d_alloc` gets no slab object for `woman_star`,
`lookup_one_len` returns `ERR_PTR(-ENOMEM)`, which `aufs_create_by_name` hands on to `aufs_mkdir`. -/
theorem aufsInit_enomem_oops {menv : Env} {now : Nat} {s₀ : Vfs} {env : Nat → Env}
    (hm : kernMount menv now = .ok s₀) (hx : (env 0).mayExec = true) (hd : (env 0).dentryOk = false) :
    aufsInit false menv now env = none := by
  obtain ⟨o, rfl⟩ := aufsGetSb_ok hm
  have hb : badName "woman_star" = false := by decide
  have hl : lookupOneLen (env 0) (cString "woman_star") 0 (rootVfs o now) =
      some (errPtr (-ENOMEM), rootVfs o now) := by
    have hi : (rootVfs o now).inodeOf 0 = some (rootInode o now) := rfl
    have hn : dLookup (rootVfs o now) 0 "woman_star" = none :=
      dLookup_of_not_mem (by rw [show (rootVfs o now).names = ["/"] from rfl]; decide)
    simp [cString_of_badName hb, lookupOneLen, hi, hb, hx, hn, hd]
  have hdir : aufsCreateDir (env 0) "woman_star" .null (rootVfs o now) = none := aufsCreateFile_of_lookup_err rfl hl
  have hreg : registerFilesystem false = 0 := rfl
  simp only [aufsInit, hreg, ne_eq, not_true_eq_false, if_false, hm, aufsInitStar, hdir]

theorem aufsInit_enomem_fresh : aufsInit false freshEnv 0 (fun _ => { freshEnv with dentryOk := false }) = none :=
  aufsInit_enomem_oops (show kernMount freshEnv 0 = .ok (rootVfs freshInode 0) from rfl) rfl rfl

theorem inUse_of_busy {s : Vfs} (h : ∀ d e, d ≠ 0 → s.dentries[d]? = some e → 0 < e.dCount) :
    inUse s = (List.range s.dentries.length).filter (fun d => d != 0) := by
  unfold inUse
  apply List.filter_congr
  intro d hd
  have hlt : d < s.dentries.length := List.mem_range.1 hd
  by_cases h0 : d = 0
  · simp [h0]
  · have hc := h d s.dentries[d] h0 (List.getElem?_eq_getElem hlt)
    simp [h0, List.getElem?_eq_getElem hlt, Nat.pos_iff_ne_zero.1 hc]

/-- **Unloading the module after `aufs_init` finds every dentry it made still referenced**: `d_genocide` drops one
reference from each, and each holds at least one more. -/
theorem aufsExit_in_use {menv : Env} {now : Nat} {s₀ : Vfs} {env : Nat → Env} (hm : kernMount menv now = .ok s₀)
    (hg : Grants env) :
    ∃ m, aufsInit false menv now env = some (0, m) ∧ (aufsExit m).2 = [1, 2, 3, 4, 5, 6, 7, 8] := by
  obtain ⟨s, hs, h, hn, -⟩ := aufsInit_run hm hg
  refine ⟨_, hs, ?_⟩
  have hlen : (dGenocide s).dentries.length = 9 := by
    rw [dGenocide, List.length_map, length_of_names hn]
    rfl
  show inUse (dGenocide s) = _
  rw [inUse_of_busy (unmount_busy h.reachable), hlen]
  decide

theorem aufsExit_in_use_fresh :
    ∃ m, aufsInit false freshEnv 0 (fun _ => freshEnv) = some (0, m) ∧
      (aufsExit m).2 = [1, 2, 3, 4, 5, 6, 7, 8] :=
  aufsExit_in_use (show kernMount freshEnv 0 = .ok (rootVfs freshInode 0) from rfl) (fun _ => ⟨rfl, rfl⟩)

end Aufs
