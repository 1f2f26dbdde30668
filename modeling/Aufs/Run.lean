import Aufs.Wf
/-!
# Run — the mounted file system and the calls made on it

The creation calls on a mounted aufs.  `aufs_get_sb` mounts the root (`Mounted`); from there each step is one
`aufs_create_file` call (`Call`) whose parent is `NULL` or a directory dentry, whose name `lookup_one_len` accepts and
whose mode's type is `S_IFDIR`, `S_IFREG` or none, made in surroundings that grant the lookup (`CallOk`).  Every
reachable VFS is well formed and keeps its link counts (`reachable_wf`), and in such a VFS every call's lookup gives a
dentry (`CallOk.lookup_obj`), so that `aufsCreateFile_of_lookup` says all a step can do.
-/
namespace Aufs

/-- **One call of `aufs_create_file(name, mode, parent, data, fops)`.**  `aufs_create_dir(name, parent)` is the call
with mode `S_IFDIR | S_IRWXU | S_IRUGO` and neither data nor operations (`Call.dir`). -/
structure Call where
  name : String
  mode : Nat
  parent : Ptr
  data : Option Nat
  fops : Option Fops
  deriving DecidableEq, Repr

def Call.dir (name : String) (parent : Ptr) : Call := ⟨name, S_IFDIR ||| S_IRWXU ||| S_IRUGO, parent, none, none⟩

def Call.run (c : Call) (env : Env) (s : Vfs) : Option (Ptr × Vfs) :=
  aufsCreateFile env c.name c.mode c.parent c.data c.fops s

theorem Call.run_dir (env : Env) (name : String) (parent : Ptr) (s : Vfs) :
    (Call.dir name parent).run env s = aufsCreateDir env name parent s := rfl

/-- A parent a creation call may name: `NULL`, or a directory dentry. -/
def parentOk (s : Vfs) : Ptr → Bool
  | .null => true
  | .obj d => s.isDir d
  | .err _ => false

/-- **The creation calls**: the parent is `NULL` or a directory, `lookup_one_len` accepts the name (not
refused, at most `NAME_MAX` bytes) and is granted the search and its dentry, and the mode's type is `S_IFDIR`,
`S_IFREG` or none. -/
structure CallOk (s : Vfs) (env : Env) (c : Call) : Prop where
  parent : parentOk s c.parent = true
  name : badName c.name = false
  nameLen : c.name.utf8ByteSize ≤ NAME_MAX
  mayExec : env.mayExec = true
  dentryOk : env.dentryOk = true
  mode : ModeOk c.mode

instance (mode : Nat) : Decidable (ModeOk mode) := inferInstanceAs (Decidable (_ ∨ _ ∨ _))

instance (s : Vfs) (env : Env) (c : Call) : Decidable (CallOk s env c) :=
  decidable_of_iff (parentOk s c.parent = true ∧ badName c.name = false ∧ c.name.utf8ByteSize ≤ NAME_MAX ∧
      env.mayExec = true ∧ env.dentryOk = true ∧ ModeOk c.mode)
    ⟨fun ⟨h₁, h₂, h₃, h₄, h₅, h₆⟩ => ⟨h₁, h₂, h₃, h₄, h₅, h₆⟩, fun h => ⟨h.1, h.2, h.3, h.4, h.5, h.6⟩⟩

/-- The VFS `aufs_get_sb` mounted. -/
def Mounted (s : Vfs) : Prop := ∃ env now, aufsGetSb env now = .ok s

/-- One creation call, in any surroundings, with any result. -/
def Step (s s' : Vfs) : Prop := ∃ env c r, CallOk s env c ∧ c.run env s = some (r, s')

/-- The VFSs some sequence of such calls reaches from a mount. -/
def Reachable (s : Vfs) : Prop := Machine.Reach Mounted Step s

/-! ## The mount -/

/-- The VFS a mount leaves: the root dentry, with the reference `simple_fill_super` took and the one `aufs_get_sb`
takes, on the root inode. -/
def rootVfs (o : Inode) (now : Nat) : Vfs := ⟨[⟨"/", 0, some 0, 2, false⟩], [rootInode o now], some 0⟩

theorem aufsGetSb_ok {env : Env} {now : Nat} {s : Vfs} (h : aufsGetSb env now = .ok s) : ∃ o, s = rootVfs o now := by
  unfold aufsGetSb aufsFillSuper simpleFillSuper at h
  cases ho : env.slab with
  | none => simp [ho] at h
  | some o =>
    cases hd : env.dentryOk
    · simp [ho, hd] at h
    · simp only [ho, hd, Bool.not_true, Bool.false_eq_true, if_false, Except.ok.injEq] at h
      exact ⟨o, by rw [← h]; rfl⟩

section root

variable {o : Inode} {now d i : Nat} {e : Dentry} {n : Inode}

theorem rootVfs_dentry (h : (rootVfs o now).dentries[d]? = some e) : d = 0 ∧ e = ⟨"/", 0, some 0, 2, false⟩ := by
  match d, h with
  | 0, h => exact ⟨rfl, by simpa [rootVfs] using h.symm⟩
  | _ + 1, h => simp [rootVfs] at h

theorem rootVfs_inode (h : (rootVfs o now).inodes[i]? = some n) : i = 0 ∧ n = rootInode o now := by
  match i, h with
  | 0, h => exact ⟨rfl, by simpa [rootVfs] using h.symm⟩
  | _ + 1, h => simp [rootVfs] at h

theorem rootInode_type : (rootInode o now).iMode &&& S_IFMT = S_IFDIR := by
  simp only [rootInode]
  decide

theorem rootVfs_isDir : (rootVfs o now).isDir 0 = true := by
  simp [rootVfs, Vfs.isDir, Vfs.dirInode, rootInode_type]

/-- **A mount is well formed**: one dentry, the root, on the root directory. -/
theorem Wf.rootVfs : Wf (rootVfs o now) where
  sRoot := rfl
  root := ⟨_, rfl, rfl, rfl⟩
  rootDir := rootVfs_isDir
  hashed := fun _ _ h hd => absurd (rootVfs_dentry h).1 hd
  parentLt := fun _ _ h hd => absurd (rootVfs_dentry h).1 hd
  parentDir := fun _ _ h hh => by
    obtain ⟨rfl, rfl⟩ := rootVfs_dentry h
    cases hh
  inodeLt := fun _ _ _ h hi => by
    obtain ⟨rfl, rfl⟩ := rootVfs_dentry h
    obtain rfl := Option.some.inj hi
    exact Nat.zero_lt_one
  inodeInj := fun _ _ _ _ _ h h' _ _ => (rootVfs_dentry h).1.trans (rootVfs_dentry h').1.symm
  kind := fun _ _ _ _ h hi hn => by
    obtain ⟨rfl, rfl⟩ := rootVfs_dentry h
    obtain rfl := Option.some.inj hi
    obtain ⟨-, rfl⟩ := rootVfs_inode hn
    exact .inl ⟨rootInode_type, rfl⟩

/-- **The root starts with two links and no subdirectory.** -/
theorem Links.rootVfs : Links (rootVfs o now) := by
  intro _ _ _ _ h hi hn
  obtain ⟨rfl, rfl⟩ := rootVfs_dentry h
  obtain rfl := Option.some.inj hi
  obtain ⟨-, rfl⟩ := rootVfs_inode hn
  refine ⟨fun _ => rfl, fun hr => ?_⟩
  rw [rootInode_type] at hr
  cases hr

end root

/-- A slab object as a fresh page leaves it: every field zero. -/
def freshInode : Inode := ⟨0, 0, 0, 0, 0, 0, 0, 0, 0, 0, .empty, .empty, none⟩

/-- Surroundings that grant everything, with a fresh slab object for every allocation. -/
def freshEnv : Env := ⟨0, 0, true, 4096, true, some freshInode⟩

theorem reachable_fresh : Reachable (rootVfs freshInode 0) := Machine.Reach.of_init ⟨freshEnv, 0, rfl⟩

/-! ## The lookup of a call -/

section lookup

variable {s s₁ : Vfs} {env : Env} {name : String} {p d : Nat}

theorem dLookup_some (h : dLookup s p name = some d) :
    ∃ e, s.dentries[d]? = some e ∧ e.dHashed = true ∧ e.dParent = p ∧ e.dName = name := by
  have hd := List.of_findIdx?_eq_some h
  cases he : s.dentries[d]? with
  | none => rw [he] at hd; cases hd
  | some e =>
    rw [he] at hd
    simp only [Bool.and_eq_true, beq_iff_eq] at hd
    exact ⟨e, rfl, hd.1.1, hd.1.2, hd.2⟩

theorem Vfs.dentry_lt_of_isDir (hp : s.isDir p = true) : p < s.dentries.length := by
  obtain ⟨x, -, -, hx, -, -, -⟩ := Vfs.isDir_iff.1 hp
  exact (List.getElem?_eq_some_iff.1 hx).1

/-- **The dentry a lookup gives** is a hashed child of the base with the name looked up. -/
theorem lookup_child (hl : lookupOneLen env name p s = some (.obj d, s₁)) :
    ∃ e, s₁.dentries[d]? = some e ∧ e.dHashed = true ∧ e.dParent = p ∧ e.dName = name := by
  obtain ⟨-, -, -, -, ⟨hd, rfl⟩ | ⟨-, -, -, -, rfl, rfl⟩⟩ := lookupOneLen_obj hl
  · obtain ⟨e, he, hh, hp, hn⟩ := dLookup_some hd
    obtain ⟨e', he', hn', hp', -, hh'⟩ := countOnly_incCount.getElem?_of_eq_some (d := d) he
    exact ⟨e', he', hh'.trans hh, hp'.trans hp, hn'.trans hn⟩
  · have hlen : (s.dentries.modify p incCount).length = s.dentries.length := List.length_modify _ _ _
    refine ⟨⟨name, p, none, 1, true⟩, ?_, rfl, rfl, rfl⟩
    rw [← hlen]
    simp

theorem lookup_inodes (hl : lookupOneLen env name p s = some (.obj d, s₁)) : s₁.inodes = s.inodes := by
  obtain ⟨-, -, -, -, ⟨-, rfl⟩ | ⟨-, -, -, -, -, rfl⟩⟩ := lookupOneLen_obj hl <;> rfl

/-- **A lookup from a directory keeps the shape and the link counts.** -/
theorem Wf.lookup (hW : Wf s) (hL : Links s) (hp : s.isDir p = true)
    (hl : lookupOneLen env name p s = some (.obj d, s₁)) : Wf s₁ ∧ Links s₁ ∧ s₁.isDir p = true := by
  obtain ⟨-, -, -, -, ⟨-, rfl⟩ | ⟨-, -, -, -, -, rfl⟩⟩ := lookupOneLen_obj hl
  · exact ⟨hW.countOnly countOnly_incCount, hL.countOnly countOnly_incCount,
      (isDir_countOnly (s := s) (d := d) countOnly_incCount p).trans hp⟩
  · -- `d_alloc` takes a reference on the parent, then the negative child is added
    have hW₀ := hW.countOnly (d := p) countOnly_incCount
    have hp₀ : ({ s with dentries := s.dentries.modify p incCount } : Vfs).isDir p = true := by
      rw [isDir_countOnly countOnly_incCount]; exact hp
    have hpl : p < (s.dentries.modify p incCount).length := by
      rw [List.length_modify]; exact Vfs.dentry_lt_of_isDir hp
    refine ⟨hW₀.addNegative hp₀ hpl, (hL.countOnly countOnly_incCount).addNegative, ?_⟩
    exact (isDir_addNegative (s := { s with dentries := s.dentries.modify p incCount }) p hpl).trans hp₀

/-- **A creation call on a well-formed VFS gets a dentry from its lookup**: the parent is the root or a
directory, whose inode has `simple_lookup`. -/
theorem CallOk.lookup_obj {c : Call} (hW : Wf s) (hc : CallOk s env c) :
    ∃ p d s₁, parentOf s c.parent = some p ∧ s.isDir p = true ∧ lookupOneLen env c.name p s = some (.obj d, s₁) := by
  have hpar : ∃ p, parentOf s c.parent = some p ∧ s.isDir p = true := by
    have hok := hc.parent
    cases hcp : c.parent with
    | null => exact ⟨0, by simp [parentOf, hW.sRoot], hW.rootDir⟩
    | obj q => rw [hcp] at hok; exact ⟨q, rfl, hok⟩
    | err _ => rw [hcp] at hok; cases hok
  obtain ⟨p, hpp, hp⟩ := hpar
  obtain ⟨x, i, n, hx, hi, hn, hd⟩ := Vfs.isDir_iff.1 hp
  have hdir : s.inodeOf p = some n := by simp [Vfs.inodeOf, hx, hi, hn]
  have hop : n.iOp = .simpleDir := by
    rcases hW.kind p x i n hx hi hn with ⟨-, h⟩ | h
    · exact h
    · rw [hd] at h; cases h
  have hlen : ¬ NAME_MAX < c.name.utf8ByteSize := Nat.not_lt.2 hc.nameLen
  refine ⟨p, ?_⟩
  unfold lookupOneLen
  simp only [hpp, hdir, hc.name, hc.mayExec, hc.dentryOk, hop, hlen, Bool.false_eq_true, Bool.not_true, if_false,
    ne_eq, not_true_eq_false, true_and, exists_and_left]
  refine ⟨hp, ?_⟩
  cases dLookup s p c.name <;> simp

end lookup

/-! ## Every reachable VFS -/

/-- **What one call does** to a well-formed VFS: its lookup gives a hashed child `d` of the parent `p`; the call
returns `NULL` with the lookup's VFS when `d` is positive or no inode is had, and `d` with `createdVfs` otherwise. -/
theorem Call.run_of_ok {s : Vfs} {env : Env} {c : Call} (hW : Wf s) (hL : Links s) (hc : CallOk s env c) :
    ∃ p d s₁ e pe pi, parentOf s c.parent = some p ∧ lookupOneLen env c.name p s = some (.obj d, s₁) ∧
      Wf s₁ ∧ Links s₁ ∧ s₁.dentries[d]? = some e ∧ e.dHashed = true ∧ e.dParent = p ∧ e.dName = c.name ∧
      s₁.dentries[p]? = some pe ∧ pe.dInode = some pi ∧
      c.run env s = some (if e.dInode.isSome then (.null, s₁) else match env.slab with
        | none => (.null, s₁)
        | some o => (.obj d, createdVfs env o c.mode c.data c.fops pi d s₁)) := by
  obtain ⟨p, d, s₁, hpp, hp, hl⟩ := hc.lookup_obj hW
  obtain ⟨hW₁, hL₁, hp₁⟩ := hW.lookup hL hp hl
  obtain ⟨e, he, hh, hep, hen⟩ := lookup_child hl
  obtain ⟨pe, pi, -, hpe, hpi, -, -⟩ := Vfs.isDir_iff.1 hp₁
  have hpil : pi < s₁.inodes.length := hW₁.inodeLt p pe pi hpe hpi
  refine ⟨p, d, s₁, e, pe, pi, hpp, hl, hW₁, hL₁, he, hh, hep, hen, hpe, hpi, ?_⟩
  rw [← cString_of_badName hc.name] at hl
  exact aufsCreateFile_of_lookup hpp hl (by simp [hpe, hpi]) hpil he

/-- **The two outcomes of a call**, read off `Call.run_of_ok`: `NULL` with the lookup's VFS, or the lookup's dentry
`d`, negative until then, bound by `createdVfs` to an inode from the slab object `o`. -/
theorem Call.run_cases {s s' : Vfs} {env : Env} {c : Call} {r : Ptr} (hW : Wf s) (hL : Links s)
    (hc : CallOk s env c) (h : c.run env s = some (r, s')) :
    ∃ p d s₁ e pe pi, parentOf s c.parent = some p ∧ s.isDir p = true ∧
      lookupOneLen env c.name p s = some (.obj d, s₁) ∧ Wf s₁ ∧ Links s₁ ∧ s₁.dentries[d]? = some e ∧
      e.dParent = p ∧ s₁.dentries[p]? = some pe ∧ pe.dInode = some pi ∧
      ((r = .null ∧ s' = s₁) ∨
        (∃ o, r = .obj d ∧ env.slab = some o ∧ e.dInode = none ∧ s' = createdVfs env o c.mode c.data c.fops pi d s₁)) := by
  obtain ⟨p, d, s₁, e, pe, pi, hpp, hl, hW₁, hL₁, he, -, hep, -, hpe, hpi, hrun⟩ := Call.run_of_ok hW hL hc
  have hp : s.isDir p = true := by
    obtain ⟨p', -, -, hpp', hp', -⟩ := hc.lookup_obj hW
    rwa [Option.some.inj (hpp.symm.trans hpp')]
  refine ⟨p, d, s₁, e, pe, pi, hpp, hp, hl, hW₁, hL₁, he, hep, hpe, hpi, ?_⟩
  rw [hrun, Option.some.injEq] at h
  cases hi : e.dInode with
  | some _ =>
    -- `EEXIST`
    simp only [hi, Option.isSome_some, if_true, Prod.mk.injEq] at h
    exact .inl ⟨h.1.symm, h.2.symm⟩
  | none =>
    simp only [hi, Option.isSome_none, Bool.false_eq_true, if_false] at h
    cases ho : env.slab with
    | none =>
      -- `EPERM`
      simp only [ho, Prod.mk.injEq] at h
      exact .inl ⟨h.1.symm, h.2.symm⟩
    | some o =>
      simp only [ho, Prod.mk.injEq] at h
      exact .inr ⟨o, h.1.symm, rfl, rfl, h.2.symm⟩

/-- **One call keeps the shape and the link counts.** -/
theorem Step.wf {s s' : Vfs} (hW : Wf s) (hL : Links s) (h : Step s s') : Wf s' ∧ Links s' := by
  obtain ⟨env, c, r, hc, hrun⟩ := h
  obtain ⟨p, d, s₁, e, pe, pi, -, -, -, hW₁, hL₁, he, hep, hpe, hpi, ⟨-, rfl⟩ | ⟨o, -, -, hi, rfl⟩⟩ :=
    Call.run_cases hW hL hc hrun
  · exact ⟨hW₁, hL₁⟩
  · rw [← hep] at hpe
    exact ⟨hW₁.created he hi hc.mode, hL₁.created hW₁ he hi hc.mode hpe hpi⟩

/-- A sequence of calls, each in its own surroundings: the VFS after the last, unless one oopses. -/
def runCalls : List (Env × Call) → Vfs → Option Vfs
  | [], s => some s
  | (env, c) :: cs, s => match c.run env s with
    | some (_, s') => runCalls cs s'
    | none => none

def callsOk : List (Env × Call) → Vfs → Bool
  | [], _ => true
  | (env, c) :: cs, s => decide (CallOk s env c) && match c.run env s with
    | some (_, s') => callsOk cs s'
    | none => true

/-- **A sequence of creation calls from a reachable VFS reaches what it leaves.** -/
theorem Reachable.runCalls : ∀ (cs : List (Env × Call)) {s s' : Vfs}, Reachable s → callsOk cs s = true →
    runCalls cs s = some s' → Reachable s'
  | [], s, s', h, _, hr => by
    rw [Aufs.runCalls, Option.some.injEq] at hr
    exact hr ▸ h
  | (env, c) :: cs, s, s', h, hok, hr => by
    simp only [callsOk, Bool.and_eq_true, decide_eq_true_eq] at hok
    simp only [Aufs.runCalls] at hr
    cases hrun : c.run env s with
    | none => rw [hrun] at hr; cases hr
    | some rs =>
      obtain ⟨r, s₁⟩ := rs
      rw [hrun] at hr hok
      exact Reachable.runCalls cs (Machine.Reach.tail h ⟨env, c, r, hok.1, hrun⟩) hok.2 hr

/-- **Every reachable VFS is well formed and keeps its link counts.** -/
theorem reachable_wf {s : Vfs} (h : Reachable s) : Wf s ∧ Links s := by
  refine Machine.Reach.induction (P := fun s => Wf s ∧ Links s) (fun s₀ h₀ => ?_)
    (fun s s' _ ih hs => Step.wf ih.1 ih.2 hs) h
  obtain ⟨env, now, hm⟩ := h₀
  obtain ⟨o, rfl⟩ := aufsGetSb_ok hm
  exact ⟨Wf.rootVfs, Links.rootVfs⟩

end Aufs
