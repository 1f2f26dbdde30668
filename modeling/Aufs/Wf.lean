import Aufs.CreateSpec
import Aufs.Machine
/-!
# Wf — the shape of every VFS aufs can reach, and its link counts

The creation calls: after `aufs_get_sb` has mounted the root (`Mounted`), any sequence of
`aufs_create_file` calls (`aufs_create_dir` is one) whose parent is `NULL` or a directory dentry, whose name
`lookup_one_len` accepts and whose mode's type is `S_IFDIR`, `S_IFREG` or none (`CallOk`).  `Wf` is what every
reachable VFS looks like, `Links` its link counts.  Both are kept by the three things a call can do
to the VFS: change reference counts only (`EEXIST`), add a negative child (`EPERM`, the lookup's dentry stays), and
create (`createdVfs`).
-/
namespace Aufs

namespace Vfs

def dirInode (s : Vfs) : Option Nat → Bool
  | some i => match s.inodes[i]? with
    | some n => n.iMode &&& S_IFMT == S_IFDIR
    | none => false
  | none => false

def isDir (s : Vfs) (d : Nat) : Bool :=
  match s.dentries[d]? with
  | some e => s.dirInode e.dInode
  | none => false

/-- The subdirectories of the dentry at `d`: its hashed children whose inode is a directory. -/
def subdirs (s : Vfs) (d : Nat) : Nat :=
  s.dentries.countP (fun e => e.dHashed && e.dParent == d && s.dirInode e.dInode)

end Vfs

/-- **The shape of every reachable VFS.**  The root is dentry 0, its own parent, unhashed, a directory; every other
dentry is hashed, comes after its parent, and its parent is a directory; a positive dentry points at an inode that
exists, and no two at the same one; every inode a dentry points at is a directory with the directory operations or a
regular file. -/
structure Wf (s : Vfs) : Prop where
  sRoot : s.sRoot = some 0
  root : ∃ r : Dentry, s.dentries[0]? = some r ∧ r.dParent = 0 ∧ r.dHashed = false
  rootDir : s.isDir 0 = true
  hashed : ∀ (d : Nat) (e : Dentry), s.dentries[d]? = some e → d ≠ 0 → e.dHashed = true
  parentLt : ∀ (d : Nat) (e : Dentry), s.dentries[d]? = some e → d ≠ 0 → e.dParent < d
  parentDir : ∀ (d : Nat) (e : Dentry), s.dentries[d]? = some e → e.dHashed = true → s.isDir e.dParent = true
  inodeLt : ∀ (d : Nat) (e : Dentry) (i : Nat), s.dentries[d]? = some e → e.dInode = some i → i < s.inodes.length
  inodeInj : ∀ (d d' : Nat) (e e' : Dentry) (i : Nat), s.dentries[d]? = some e → s.dentries[d']? = some e' →
    e.dInode = some i → e'.dInode = some i → d = d'
  kind : ∀ (d : Nat) (e : Dentry) (i : Nat) (n : Inode), s.dentries[d]? = some e → e.dInode = some i →
    s.inodes[i]? = some n → (n.iMode &&& S_IFMT = S_IFDIR ∧ n.iOp = .simpleDir) ∨ n.iMode &&& S_IFMT = S_IFREG

/-- **The link counts**: every directory a dentry points at has two links and one per subdirectory, the root
included; every regular file has one. -/
def Links (s : Vfs) : Prop :=
  ∀ (d : Nat) (e : Dentry) (i : Nat) (n : Inode), s.dentries[d]? = some e → e.dInode = some i → s.inodes[i]? = some n →
    (n.iMode &&& S_IFMT = S_IFDIR → n.iNlink = 2 + s.subdirs d) ∧ (n.iMode &&& S_IFMT = S_IFREG → n.iNlink = 1)

theorem Vfs.isDir_iff {s : Vfs} {d : Nat} : s.isDir d = true ↔
    ∃ x i n, s.dentries[d]? = some x ∧ x.dInode = some i ∧ s.inodes[i]? = some n ∧ n.iMode &&& S_IFMT = S_IFDIR := by
  unfold Vfs.isDir Vfs.dirInode
  constructor
  · intro h
    split at h
    · rename_i x hx
      split at h
      · rename_i i hi
        split at h
        · rename_i n hn
          exact ⟨x, i, n, hx, hi, hn, by simpa using h⟩
        · cases h
      · cases h
    · cases h
  · rintro ⟨x, i, n, hx, hi, hn, hd⟩
    simp [hx, hi, hn, hd]

theorem Vfs.isDir_negative {s : Vfs} {c : Nat} {e : Dentry} (hc : s.dentries[c]? = some e) (he : e.dInode = none) :
    s.isDir c = false := by
  simp [Vfs.isDir, hc, he, Vfs.dirInode]

theorem Vfs.isDir_ne_negative {s : Vfs} {q c : Nat} {e : Dentry} (hq : s.isDir q = true)
    (hc : s.dentries[c]? = some e) (he : e.dInode = none) : q ≠ c := by
  rintro rfl
  rw [Vfs.isDir_negative hc he] at hq
  cases hq

section shape

variable {s : Vfs} {c q k pi i : Nat} {e pe x : Dentry}

theorem Wf.ne_root (hW : Wf s) (hc : s.dentries[c]? = some e) (he : e.dInode = none) : c ≠ 0 :=
  (Vfs.isDir_ne_negative hW.rootDir hc he).symm

/-- A negative dentry has no subdirectory: a hashed child's parent is a directory. -/
theorem Wf.subdirs_negative (hW : Wf s) (hc : s.dentries[c]? = some e) (he : e.dInode = none) : s.subdirs c = 0 := by
  unfold Vfs.subdirs
  rw [List.countP_eq_zero]
  intro y hy
  obtain ⟨k, hk⟩ := List.mem_iff_getElem?.1 hy
  simp only [Bool.and_eq_true, beq_iff_eq, not_and]
  rintro ⟨hh, hp⟩ -
  have hd := hW.parentDir k y hk hh
  rw [hp, Vfs.isDir_negative hc he] at hd
  cases hd

theorem Wf.inode_eq_iff (hW : Wf s) (hq : s.dentries[q]? = some pe) (hpi : pe.dInode = some pi)
    (hk : s.dentries[k]? = some x) (hi : x.dInode = some i) : i = pi ↔ q = k := by
  constructor
  · rintro rfl
    exact hW.inodeInj q k pe x i hq hk hpi hi
  · rintro rfl
    rw [hq, Option.some.injEq] at hk
    subst hk
    rw [hpi, Option.some.injEq] at hi
    exact hi.symm

end shape

/-! ## Reference counts only -/

/-- A change that touches a dentry's reference count and nothing else. -/
def CountOnly (f : Dentry → Dentry) : Prop := ∀ e, { f e with dCount := e.dCount } = e

theorem countOnly_incCount : CountOnly incCount := fun _ => rfl

variable {s s' : Vfs} {f : Dentry → Dentry} {d : Nat}

theorem CountOnly.name (hf : CountOnly f) (e : Dentry) : (f e).dName = e.dName := by
  conv => rhs; rw [← hf e]
theorem CountOnly.parent (hf : CountOnly f) (e : Dentry) : (f e).dParent = e.dParent := by
  conv => rhs; rw [← hf e]
theorem CountOnly.inode (hf : CountOnly f) (e : Dentry) : (f e).dInode = e.dInode := by
  conv => rhs; rw [← hf e]
theorem CountOnly.hashed (hf : CountOnly f) (e : Dentry) : (f e).dHashed = e.dHashed := by
  conv => rhs; rw [← hf e]

theorem CountOnly.getElem?_eq_some (hf : CountOnly f) {l : List Dentry} {k : Nat} {e' : Dentry}
    (h : (l.modify d f)[k]? = some e') :
    ∃ e, l[k]? = some e ∧ e'.dName = e.dName ∧ e'.dParent = e.dParent ∧ e'.dInode = e.dInode ∧
      e'.dHashed = e.dHashed := by
  rw [List.getElem?_modify] at h
  cases he : l[k]? with
  | none => simp [he] at h
  | some e =>
    simp only [he, Option.map_eq_map, Option.map_some, Option.some.injEq] at h
    subst h
    split
    · exact ⟨e, rfl, hf.name e, hf.parent e, hf.inode e, hf.hashed e⟩
    · exact ⟨e, rfl, rfl, rfl, rfl, rfl⟩

theorem CountOnly.getElem?_of_eq_some (hf : CountOnly f) {l : List Dentry} {k : Nat} {e : Dentry}
    (h : l[k]? = some e) :
    ∃ e', (l.modify d f)[k]? = some e' ∧ e'.dName = e.dName ∧ e'.dParent = e.dParent ∧ e'.dInode = e.dInode ∧
      e'.dHashed = e.dHashed := by
  rw [List.getElem?_modify, h]
  simp only [Option.map_eq_map, Option.map_some]
  split
  · exact ⟨f e, rfl, hf.name e, hf.parent e, hf.inode e, hf.hashed e⟩
  · exact ⟨e, rfl, rfl, rfl, rfl, rfl⟩

theorem isDir_countOnly (hf : CountOnly f) (q : Nat) :
    ({ s with dentries := s.dentries.modify d f } : Vfs).isDir q = s.isDir q := by
  unfold Vfs.isDir
  cases hq : s.dentries[q]? with
  | none => simp [List.getElem?_modify, hq]
  | some e =>
    obtain ⟨e', he', -, -, hi, -⟩ := hf.getElem?_of_eq_some (d := d) hq
    simp only [he', hi]
    rfl

theorem subdirs_countOnly (hf : CountOnly f) (q : Nat) :
    ({ s with dentries := s.dentries.modify d f } : Vfs).subdirs q = s.subdirs q :=
  Table.countP_modify (fun e => by rw [hf.hashed, hf.parent, hf.inode]) _ _

theorem Wf.countOnly (hW : Wf s) (hf : CountOnly f) : Wf { s with dentries := s.dentries.modify d f } where
  sRoot := hW.sRoot
  root := by
    obtain ⟨r, hr, h₁, h₂⟩ := hW.root
    obtain ⟨r', hr', -, hp, -, hh⟩ := hf.getElem?_of_eq_some (d := d) hr
    exact ⟨r', hr', hp.trans h₁, hh.trans h₂⟩
  rootDir := by rw [isDir_countOnly hf]; exact hW.rootDir
  hashed := fun k e' h hk => by
    obtain ⟨e, he, -, -, -, hh⟩ := hf.getElem?_eq_some h
    rw [hh]; exact hW.hashed k e he hk
  parentLt := fun k e' h hk => by
    obtain ⟨e, he, -, hp, -, -⟩ := hf.getElem?_eq_some h
    rw [hp]; exact hW.parentLt k e he hk
  parentDir := fun k e' h hh' => by
    obtain ⟨e, he, -, hp, -, hh⟩ := hf.getElem?_eq_some h
    rw [isDir_countOnly hf, hp]; exact hW.parentDir k e he (hh ▸ hh')
  inodeLt := fun k e' i h hi => by
    obtain ⟨e, he, -, -, hie, -⟩ := hf.getElem?_eq_some h
    exact hW.inodeLt k e i he (hie ▸ hi)
  inodeInj := fun k k' e₁ e₂ i h₁ h₂ hi₁ hi₂ => by
    obtain ⟨a, ha, -, -, hia, -⟩ := hf.getElem?_eq_some h₁
    obtain ⟨b, hb, -, -, hib, -⟩ := hf.getElem?_eq_some h₂
    exact hW.inodeInj k k' a b i ha hb (hia ▸ hi₁) (hib ▸ hi₂)
  kind := fun k e' i n h hi hn => by
    obtain ⟨e, he, -, -, hie, -⟩ := hf.getElem?_eq_some h
    exact hW.kind k e i n he (hie ▸ hi) hn

theorem Links.countOnly (hL : Links s) (hf : CountOnly f) : Links { s with dentries := s.dentries.modify d f } := by
  intro k e' i n h hi hn
  obtain ⟨e, he, -, -, hie, -⟩ := hf.getElem?_eq_some h
  rw [subdirs_countOnly hf]
  exact hL k e i n he (hie ▸ hi) hn

/-! ## A new negative child -/

variable {p k : Nat} {name : String}

theorem isDir_addNegative (q : Nat) (hq : q < s.dentries.length) :
    ({ s with dentries := s.dentries ++ [⟨name, p, none, k, true⟩] } : Vfs).isDir q = s.isDir q := by
  simp only [Vfs.isDir, List.getElem?_append_left hq]
  rfl

theorem subdirs_addNegative (q : Nat) :
    ({ s with dentries := s.dentries ++ [⟨name, p, none, k, true⟩] } : Vfs).subdirs q = s.subdirs q := by
  simp [Vfs.subdirs, Vfs.dirInode]

/-- **A negative child kept by the cache** — the lookup's dentry when `new_inode` fails — keeps the shape: it is
hashed, after its parent, and its parent is a directory. -/
theorem Wf.addNegative (hW : Wf s) (hp : s.isDir p = true) (hpl : p < s.dentries.length) :
    Wf { s with dentries := s.dentries ++ [⟨name, p, none, k, true⟩] } where
  sRoot := hW.sRoot
  root := by
    obtain ⟨r, hr, h₁, h₂⟩ := hW.root
    have h0 : 0 < s.dentries.length := (List.getElem?_eq_some_iff.1 hr).1
    exact ⟨r, by rw [List.getElem?_append_left h0]; exact hr, h₁, h₂⟩
  rootDir := by
    obtain ⟨r, hr, -, -⟩ := hW.root
    have h0 : 0 < s.dentries.length := (List.getElem?_eq_some_iff.1 hr).1
    rw [isDir_addNegative 0 h0]; exact hW.rootDir
  hashed := fun d e h hd => by
    rcases Table.getElem?_append_singleton_eq_some h with h | ⟨-, rfl⟩
    · exact hW.hashed d e h hd
    · rfl
  parentLt := fun d e h hd => by
    rcases Table.getElem?_append_singleton_eq_some h with h | ⟨rfl, rfl⟩
    · exact hW.parentLt d e h hd
    · exact hpl
  parentDir := fun d e h hh => by
    rcases Table.getElem?_append_singleton_eq_some h with h | ⟨rfl, rfl⟩
    · have hq := hW.parentDir d e h hh
      have hlt : e.dParent < s.dentries.length := by
        by_cases hd : d = 0
        · subst hd
          obtain ⟨r, hr, h₁, h₂⟩ := hW.root
          rw [hr] at h; cases h
          rw [h₁]; exact (List.getElem?_eq_some_iff.1 hr).1
        · exact Nat.lt_trans (hW.parentLt d e h hd) (List.getElem?_eq_some_iff.1 h).1
      rw [isDir_addNegative _ hlt]; exact hq
    · rw [isDir_addNegative _ hpl]; exact hp
  inodeLt := fun d e i h hi => by
    rcases Table.getElem?_append_singleton_eq_some h with h | ⟨rfl, rfl⟩
    · exact hW.inodeLt d e i h hi
    · cases hi
  inodeInj := fun d d' e e' i h h' hi hi' => by
    rcases Table.getElem?_append_singleton_eq_some h with h | ⟨rfl, rfl⟩
    · rcases Table.getElem?_append_singleton_eq_some h' with h' | ⟨rfl, rfl⟩
      · exact hW.inodeInj d d' e e' i h h' hi hi'
      · cases hi'
    · cases hi
  kind := fun d e i n h hi hn => by
    rcases Table.getElem?_append_singleton_eq_some h with h | ⟨rfl, rfl⟩
    · exact hW.kind d e i n h hi hn
    · cases hi

theorem Links.addNegative (hL : Links s) : Links { s with dentries := s.dentries ++ [⟨name, p, none, k, true⟩] } := by
  intro d e i n h hi hn
  rw [subdirs_addNegative]
  rcases Table.getElem?_append_singleton_eq_some h with h | ⟨rfl, rfl⟩
  · exact hL d e i n h hi hn
  · cases hi

/-! ## A creation that succeeds -/

/-- The modes of the creation calls: type bits `S_IFDIR`, `S_IFREG` or none. -/
def ModeOk (mode : Nat) : Prop := mode &&& S_IFMT = S_IFDIR ∨ mode &&& S_IFMT = S_IFREG ∨ mode &&& S_IFMT = 0

section created

variable {env : Env} {o : Inode} {mode : Nat} {data : Option Nat} {fops : Option Fops} {pi c : Nat} {e : Dentry}

theorem createdInode_type (hm : ModeOk mode) :
    ((createdInode env o mode data fops).iMode &&& S_IFMT = S_IFDIR) ↔ mode &&& S_IFMT = S_IFDIR := by
  by_cases hd : mode &&& S_IFMT = S_IFDIR
  · exact ⟨fun _ => hd, fun _ => (createdInode_dir hd).1⟩
  · have hr : (createdInode env o mode data fops).iMode &&& S_IFMT = S_IFREG :=
      (createdInode_reg (hm.resolve_left hd)).1
    rw [hr]
    exact ⟨fun h => absurd h (by decide), fun h => absurd h hd⟩

theorem created_dentry_eq_some (hc : s.dentries[c]? = some e) {k : Nat} {x : Dentry}
    (h : (createdVfs env o mode data fops pi c s).dentries[k]? = some x) :
    (k = c ∧ x = { e with dInode := some s.inodes.length, dCount := e.dCount + 1 }) ∨
      (k ≠ c ∧ s.dentries[k]? = some x) := by
  simp only [createdVfs, List.getElem?_modify] at h
  by_cases hk : k = c
  · subst hk
    simp only [hc, Option.map_eq_map, Option.map_some, if_true, Option.some.injEq] at h
    exact .inl ⟨rfl, h.symm⟩
  · refine .inr ⟨hk, ?_⟩
    cases hx : s.dentries[k]? with
    | none => simp [hx] at h
    | some y => simp [hx, Ne.symm hk] at h; rw [h]

theorem created_dentry_ne {k : Nat} (hk : k ≠ c) :
    (createdVfs env o mode data fops pi c s).dentries[k]? = s.dentries[k]? := by
  simp only [createdVfs, List.getElem?_modify]
  cases s.dentries[k]? <;> simp [Ne.symm hk]

theorem created_inode_eq_some {j : Nat} {n' : Inode} (h : (createdVfs env o mode data fops pi c s).inodes[j]? = some n') :
    (j = s.inodes.length ∧ n' = createdInode env o mode data fops) ∨
      (∃ n, s.inodes[j]? = some n ∧
        n' = { n with iNlink := n.iNlink + if mode &&& S_IFMT = S_IFDIR ∧ j = pi then 1 else 0 }) := by
  have hlen : (if mode &&& S_IFMT = S_IFDIR then s.inodes.modify pi (fun n => { n with iNlink := n.iNlink + 1 })
      else s.inodes).length = s.inodes.length := by split <;> simp
  simp only [createdVfs] at h
  rcases Table.getElem?_append_singleton_eq_some h with h | ⟨hj, rfl⟩
  · refine .inr ?_
    by_cases hd : mode &&& S_IFMT = S_IFDIR
    · simp only [hd, if_true, List.getElem?_modify] at h
      cases hn : s.inodes[j]? with
      | none => simp [hn] at h
      | some n =>
        simp only [hn, Option.map_eq_map, Option.map_some, Option.some.injEq] at h
        by_cases hj : j = pi
        · subst hj; simp only [if_true] at h; subst h; exact ⟨n, rfl, by simp [hd]⟩
        · simp only [Ne.symm hj, if_false] at h; subst h; exact ⟨n, rfl, by simp [hj]⟩
    · simp only [hd, if_false] at h
      exact ⟨n', h, by simp [hd]⟩
  · exact .inl ⟨hj.trans hlen, rfl⟩

theorem created_inode_old {j : Nat} {n' : Inode} (hj : j < s.inodes.length)
    (h : (createdVfs env o mode data fops pi c s).inodes[j]? = some n') :
    ∃ n, s.inodes[j]? = some n ∧
      n' = { n with iNlink := n.iNlink + if mode &&& S_IFMT = S_IFDIR ∧ j = pi then 1 else 0 } := by
  rcases created_inode_eq_some h with ⟨rfl, -⟩ | h
  · omega
  · exact h

theorem created_inode_new :
    (createdVfs env o mode data fops pi c s).inodes[s.inodes.length]? = some (createdInode env o mode data fops) := by
  simp only [createdVfs]
  split <;> simp

theorem created_inodes_length : (createdVfs env o mode data fops pi c s).inodes.length = s.inodes.length + 1 := by
  simp only [createdVfs]
  split <;> simp

theorem created_dirInode_old {j : Nat} (hj : j < s.inodes.length) :
    (createdVfs env o mode data fops pi c s).dirInode (some j) = s.dirInode (some j) := by
  simp only [Vfs.dirInode]
  cases hn' : (createdVfs env o mode data fops pi c s).inodes[j]? with
  | none =>
    have : j < (createdVfs env o mode data fops pi c s).inodes.length := by rw [created_inodes_length]; omega
    rw [List.getElem?_eq_none_iff] at hn'
    omega
  | some n' =>
    obtain ⟨n, hn, rfl⟩ := created_inode_old hj hn'
    rw [hn]

theorem created_isDir (hW : Wf s) {k : Nat} (hk : k ≠ c) :
    (createdVfs env o mode data fops pi c s).isDir k = s.isDir k := by
  simp only [Vfs.isDir, created_dentry_ne hk]
  cases h : s.dentries[k]? with
  | none => rfl
  | some x =>
    simp only
    cases hx : x.dInode with
    | none => rfl
    | some j => exact created_dirInode_old (hW.inodeLt k x j h hx)

/-- **A creation adds one subdirectory, to the parent of a new directory.** -/
theorem created_subdirs (hW : Wf s) (hc : s.dentries[c]? = some e) (he : e.dInode = none) (hm : ModeOk mode)
    (q : Nat) : (createdVfs env o mode data fops pi c s).subdirs q =
      s.subdirs q + if e.dHashed = true ∧ e.dParent = q ∧ mode &&& S_IFMT = S_IFDIR then 1 else 0 := by
  let pred := fun x : Dentry =>
    x.dHashed && x.dParent == q && (createdVfs env o mode data fops pi c s).dirInode x.dInode
  let bind := fun e : Dentry => { e with dInode := some s.inodes.length, dCount := e.dCount + 1 }
  have hmod := Table.countP_modify_at (p := pred) (f := bind) s.dentries c e hc
  have hold : s.dentries.countP pred = s.subdirs q := by
    apply List.countP_congr
    intro x hx
    obtain ⟨k, hk⟩ := List.mem_iff_getElem?.1 hx
    cases hxi : x.dInode with
    | none => simp [pred, hxi, Vfs.dirInode]
    | some j =>
      have hj : (createdVfs env o mode data fops pi c s).dirInode (some j) = s.dirInode (some j) :=
        created_dirInode_old (hW.inodeLt k x j hk hxi)
      simp only [pred, hxi, hj]
  have he' : pred e = false := by simp [pred, he, Vfs.dirInode]
  have hnew : pred (bind e) = true ↔ e.dHashed = true ∧ e.dParent = q ∧ mode &&& S_IFMT = S_IFDIR := by
    simp only [pred, bind, Vfs.dirInode, created_inode_new, Bool.and_eq_true, beq_iff_eq,
      createdInode_type hm, and_assoc]
  have hsub : (createdVfs env o mode data fops pi c s).subdirs q = (s.dentries.modify c bind).countP pred := rfl
  rw [hsub]
  simp only [he', hold, Bool.false_eq_true, if_false, Nat.add_zero] at hmod
  by_cases hcond : e.dHashed = true ∧ e.dParent = q ∧ mode &&& S_IFMT = S_IFDIR
  · rw [if_pos (hnew.2 hcond)] at hmod
    rw [if_pos hcond]
    omega
  · rw [if_neg (fun h => hcond (hnew.1 h))] at hmod
    rw [if_neg hcond]
    omega

theorem createdInode_kind (hm : ModeOk mode) :
    ((createdInode env o mode data fops).iMode &&& S_IFMT = S_IFDIR ∧ (createdInode env o mode data fops).iOp = .simpleDir) ∨
      (createdInode env o mode data fops).iMode &&& S_IFMT = S_IFREG := by
  by_cases hd : mode &&& S_IFMT = S_IFDIR
  · exact .inl ⟨(createdInode_dir hd).1, (createdInode_dir hd).2.1⟩
  · exact .inr (createdInode_reg (hm.resolve_left hd)).1

/-- **A creation keeps the shape**: the dentry it binds is a hashed negative one whose parent is a directory, and the
inode it binds it to is new. -/
theorem Wf.created (hW : Wf s) (hc : s.dentries[c]? = some e) (he : e.dInode = none) (hm : ModeOk mode) :
    Wf (createdVfs env o mode data fops pi c s) where
  sRoot := hW.sRoot
  root := by
    obtain ⟨r, hr, h₁, h₂⟩ := hW.root
    exact ⟨r, by rw [created_dentry_ne (hW.ne_root hc he).symm]; exact hr, h₁, h₂⟩
  rootDir := by rw [created_isDir hW (hW.ne_root hc he).symm]; exact hW.rootDir
  hashed := fun k x h hk => by
    rcases created_dentry_eq_some hc h with ⟨rfl, rfl⟩ | ⟨-, h⟩
    · exact hW.hashed k e hc hk
    · exact hW.hashed k x h hk
  parentLt := fun k x h hk => by
    rcases created_dentry_eq_some hc h with ⟨rfl, rfl⟩ | ⟨-, h⟩
    · exact hW.parentLt k e hc hk
    · exact hW.parentLt k x h hk
  parentDir := fun k x h hh => by
    -- the parent was a directory before, so it is not `c` and stays one
    have hd : s.isDir x.dParent = true := by
      rcases created_dentry_eq_some hc h with ⟨rfl, rfl⟩ | ⟨-, h⟩
      · exact hW.parentDir k e hc hh
      · exact hW.parentDir k x h hh
    rw [created_isDir hW (Vfs.isDir_ne_negative hd hc he)]
    exact hd
  inodeLt := fun k x i h hi => by
    rw [created_inodes_length]
    rcases created_dentry_eq_some hc h with ⟨rfl, rfl⟩ | ⟨-, h⟩
    · obtain rfl : s.inodes.length = i := Option.some.inj hi
      omega
    · exact Nat.lt_succ_of_lt (hW.inodeLt k x i h hi)
  inodeInj := fun k k' x x' i h h' hi hi' => by
    rcases created_dentry_eq_some hc h with ⟨rfl, rfl⟩ | ⟨-, hx⟩ <;>
      rcases created_dentry_eq_some hc h' with ⟨rfl, rfl⟩ | ⟨-, hx'⟩
    · rfl
    · obtain rfl : s.inodes.length = i := Option.some.inj hi
      exact absurd (hW.inodeLt k' x' _ hx' hi') (Nat.lt_irrefl _)
    · obtain rfl : s.inodes.length = i := Option.some.inj hi'
      exact absurd (hW.inodeLt k x _ hx hi) (Nat.lt_irrefl _)
    · exact hW.inodeInj k k' x x' i hx hx' hi hi'
  kind := fun k x i n h hi hn => by
    rcases created_dentry_eq_some hc h with ⟨rfl, rfl⟩ | ⟨-, h⟩
    · obtain rfl : s.inodes.length = i := Option.some.inj hi
      rw [created_inode_new, Option.some.injEq] at hn
      subst hn
      exact createdInode_kind hm
    · obtain ⟨n₀, hn₀, rfl⟩ := created_inode_old (hW.inodeLt k x i h hi) hn
      exact hW.kind k x i n₀ h hi hn₀

theorem createdInode_links (hm : ModeOk mode) :
    ((createdInode env o mode data fops).iMode &&& S_IFMT = S_IFDIR →
        (createdInode env o mode data fops).iNlink = 2) ∧
      ((createdInode env o mode data fops).iMode &&& S_IFMT = S_IFREG →
        (createdInode env o mode data fops).iNlink = 1) := by
  refine ⟨fun hd => (createdInode_dir ((createdInode_type hm).1 hd)).2.2, fun hr => ?_⟩
  by_cases hd : mode &&& S_IFMT = S_IFDIR
  · rw [(createdInode_dir hd).1] at hr
    cases hr
  · exact (createdInode_reg (hm.resolve_left hd)).2

/-- The inode of a directory dentry is no regular file's. -/
theorem Vfs.dir_inode_ne {q j : Nat} {pe : Dentry} {n : Inode} (hq : s.isDir q = true)
    (hpe : s.dentries[q]? = some pe) (hpi : pe.dInode = some pi) (hn : s.inodes[j]? = some n)
    (hr : n.iMode &&& S_IFMT = S_IFREG) : j ≠ pi := by
  rintro rfl
  obtain ⟨y, i, m, hy, hi, hm, hmd⟩ := Vfs.isDir_iff.1 hq
  rw [hpe, Option.some.injEq] at hy
  subst hy
  rw [hpi, Option.some.injEq] at hi
  subst hi
  rw [hn, Option.some.injEq] at hm
  subst hm
  rw [hmd] at hr
  cases hr

/-- **A creation keeps the link counts**: the new directory has two links and no subdirectory, a new file one link,
and the parent of a new directory gains one link with its one new subdirectory. -/
theorem Links.created (hW : Wf s) (hL : Links s) (hc : s.dentries[c]? = some e) (he : e.dInode = none)
    (hm : ModeOk mode) {pe : Dentry} (hpe : s.dentries[e.dParent]? = some pe) (hpi : pe.dInode = some pi) :
    Links (createdVfs env o mode data fops pi c s) := by
  intro k x i n h hi hn
  rw [created_subdirs hW hc he hm]
  have hc0 := hW.ne_root hc he
  rcases created_dentry_eq_some hc h with ⟨rfl, rfl⟩ | ⟨hk, h⟩
  · -- the new inode, on `c`, whose parent comes before it
    obtain rfl : s.inodes.length = i := Option.some.inj hi
    rw [created_inode_new, Option.some.injEq] at hn
    subst hn
    have hpc : ¬ (e.dHashed = true ∧ e.dParent = k ∧ mode &&& S_IFMT = S_IFDIR) :=
      fun h => Nat.ne_of_lt (hW.parentLt k e hc hc0) h.2.1
    rw [hW.subdirs_negative hc he, if_neg hpc]
    exact createdInode_links hm
  · -- an inode from before: one more link exactly when it is the parent's of a new directory
    obtain ⟨n₀, hn₀, rfl⟩ := created_inode_old (hW.inodeLt k x i h hi) hn
    obtain ⟨hdir, hreg⟩ := hL k x i n₀ h hi hn₀
    have hh : e.dHashed = true := hW.hashed c e hc hc0
    have hcond : (mode &&& S_IFMT = S_IFDIR ∧ i = pi) ↔
        (e.dHashed = true ∧ e.dParent = k ∧ mode &&& S_IFMT = S_IFDIR) := by
      rw [hW.inode_eq_iff hpe hpi h hi]
      simp only [hh, true_and]
      exact and_comm
    dsimp only
    refine ⟨fun hd => ?_, fun hr => ?_⟩
    · by_cases hcd : mode &&& S_IFMT = S_IFDIR ∧ i = pi
      · rw [if_pos hcd, if_pos (hcond.1 hcd), hdir hd]
        omega
      · rw [if_neg hcd, if_neg (fun h => hcd (hcond.2 h)), hdir hd]
        omega
    · -- a regular file is not the parent's inode, which is a directory
      have hne : i ≠ pi := Vfs.dir_inode_ne (hW.parentDir c e hc hh) hpe hpi hn₀ hr
      rw [if_neg (fun h => hne h.2), hreg hr]

end created

end Aufs
