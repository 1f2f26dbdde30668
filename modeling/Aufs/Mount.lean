import Aufs.Access
/-!
# Mount — the superblock across `insmod`, `mount`, `umount` and `rmmod`

`aufs_type` is a `mount_single` file system: every mount of it, `aufs_init`'s `kern_mount` and each
`mount -t aufs none DIR` of user space, takes the one superblock the loaded `aufs_type` has, with one more active
reference (`s_active`), and the reference a mount holds goes at its `mntput`; the last one shuts the superblock down
through `s_type->kill_sb`.  Across every sequence of loads, mounts, unmounts and unloads, `s_active` counts the
superblock's mounts, and the superblock lives exactly as long as one of them (`mounts_counted`).  While the module
stays loaded, a mount on a directory no aufs mount covers shows the tree `aufs_init` built, and a second one on the
same point gets `do_add_mount`'s `EBUSY` (`user_mounts_share`).  When `kern_mount` fails, `aufs_init` still returns 0,
and the module stays loaded with nothing to mount (`failed_mount_loads`).

`sget` takes a reference on the module that owns the file system type (`get_filesystem`), and `sys_delete_module`
refuses while that count is not 0.  `aufs_type` names no owner, so no superblock holds the module: `rmmod` runs
`aufs_exit` (`Kern.aufsExit`, which is `aufsExit` on the kernel: `Kern.aufsExit_loaded`) whatever user space has
mounted.  The superblock then outlives the module, and the `umount` that drops its last mount calls `kill_sb` through
the freed `aufs_type` (`unload_while_mounted`).  Had `aufs_type` named the module, the superblock `aufs_mount` holds
would keep `rmmod` off for good (`owner_pins_module`).
-/
namespace Aufs

def ENODEV : Int := 19
def EWOULDBLOCK : Int := 11

/-! ## The model -/

/-- `aufs_type.owner`: its initializer names none, so it is `NULL`. -/
def aufsTypeOwner : Bool := false

/-- `get_filesystem(fs)`: `__module_get(fs->owner)`, one more reference on the module when there is an owner. -/
def getFilesystem (owner : Bool) (refs : Nat) : Nat := if owner then refs + 1 else refs

/-- `put_filesystem(fs)`: `module_put(fs->owner)`. -/
def putFilesystem (owner : Bool) (refs : Nat) : Nat := if owner then refs - 1 else refs

/-- `dput(dentry)` on a dentry that keeps another reference: one reference less. -/
def dput (s : Vfs) (d : Nat) : Vfs := s.modifyDentry d (fun e => { e with dCount := e.dCount - 1 })

/-- `S_ISLNK` of the inode of the dentry `d`. -/
def Vfs.isLnk (s : Vfs) (d : Nat) : Bool :=
  match s.dentries[d]? with
  | some e => match e.dInode with
    | some i => (s.inodes[i]?).any (fun n => n.iMode &&& S_IFMT == S_IFLNK)
    | none => false
  | none => false

/-- A superblock of aufs: the VFS under its root, `s_active`, and `s_type`, named by the load of the module whose
`aufs_type` it is. -/
structure Super where
  vfs : Vfs
  sActive : Nat
  sType : Nat

/-- **`deactivate_super(s)`**: one active reference less; the last one goes to `s_type->kill_sb`, after which the
superblock is gone (`none`). -/
def deactivateSuper (x : Super) : Option Super :=
  if x.sActive - 1 = 0 then none else some { x with sActive := x.sActive - 1 }

/-- **`mntput(mnt)`** of a mount's last reference: `__mntput` puts the root the mount held, then deactivates the
superblock. -/
def mntput (x : Super) : Option Super := deactivateSuper { x with vfs := dput x.vfs 0 }

/-- The kernel around the module.  `gen` counts the unloads: the module loaded, or the next one, is load `gen`.  Then
whether `aufs_type` is registered, whether `aufs_mount` is a mount, the module's reference count, the superblock of the
loaded `aufs_type`, the aufs mounts of user space, newest first, each with its mount point and the load of its
superblock, and the superblocks earlier loads left mounted. -/
structure Kern where
  live : Bool
  gen : Nat
  registered : Bool
  aufsMount : Bool
  modRefs : Nat
  sb : Option Super
  mounts : List (Nat × Nat)
  orphans : List Super

def Kern.init : Kern := ⟨false, 0, false, false, 0, none, [], []⟩

/-- The mounts of user space on the superblock of load `g`. -/
def Kern.mountsOf (k : Kern) (g : Nat) : Nat := k.mounts.countP (fun m => m.2 == g)

/-- The mounts of user space on the loaded superblock. -/
def Kern.users (k : Kern) : Nat := k.mountsOf k.gen

/-- The superblock of load `g`: the loaded one, or the one an earlier load left. -/
def Kern.superOf (k : Kern) (g : Nat) : Option Super :=
  if g = k.gen then k.sb else k.orphans.find? (·.sType == g)

/-- `mntput` of a mount of the loaded superblock `x`; on the last reference `deactivate_super` kills it and puts the
reference `sget` took on the owner. -/
def Kern.putSb (owner : Bool) (k : Kern) (x : Super) : Kern :=
  { k with sb := mntput x, modRefs := if (mntput x).isSome then k.modRefs else putFilesystem owner k.modRefs }

/-- `mntput` of a mount of the superblock of load `g`.  The last reference on a superblock an earlier load left calls
`kill_sb` through that load's freed `aufs_type`: an oops. -/
def Kern.putMount (owner : Bool) (k : Kern) (g : Nat) : Option Kern :=
  if g = k.gen then k.sb.map (k.putSb owner)
  else (k.orphans.find? (·.sType == g)).bind fun y =>
    (mntput y).map fun y' => { k with orphans := k.orphans.map (fun z => if z.sType = g then y' else z) }

/-- **`sys_init_module`** of aufs: `EEXIST` while it is loaded, else `aufs_init()`.  A negative return frees the
module again; otherwise it stays, with its count 0, and with `aufs_type` registered and `aufs_mount` as `aufs_init`
left them.  The superblock its `kern_mount` filled is new, with that mount's active reference and `sget`'s reference on
the owner. -/
def sysInitModule (owner : Bool) (k : Kern) (taken : Bool) (menv : Env) (now : Nat) (env : Nat → Env) :
    Option (Int × Kern) :=
  if k.live then some (-EEXIST, k)
  else match aufsInit taken menv now env with
    | none => none
    | some (ret, m) =>
      if ret < 0 then some (ret, k)
      else match m.aufsMount with
        | some (.ok s) =>
          some (ret, { k with
            live := true, registered := m.registered, aufsMount := true, modRefs := getFilesystem owner 0,
            sb := some ⟨s, 1, k.gen⟩ })
        | _ =>
          some (ret, { k with
            live := true, registered := m.registered, aufsMount := false, modRefs := 0, sb := none })

/-- **`aufs_get_sb`**, `mount_single`, for a new mount: the superblock the loaded `aufs_type` has, with one more
active reference (`grab_super`) and its root with one more (`dget(s->s_root)`), or a new one `aufs_fill_super` fills,
whose `sget` takes a reference on the owner.  The new mount's superblock, and the kernel with it. -/
def mountSingle (owner : Bool) (k : Kern) (menv : Env) (now : Nat) : Except Int (Super × Kern) :=
  match k.sb with
  | some x =>
    let y : Super := ⟨dget x.vfs 0, x.sActive + 1, x.sType⟩
    .ok (y, { k with sb := some y })
  | none =>
    match aufsGetSb menv now with
    | .ok s => .ok (⟨s, 1, k.gen⟩, { k with sb := some ⟨s, 1, k.gen⟩, modRefs := getFilesystem owner k.modRefs })
    | .error e => .error e

/-- **`do_add_mount(newmnt, nd)`** of a new mount of `x` on the point `point`, a directory when `dir`.  `follow_down`
goes to the root of the newest mount on `point`: `EBUSY` when that mount is of `x` too, `EINVAL` when the new root
is a symbolic link, and `graft_tree`'s `ENOTDIR` when one of the two is a directory and the other not.  The
`mntput(newmnt)` that ends `do_add_mount` puts a refused mount back. -/
def doAddMount (owner : Bool) (k : Kern) (x : Super) (point : Nat) (dir : Bool) : Int × Kern :=
  let top := k.mounts.find? (·.1 == point)
  let pointDir := match top with
    | some (_, g) => (k.superOf g).any (·.vfs.isDir 0)
    | none => dir
  if top.any (·.2 == x.sType) then (-EBUSY, k.putSb owner x)
  else if x.vfs.isLnk 0 then (-EINVAL, k.putSb owner x)
  else if pointDir != x.vfs.isDir 0 then (-ENOTDIR, k.putSb owner x)
  else (0, { k with mounts := (point, x.sType) :: k.mounts })

/-- **`mount -t aufs none DIR`**, `do_new_mount`: `do_kern_mount` gets `ENODEV` when `aufs_type` is not registered
and `ENOMEM` when no `vfsmount` is allocated (`ok` false), then `aufs_get_sb`; `do_add_mount` puts the mount on
`DIR`. -/
def doNewMount (owner : Bool) (k : Kern) (ok : Bool) (menv : Env) (now : Nat) (point : Nat) (dir : Bool) :
    Option (Int × Kern) :=
  if !k.registered then some (-ENODEV, k)
  else if !ok then some (-ENOMEM, k)
  else match mountSingle owner k menv now with
    | .ok (x, k₁) => some (doAddMount owner k₁ x point dir)
    | .error e => some (e, k)

/-- **`umount DIR`** of an aufs mount on `point`: `EINVAL` when none is there, `EBUSY` while a file is open on it
(`busy`); else `umount_tree` takes the newest mount on `point` off the namespace, and its `mntput` puts its
superblock. -/
def sysUmount (owner : Bool) (k : Kern) (point : Nat) (busy : Bool) : Option (Int × Kern) :=
  match k.mounts.find? (·.1 == point) with
  | none => some (-EINVAL, k)
  | some m =>
    if busy then some (-EBUSY, k)
    else (Kern.putMount owner { k with mounts := k.mounts.eraseP (·.1 == point) } m.2).map ((0 : Int), ·)

/-- `kern_unmount(aufs_mount)`: `mntput` of `aufs_init`'s mount when `aufs_mount` is one, nothing for an error
pointer. -/
def Kern.kernUnmount (owner : Bool) (k : Kern) : Kern :=
  match k.aufsMount, k.sb with
  | true, some x => k.putSb owner x
  | _, _ => k

/-- **`aufs_exit()`** on the kernel: `kern_unmount(aufs_mount)`, `unregister_filesystem(&aufs_type)`,
`aufs_mount = NULL`. -/
def Kern.aufsExit (owner : Bool) (k : Kern) : Kern :=
  { k.kernUnmount owner with registered := false, aufsMount := false }

/-- **`sys_delete_module`** of aufs, with `rmmod`'s `O_NONBLOCK`: `ENOENT` when it is not loaded, `EWOULDBLOCK`
while its count is not 0 (`__try_stop_module`); else `aufs_exit()` and `free_module`, which frees `aufs_type` with the
module.  A superblock still mounted stays, its `s_type` pointing at the freed `aufs_type`. -/
def sysDeleteModule (owner : Bool) (k : Kern) : Option (Int × Kern) :=
  if !k.live then some (-ENOENT, k)
  else if k.modRefs ≠ 0 then some (-EWOULDBLOCK, k)
  else
    let k₁ := k.aufsExit owner
    some (0, { k₁ with
      live := false, gen := k.gen + 1, sb := none,
      orphans := match k₁.sb with
        | some x => x :: k₁.orphans
        | none => k₁.orphans })

/-- What the administrator does. -/
inductive Admin where
  | insmod (taken : Bool) (menv : Env) (now : Nat) (env : Nat → Env)
  | mount (ok : Bool) (menv : Env) (now : Nat) (point : Nat) (dir : Bool)
  | umount (point : Nat) (busy : Bool)
  | rmmod

/-- **One command**, for a file system type whose owner is the module or not: its return value and the kernel it
leaves, `none` for an oops. -/
def Kern.stepWith (owner : Bool) (k : Kern) : Admin → Option (Int × Kern)
  | .insmod taken menv now env => sysInitModule owner k taken menv now env
  | .mount ok menv now point dir => doNewMount owner k ok menv now point dir
  | .umount point busy => sysUmount owner k point busy
  | .rmmod => sysDeleteModule owner k

/-- One command on aufs. -/
def Kern.step (k : Kern) (a : Admin) : Option (Int × Kern) := k.stepWith aufsTypeOwner a

def Kern.run : Kern → List Admin → Option (List Int × Kern)
  | k, [] => some ([], k)
  | k, a :: as =>
    match Kern.step k a with
    | none => none
    | some (r, k₁) =>
      match Kern.run k₁ as with
      | none => none
      | some (rs, k₂) => some (r :: rs, k₂)

/-- The kernels a sequence of commands reaches from boot. -/
def Kern.ReachWith (owner : Bool) (k : Kern) : Prop :=
  Machine.Reach (· = Kern.init) (fun k k' => ∃ a r, k.stepWith owner a = some (r, k')) k

def Kern.Reach (k : Kern) : Prop := Kern.ReachWith aufsTypeOwner k

/-- What `aufsExit` reads of the kernel: whether `aufs_type` is registered, and the VFS of `aufs_mount`'s superblock
when it is a mount. -/
def Kern.loaded (k : Kern) : Loaded := ⟨k.registered, if k.aufsMount then k.sb.map (fun x => .ok x.vfs) else none⟩

/-! ## What one command does -/

section spec

variable {owner : Bool} {k k' : Kern} {x x' : Super} {r : Int}

theorem view_dget (s : Vfs) (d : Nat) : (dget s d).view = s.view := view_countOnly countOnly_incCount

theorem view_dput (s : Vfs) (d : Nat) : (dput s d).view = s.view := view_countOnly (fun _ => rfl)

theorem isDir_dget (s : Vfs) (d q : Nat) : (dget s d).isDir q = s.isDir q := isDir_countOnly countOnly_incCount q

theorem isDir_dput (s : Vfs) (d q : Nat) : (dput s d).isDir q = s.isDir q :=
  isDir_countOnly (s := s) (d := d) (f := fun e => { e with dCount := e.dCount - 1 }) (fun _ => rfl) q

theorem dput_dget (s : Vfs) (d : Nat) : dput (dget s d) d = s := by
  have hid : ((fun e : Dentry => { e with dCount := e.dCount - 1 }) ∘ fun e => { e with dCount := e.dCount + 1 }) =
      id := by
    funext e
    simp
  simp only [dput, dget, Vfs.modifyDentry, List.modify_modify_eq, hid, List.modify_id]

theorem Vfs.isLnk_of_isDir {s : Vfs} {d : Nat} (h : s.isDir d = true) : s.isLnk d = false := by
  obtain ⟨e, i, n, hd, hi, hn, hm⟩ := Vfs.isDir_iff.1 h
  simp [Vfs.isLnk, hd, hi, hn, hm, S_IFDIR, S_IFLNK]

theorem putFilesystem_getFilesystem (n : Nat) : putFilesystem owner (getFilesystem owner n) = n := by
  cases owner <;> rfl

theorem putFilesystem_zero : putFilesystem owner 0 = 0 := by
  cases owner <;> rfl

theorem mntput_eq_none : mntput x = none ↔ x.sActive ≤ 1 := by
  unfold mntput deactivateSuper
  dsimp only
  split
  · simp only [true_iff]
    omega
  · simp only [reduceCtorEq, false_iff]
    omega

theorem mntput_eq_some (h : mntput x = some x') :
    x'.sActive = x.sActive - 1 ∧ 0 < x'.sActive ∧ x'.sType = x.sType ∧ x'.vfs = dput x.vfs 0 := by
  unfold mntput deactivateSuper at h
  dsimp only at h
  split at h
  · cases h
  · obtain rfl := Option.some.inj h
    exact ⟨rfl, by dsimp only; omega, rfl, rfl⟩

theorem mntput_of_lt (h : 1 < x.sActive) : ∃ x', mntput x = some x' := by
  cases hm : mntput x with
  | none => exact absurd (mntput_eq_none.1 hm) (by omega)
  | some x' => exact ⟨x', rfl⟩

theorem Kern.putSb_of_some (h : mntput x = some x') : k.putSb owner x = { k with sb := some x' } := by
  simp [Kern.putSb, h]

theorem Kern.putSb_of_none (h : mntput x = none) :
    k.putSb owner x = { k with sb := none, modRefs := putFilesystem owner k.modRefs } := by
  simp [Kern.putSb, h]

theorem Kern.kernUnmount_cases :
    (k.aufsMount = true ∧ ∃ x, k.sb = some x ∧ k.kernUnmount owner = k.putSb owner x) ∨
      ((k.aufsMount = false ∨ k.sb = none) ∧ k.kernUnmount owner = k) := by
  unfold Kern.kernUnmount
  split
  · rename_i x hA hx
    exact .inl ⟨hA, x, hx, rfl⟩
  · rename_i hn
    refine .inr ⟨?_, rfl⟩
    cases hA : k.aufsMount
    · exact .inl rfl
    · cases hx : k.sb with
      | none => exact .inr rfl
      | some x => exact absurd hx (hn x hA)

theorem Kern.kernUnmount_mounts : (k.kernUnmount owner).mounts = k.mounts := by
  unfold Kern.kernUnmount
  split <;> rfl

theorem Kern.kernUnmount_orphans : (k.kernUnmount owner).orphans = k.orphans := by
  unfold Kern.kernUnmount
  split <;> rfl

theorem Kern.kernUnmount_gen : (k.kernUnmount owner).gen = k.gen := by
  unfold Kern.kernUnmount
  split <;> rfl

theorem sysInitModule_cases {taken : Bool} {menv : Env} {now : Nat} {env : Nat → Env}
    (h : sysInitModule owner k taken menv now env = some (r, k')) :
    k' = k ∨ k.live = false ∧ ∃ m, aufsInit taken menv now env = some (r, m) ∧ 0 ≤ r ∧
      ((∃ s, m.aufsMount = some (.ok s) ∧ k' = { k with
          live := true, registered := m.registered, aufsMount := true, modRefs := getFilesystem owner 0,
          sb := some ⟨s, 1, k.gen⟩ }) ∨
       k' = { k with live := true, registered := m.registered, aufsMount := false, modRefs := 0, sb := none }) := by
  unfold sysInitModule at h
  split at h
  · exact .inl (Prod.mk.inj (Option.some.inj h)).2.symm
  · rename_i hl
    split at h
    · cases h
    · rename_i ret m hi
      split at h
      · exact .inl (Prod.mk.inj (Option.some.inj h)).2.symm
      · rename_i hr
        refine .inr ⟨by simpa using hl, m, ?_⟩
        split at h
        · rename_i s hs
          obtain ⟨rfl, rfl⟩ := Prod.mk.inj (Option.some.inj h)
          exact ⟨hi, by omega, .inl ⟨s, hs, rfl⟩⟩
        · obtain ⟨rfl, rfl⟩ := Prod.mk.inj (Option.some.inj h)
          exact ⟨hi, by omega, .inr rfl⟩

theorem sysInitModule_loaded (hl : k.live = true) {taken : Bool} {menv : Env} {now : Nat} {env : Nat → Env} :
    sysInitModule owner k taken menv now env = some (-EEXIST, k) := by
  simp [sysInitModule, hl]

theorem mountSingle_cases {menv : Env} {now : Nat} {k₁ : Kern} (h : mountSingle owner k menv now = .ok (x, k₁)) :
    (∃ y, k.sb = some y ∧ x = ⟨dget y.vfs 0, y.sActive + 1, y.sType⟩ ∧ k₁ = { k with sb := some x }) ∨
      (k.sb = none ∧ (∃ s, aufsGetSb menv now = .ok s ∧ x = ⟨s, 1, k.gen⟩) ∧
        k₁ = { k with sb := some x, modRefs := getFilesystem owner k.modRefs }) := by
  unfold mountSingle at h
  split at h
  · rename_i y hy
    obtain ⟨rfl, rfl⟩ := Prod.mk.inj (Except.ok.inj h)
    exact .inl ⟨y, hy, rfl, rfl⟩
  · rename_i hy
    split at h
    · rename_i s hs
      obtain ⟨rfl, rfl⟩ := Prod.mk.inj (Except.ok.inj h)
      exact .inr ⟨hy, ⟨s, hs, rfl⟩, rfl⟩
    · cases h

theorem mountSingle_mounts {menv : Env} {now : Nat} {k₁ : Kern} (h : mountSingle owner k menv now = .ok (x, k₁)) :
    k₁.mounts = k.mounts := by
  rcases mountSingle_cases h with ⟨-, -, -, rfl⟩ | ⟨-, -, rfl⟩ <;> rfl

/-- **A refused mount is put back**: the `mntput` of the mount `aufs_get_sb` just made leaves the kernel as it was
before. -/
theorem mountSingle_undo (hp : ∀ y, k.sb = some y → 0 < y.sActive) {menv : Env} {now : Nat} {k₁ : Kern}
    (h : mountSingle owner k menv now = .ok (x, k₁)) : k₁.putSb owner x = k := by
  rcases mountSingle_cases h with ⟨y, hy, rfl, rfl⟩ | ⟨hy, ⟨s, -, rfl⟩, rfl⟩
  · -- the superblock keeps the references it had
    have hm : mntput ⟨dget y.vfs 0, y.sActive + 1, y.sType⟩ = some y := by
      have hpos := hp y hy
      simp only [mntput, deactivateSuper, dput_dget, Nat.add_sub_cancel, Nat.pos_iff_ne_zero.1 hpos, if_false]
    rw [Kern.putSb_of_some hm, ← hy]
  · -- the new superblock had only this mount
    rw [Kern.putSb_of_none (mntput_eq_none.2 (Nat.le_refl 1)), ← hy, putFilesystem_getFilesystem]

theorem doAddMount_cases {point : Nat} {dir : Bool} (h : doAddMount owner k x point dir = (r, k')) :
    k' = k.putSb owner x ∨
      r = 0 ∧ (∀ m, k.mounts.find? (·.1 == point) = some m → m.2 ≠ x.sType) ∧
        k' = { k with mounts := (point, x.sType) :: k.mounts } := by
  unfold doAddMount at h
  dsimp only at h
  split_ifs at h with hb hl hd
  · exact .inl (Prod.mk.inj h).2.symm
  · exact .inl (Prod.mk.inj h).2.symm
  · exact .inl (Prod.mk.inj h).2.symm
  · obtain ⟨rfl, rfl⟩ := Prod.mk.inj h
    refine .inr ⟨rfl, fun m hm he => hb ?_, rfl⟩
    simp [hm, he]

theorem doNewMount_cases (hp : ∀ y, k.sb = some y → 0 < y.sActive) {ok : Bool} {menv : Env} {now point : Nat}
    {dir : Bool} (h : doNewMount owner k ok menv now point dir = some (r, k')) :
    k' = k ∨ r = 0 ∧ k.registered = true ∧ ∃ x k₁, mountSingle owner k menv now = .ok (x, k₁) ∧
      (∀ m, k.mounts.find? (·.1 == point) = some m → m.2 ≠ x.sType) ∧
      k' = { k₁ with mounts := (point, x.sType) :: k.mounts } := by
  unfold doNewMount at h
  split at h
  · exact .inl (Prod.mk.inj (Option.some.inj h)).2.symm
  · rename_i hreg
    split at h
    · exact .inl (Prod.mk.inj (Option.some.inj h)).2.symm
    · split at h
      · rename_i x k₁ hms
        have hmk := mountSingle_mounts hms
        rcases doAddMount_cases (Option.some.inj h) with rfl | ⟨rfl, hb, rfl⟩
        · exact .inl (mountSingle_undo hp hms)
        · rw [hmk] at hb ⊢
          exact .inr ⟨rfl, by simpa using hreg, x, k₁, hms, hb, rfl⟩
      · exact .inl (Prod.mk.inj (Option.some.inj h)).2.symm

/-- A mount of the superblock there is on a directory no aufs mount covers. -/
theorem doNewMount_grab (hreg : k.registered = true) (hx : k.sb = some x) (hd : x.vfs.isDir 0 = true)
    {menv : Env} {now point : Nat} (hp : ∀ m ∈ k.mounts, m.1 ≠ point) :
    doNewMount owner k true menv now point true = some (0, { k with
      sb := some ⟨dget x.vfs 0, x.sActive + 1, x.sType⟩, mounts := (point, x.sType) :: k.mounts }) := by
  have hfind : k.mounts.find? (·.1 == point) = none :=
    List.find?_eq_none.2 (fun m hm => by simpa using hp m hm)
  have hd' : (dget x.vfs 0).isDir 0 = true := by rw [isDir_dget, hd]
  simp [doNewMount, hreg, mountSingle, hx, doAddMount, hfind, Vfs.isLnk_of_isDir hd', hd']

/-- A second mount of the superblock on a point its newest mount covers: `EBUSY`, and the kernel as it was. -/
theorem doNewMount_busy (hreg : k.registered = true) (hx : k.sb = some x) (hp : 0 < x.sActive)
    {menv : Env} {now point : Nat} {dir : Bool} {m : Nat × Nat} (htop : k.mounts.find? (·.1 == point) = some m)
    (hm : m.2 = x.sType) :
    doNewMount owner k true menv now point dir = some (-EBUSY, k) := by
  have hms : mountSingle owner k menv now =
      .ok (⟨dget x.vfs 0, x.sActive + 1, x.sType⟩, { k with sb := some ⟨dget x.vfs 0, x.sActive + 1, x.sType⟩ }) := by
    simp [mountSingle, hx]
  have hundo := mountSingle_undo (fun y hy => (Option.some.inj (hx.symm.trans hy)) ▸ hp) hms
  unfold doNewMount
  rw [hreg, hms]
  simp only [Bool.not_true, Bool.false_eq_true, if_false, doAddMount, htop, Option.any_some, hm, beq_self_eq_true,
    if_true]
  rw [hundo]

theorem putMount_cases {g : Nat} (h : k.putMount owner g = some k') :
    (g = k.gen ∧ ∃ x, k.sb = some x ∧ k' = k.putSb owner x) ∨
      (g ≠ k.gen ∧ ∃ y y', k.orphans.find? (·.sType == g) = some y ∧ mntput y = some y' ∧
        k' = { k with orphans := k.orphans.map (fun z => if z.sType = g then y' else z) }) := by
  unfold Kern.putMount at h
  split at h
  · rename_i hg
    obtain ⟨x, hx, rfl⟩ := Option.map_eq_some_iff.1 h
    exact .inl ⟨hg, x, hx, rfl⟩
  · rename_i hg
    obtain ⟨y, hy, h⟩ := Option.bind_eq_some_iff.1 h
    obtain ⟨y', hy', rfl⟩ := Option.map_eq_some_iff.1 h
    exact .inr ⟨hg, y, y', hy, hy', rfl⟩

theorem sysUmount_cases {point : Nat} {busy : Bool} (h : sysUmount owner k point busy = some (r, k')) :
    k' = k ∨ r = 0 ∧ ∃ m, k.mounts.find? (·.1 == point) = some m ∧
      Kern.putMount owner { k with mounts := k.mounts.eraseP (·.1 == point) } m.2 = some k' := by
  unfold sysUmount at h
  split at h
  · exact .inl (Prod.mk.inj (Option.some.inj h)).2.symm
  · rename_i m hm
    split at h
    · exact .inl (Prod.mk.inj (Option.some.inj h)).2.symm
    · obtain ⟨k₁, hk₁, he⟩ := Option.map_eq_some_iff.1 h
      obtain ⟨rfl, rfl⟩ := Prod.mk.inj he
      exact .inr ⟨rfl, m, hm, hk₁⟩

theorem sysDeleteModule_cases (h : sysDeleteModule owner k = some (r, k')) :
    k' = k ∨ k.live = true ∧ k.modRefs = 0 ∧ r = 0 ∧
      k' = { k.aufsExit owner with
        live := false, gen := k.gen + 1, sb := none,
        orphans := match (k.aufsExit owner).sb with
          | some x => x :: (k.aufsExit owner).orphans
          | none => (k.aufsExit owner).orphans } := by
  unfold sysDeleteModule at h
  split at h
  · exact .inl (Prod.mk.inj (Option.some.inj h)).2.symm
  · rename_i hl
    split at h
    · exact .inl (Prod.mk.inj (Option.some.inj h)).2.symm
    · rename_i hr
      obtain ⟨rfl, rfl⟩ := Prod.mk.inj (Option.some.inj h)
      exact .inr ⟨by simpa using hl, by simpa using hr, rfl, rfl⟩

theorem Kern.run_cons_eq_some {a : Admin} {as : List Admin} {rs : List Int}
    (h : Kern.run k (a :: as) = some (rs, k')) :
    ∃ r rs' k₁, rs = r :: rs' ∧ Kern.step k a = some (r, k₁) ∧ Kern.run k₁ as = some (rs', k') := by
  simp only [Kern.run] at h
  split at h
  · cases h
  · rename_i r k₁ hst
    split at h
    · cases h
    · rename_i rs' k₂ hrun
      obtain ⟨rfl, rfl⟩ := Prod.mk.inj (Option.some.inj h)
      exact ⟨r, rs', k₁, rfl, hst, hrun⟩

theorem Kern.ReachWith.tail (h : Kern.ReachWith owner k) {a : Admin} (hs : k.stepWith owner a = some (r, k')) :
    Kern.ReachWith owner k' :=
  Machine.Reach.tail h ⟨a, r, hs⟩

theorem Kern.Reach.init : Kern.Reach Kern.init := Machine.Reach.of_init rfl

theorem Kern.Reach.tail (h : Kern.Reach k) {a : Admin} (hs : Kern.step k a = some (r, k')) : Kern.Reach k' :=
  Kern.ReachWith.tail h hs

end spec

/-! ## Every kernel the commands reach -/

/-- What every kernel the commands reach keeps.  Of the loaded superblock: `s_active` counts its mounts,
`aufs_mount`'s and user space's, and is never 0; it is gone when no mount holds it; it is the loaded `aufs_type`'s;
and the module's count is the reference `sget` took for it on an owner.  A registered `aufs_type` is loaded.  Every
superblock an earlier load left has one active reference for each mount user space holds of it, and at least one.
Every mount is of the loaded superblock or of one an earlier load left, and the mounts are newest first. -/
structure Kern.Inv (owner : Bool) (k : Kern) : Prop where
  active : ∀ x, k.sb = some x → x.sActive = (if k.aufsMount then 1 else 0) + k.users
  pos : ∀ x, k.sb = some x → 0 < x.sActive
  unmounted : k.sb = none → k.aufsMount = false ∧ k.users = 0
  loaded : ∀ x, k.sb = some x → x.sType = k.gen ∧ k.live = true
  registered : k.registered = true → k.live = true
  refs : k.modRefs = if owner && k.sb.isSome then 1 else 0
  orphans : ∀ y ∈ k.orphans, y.sType < k.gen ∧ 0 < y.sActive ∧ y.sActive = k.mountsOf y.sType
  mounts : ∀ m ∈ k.mounts, m.2 = k.gen ∨ ∃ y ∈ k.orphans, y.sType = m.2
  newest : k.mounts.Pairwise (fun a b => b.2 ≤ a.2)

section inv

variable {owner : Bool} {k k' : Kern} {r : Int}

theorem Kern.inv_init : Kern.init.Inv owner where
  active := by simp [Kern.init]
  pos := by simp [Kern.init]
  unmounted := fun _ => ⟨rfl, rfl⟩
  loaded := by simp [Kern.init]
  registered := by simp [Kern.init]
  refs := by simp [Kern.init]
  orphans := by simp [Kern.init]
  mounts := by simp [Kern.init]
  newest := List.Pairwise.nil

theorem Kern.mountsOf_pos {m : Nat × Nat} (hm : m ∈ k.mounts) : 0 < k.mountsOf m.2 :=
  List.countP_pos_iff.2 ⟨m, hm, by simp⟩

theorem Kern.Inv.le_gen (hI : k.Inv owner) {m : Nat × Nat} (hm : m ∈ k.mounts) : m.2 ≤ k.gen := by
  rcases hI.mounts m hm with h | ⟨y, hy, hty⟩
  · exact Nat.le_of_eq h
  · exact hty ▸ Nat.le_of_lt (hI.orphans y hy).1

theorem Kern.Inv.users_of_not_live (hI : k.Inv owner) (hl : k.live = false) : k.users = 0 := by
  cases hs : k.sb with
  | none => exact (hI.unmounted hs).2
  | some x =>
    rw [(hI.loaded x hs).2] at hl
    cases hl

theorem Kern.Inv.active_of_mount (hI : k.Inv owner) {x : Super} (hx : k.sb = some x) (hA : k.aufsMount = true) :
    x.sActive = 1 + k.users := by
  rw [hI.active x hx, hA, if_pos rfl]

theorem Kern.Inv.active_of_no_mount (hI : k.Inv owner) {x : Super} (hx : k.sb = some x)
    (hA : k.aufsMount = false) : x.sActive = k.users := by
  rw [hI.active x hx, hA, if_neg Bool.false_ne_true, Nat.zero_add]

/-- A mount of load `g` on top of the mounts: the count of load `h` moves by one when `g = h`. -/
theorem countP_cons_mount (l : List (Nat × Nat)) (point g h : Nat) :
    ((point, g) :: l).countP (fun m => m.2 == h) = l.countP (fun m => m.2 == h) + if g = h then 1 else 0 := by
  simp [List.countP_cons]

theorem Kern.Inv.insmod (hI : k.Inv owner) {taken : Bool} {menv : Env} {now : Nat} {env : Nat → Env}
    (h : sysInitModule owner k taken menv now env = some (r, k')) : k'.Inv owner := by
  rcases sysInitModule_cases h with rfl | ⟨hl, m, -, -, ⟨s, -, rfl⟩ | rfl⟩
  · exact hI
  · -- a new superblock, `aufs_mount`'s alone: no mount of user space is of a load not yet made
    have hu := hI.users_of_not_live hl
    refine { hI with
      active := fun x hx => ?_, pos := fun x hx => ?_, unmounted := fun hx => (by cases hx),
      loaded := fun x hx => ?_, registered := fun _ => rfl, refs := by cases owner <;> rfl }
    · obtain rfl := Option.some.inj hx
      show 1 = 1 + k.users
      omega
    · obtain rfl := Option.some.inj hx
      exact Nat.one_pos
    · obtain rfl := Option.some.inj hx
      exact ⟨rfl, rfl⟩
  · exact { hI with
      active := fun x hx => (by cases hx), pos := fun x hx => (by cases hx),
      unmounted := fun _ => ⟨rfl, hI.users_of_not_live hl⟩, loaded := fun x hx => (by cases hx),
      registered := fun _ => rfl, refs := by simp }

theorem Kern.Inv.mount (hI : k.Inv owner) {ok : Bool} {menv : Env} {now point : Nat} {dir : Bool}
    (h : doNewMount owner k ok menv now point dir = some (r, k')) : k'.Inv owner := by
  rcases doNewMount_cases hI.pos h with rfl | ⟨-, hreg, x, k₁, hms, -, rfl⟩
  · exact hI
  have hx : x.sType = k.gen := by
    rcases mountSingle_cases hms with ⟨y, hy, rfl, -⟩ | ⟨-, ⟨s, -, rfl⟩, -⟩
    · exact (hI.loaded y hy).1
    · rfl
  -- what the mount does to the table: one more mount of the loaded superblock, newest
  have hu : ((point, x.sType) :: k.mounts).countP (fun m => m.2 == k.gen) = k.users + 1 := by
    rw [countP_cons_mount, hx, if_pos rfl]
    rfl
  have horph : ∀ y ∈ k.orphans, y.sType < k.gen ∧ 0 < y.sActive ∧
      y.sActive = ((point, x.sType) :: k.mounts).countP (fun m => m.2 == y.sType) := by
    intro y hy
    obtain ⟨h1, h2, h3⟩ := hI.orphans y hy
    rw [countP_cons_mount, hx, if_neg (Nat.ne_of_gt h1)]
    exact ⟨h1, h2, h3⟩
  have hmounts : ∀ m ∈ (point, x.sType) :: k.mounts, m.2 = k.gen ∨ ∃ y ∈ k.orphans, y.sType = m.2 := by
    intro m hm
    rcases List.mem_cons.1 hm with rfl | hm
    · exact .inl hx
    · exact hI.mounts m hm
  have hnewest : ((point, x.sType) :: k.mounts).Pairwise (fun a b => b.2 ≤ a.2) :=
    List.Pairwise.cons (fun m hm => hx ▸ hI.le_gen hm) hI.newest
  rcases mountSingle_cases hms with ⟨y, hy, hxe, rfl⟩ | ⟨hy, ⟨s, -, hxe⟩, rfl⟩
  · -- the superblock there is, with one more mount
    have ha := hI.active y hy
    refine ⟨fun z hz => ?_, fun z hz => ?_, fun hz => (by cases hz), fun z hz => ?_, hI.registered, ?_, horph,
      hmounts, hnewest⟩
    · obtain rfl := Option.some.inj hz
      show x.sActive = (if k.aufsMount then 1 else 0) + ((point, x.sType) :: k.mounts).countP (fun m => m.2 == k.gen)
      rw [hu, hxe]
      dsimp only
      omega
    · obtain rfl := Option.some.inj hz
      rw [hxe]
      exact Nat.succ_pos _
    · obtain rfl := Option.some.inj hz
      exact ⟨hx, (hI.loaded y hy).2⟩
    · simpa [hy] using hI.refs
  · -- a new superblock, which only this mount holds
    obtain ⟨hA, hu₀⟩ := hI.unmounted hy
    have hr₀ : k.modRefs = 0 := by simpa [hy] using hI.refs
    refine ⟨fun z hz => ?_, fun z hz => ?_, fun hz => (by cases hz), fun z hz => ?_, hI.registered, ?_, horph,
      hmounts, hnewest⟩
    · obtain rfl := Option.some.inj hz
      show x.sActive = (if k.aufsMount then 1 else 0) + ((point, x.sType) :: k.mounts).countP (fun m => m.2 == k.gen)
      rw [hu, hxe, hA, hu₀]
      rfl
    · obtain rfl := Option.some.inj hz
      rw [hxe]
      exact Nat.one_pos
    · obtain rfl := Option.some.inj hz
      exact ⟨hx, hI.registered hreg⟩
    · show getFilesystem owner k.modRefs = _
      rw [hr₀]
      cases owner <;> rfl

/-- Taking off the newest mount on `point`, `m`: the count of load `g` moves by that mount alone. -/
theorem countP_eraseP_mount {l : List (Nat × Nat)} {point : Nat} {m : Nat × Nat}
    (hm : l.find? (·.1 == point) = some m) (g : Nat) :
    (l.eraseP (·.1 == point)).countP (fun m => m.2 == g) + (if m.2 = g then 1 else 0) =
      l.countP (fun m => m.2 == g) := by
  simpa using Table.countP_eraseP_of_find? (q := fun m : Nat × Nat => m.2 == g) hm

theorem Kern.Inv.umount (hI : k.Inv owner) {point : Nat} {busy : Bool}
    (h : sysUmount owner k point busy = some (r, k')) : k'.Inv owner := by
  rcases sysUmount_cases h with rfl | ⟨-, m, hm, hput⟩
  · exact hI
  have hcount := countP_eraseP_mount hm
  -- the mounts of every other load keep their count
  have hother : ∀ g, m.2 ≠ g →
      (k.mounts.eraseP (·.1 == point)).countP (fun m => m.2 == g) = k.mountsOf g := by
    intro g hg
    have := hcount g
    rw [if_neg hg] at this
    exact this
  have hmounts : ∀ m' ∈ k.mounts.eraseP (·.1 == point), m' ∈ k.mounts := fun _ => List.mem_of_mem_eraseP
  have hnewest := hI.newest.sublist (List.eraseP_sublist (p := (·.1 == point)))
  rcases putMount_cases hput with ⟨hg, x, hx, rfl⟩ | ⟨hg, y, y', hy, hy', rfl⟩
  · -- a mount of the loaded superblock goes
    have hx : k.sb = some x := hx
    have hg : m.2 = k.gen := hg
    have hu : (k.mounts.eraseP (·.1 == point)).countP (fun m => m.2 == k.gen) + 1 = k.users := by
      have := hcount k.gen
      rwa [if_pos hg] at this
    have horph : ∀ z ∈ k.orphans, z.sType < k.gen ∧ 0 < z.sActive ∧
        z.sActive = (k.mounts.eraseP (·.1 == point)).countP (fun m => m.2 == z.sType) := by
      intro z hz
      obtain ⟨h1, h2, h3⟩ := hI.orphans z hz
      exact ⟨h1, h2, by rw [hother z.sType (by omega), h3]⟩
    have ha := hI.active x hx
    cases hmn : mntput x with
    | some x' =>
      obtain ⟨h1, h2, h3, -⟩ := mntput_eq_some hmn
      rw [Kern.putSb_of_some hmn]
      refine ⟨fun z hz => ?_, fun z hz => ?_, fun hz => (by cases hz), fun z hz => ?_, hI.registered, ?_, horph,
        fun m' hm' => hI.mounts m' (hmounts m' hm'), hnewest⟩
      · obtain rfl := Option.some.inj hz
        show _ = (if k.aufsMount then 1 else 0) + (k.mounts.eraseP (·.1 == point)).countP (fun m => m.2 == k.gen)
        omega
      · obtain rfl := Option.some.inj hz
        exact h2
      · obtain rfl := Option.some.inj hz
        exact h3 ▸ hI.loaded x hx
      · simpa [hx] using hI.refs
    | none =>
      -- the last mount goes, and the superblock with it: it was user space's only mount
      have h1 := mntput_eq_none.1 hmn
      have hA : k.aufsMount = false := by
        cases hA : k.aufsMount
        · rfl
        · rw [hA, if_pos rfl] at ha
          omega
      rw [Kern.putSb_of_none hmn]
      refine ⟨fun z hz => (by cases hz), fun z hz => (by cases hz), fun _ => ⟨hA, ?_⟩, fun z hz => (by cases hz),
        hI.registered, ?_, horph, fun m' hm' => hI.mounts m' (hmounts m' hm'), hnewest⟩
      · show (k.mounts.eraseP (·.1 == point)).countP (fun m => m.2 == k.gen) = 0
        rw [hA, if_neg Bool.false_ne_true] at ha
        omega
      · show putFilesystem owner k.modRefs = _
        rw [hI.refs, hx]
        cases owner <;> rfl
  · -- a mount of a superblock an earlier load left goes
    have hg : m.2 ≠ k.gen := hg
    have hyt : y.sType = m.2 := by simpa using List.find?_some hy
    have hyo : y ∈ k.orphans := List.mem_of_find?_eq_some hy
    obtain ⟨h1, h2, h3, -⟩ := mntput_eq_some hy'
    have hu : (k.mounts.eraseP (·.1 == point)).countP (fun m => m.2 == k.gen) = k.users := hother k.gen hg
    -- an orphan of `m`'s load becomes `y'`, the others stay
    have himage : ∀ z' ∈ k.orphans.map (fun z => if z.sType = m.2 then y' else z),
        ∃ z ∈ k.orphans, z'.sType = z.sType ∧ (z.sType = m.2 ∧ z' = y' ∨ z.sType ≠ m.2 ∧ z' = z) := by
      intro z' hz'
      obtain ⟨z, hz, rfl⟩ := List.mem_map.1 hz'
      by_cases hzt : z.sType = m.2
      · exact ⟨z, hz, by rw [if_pos hzt, h3, hyt, hzt], .inl ⟨hzt, if_pos hzt⟩⟩
      · exact ⟨z, hz, by rw [if_neg hzt], .inr ⟨hzt, if_neg hzt⟩⟩
    refine ⟨fun z hz => ?_, hI.pos, fun hz => ?_, hI.loaded, hI.registered, hI.refs, fun z' hz' => ?_,
      fun m' hm' => ?_, hnewest⟩
    · show z.sActive = (if k.aufsMount then 1 else 0) + (k.mounts.eraseP (·.1 == point)).countP (fun m => m.2 == k.gen)
      rw [hu]
      exact hI.active z hz
    · show k.aufsMount = false ∧ (k.mounts.eraseP (·.1 == point)).countP (fun m => m.2 == k.gen) = 0
      rw [hu]
      exact hI.unmounted hz
    · obtain ⟨z, hz, hzt', ⟨hzt, rfl⟩ | ⟨hzt, rfl⟩⟩ := himage z' hz'
      · obtain ⟨-, -, hya⟩ := hI.orphans y hyo
        have := hcount m.2
        rw [if_pos rfl] at this
        refine ⟨hzt' ▸ (hI.orphans z hz).1, h2, ?_⟩
        show z'.sActive = (k.mounts.eraseP (·.1 == point)).countP (fun m => m.2 == z'.sType)
        rw [h1, hya, h3, hyt]
        exact (Nat.sub_eq_of_eq_add this.symm)
      · obtain ⟨h1', h2', h3'⟩ := hI.orphans z' hz
        exact ⟨h1', h2', h3'.trans (hother z'.sType (Ne.symm hzt)).symm⟩
    · rcases hI.mounts m' (hmounts m' hm') with he | ⟨z, hz, hzt⟩
      · exact .inl he
      · refine .inr ⟨if z.sType = m.2 then y' else z, List.mem_map_of_mem hz, ?_⟩
        split
        · rename_i hzm
          rw [h3, hyt, ← hzm, hzt]
        · exact hzt

/-- What `aufs_exit`'s unmount leaves of the loaded superblock: nothing when user space holds no mount of it, else the
superblock with one active reference for each of user space's mounts. -/
theorem Kern.Inv.aufsExit_sb (hI : k.Inv owner) :
    ((k.aufsExit owner).sb = none ∧ k.users = 0) ∨
      ∃ y, (k.aufsExit owner).sb = some y ∧ y.sType = k.gen ∧ 0 < y.sActive ∧ y.sActive = k.users := by
  show ((k.kernUnmount owner).sb = none ∧ k.users = 0) ∨
    ∃ y, (k.kernUnmount owner).sb = some y ∧ y.sType = k.gen ∧ 0 < y.sActive ∧ y.sActive = k.users
  rcases @Kern.kernUnmount_cases owner k with ⟨hA, x, hx, he⟩ | ⟨hn, he⟩
  · -- `aufs_mount`'s reference goes
    rw [he]
    have ha := hI.active_of_mount hx hA
    cases hmn : mntput x with
    | none =>
      have := mntput_eq_none.1 hmn
      exact .inl ⟨by simp [Kern.putSb, hmn], by omega⟩
    | some x' =>
      obtain ⟨h1, h2, h3, -⟩ := mntput_eq_some hmn
      exact .inr ⟨x', by simp [Kern.putSb, hmn], h3.trans (hI.loaded x hx).1, h2, by omega⟩
  · rw [he]
    cases hx : k.sb with
    | none => exact .inl ⟨rfl, (hI.unmounted hx).2⟩
    | some x =>
      have hA : k.aufsMount = false := by
        rcases hn with hA | hn
        · exact hA
        · rw [hx] at hn
          cases hn
      exact .inr ⟨x, rfl, (hI.loaded x hx).1, hI.pos x hx, hI.active_of_no_mount hx hA⟩

theorem Kern.aufsExit_modRefs (hr : k.modRefs = 0) : (k.aufsExit owner).modRefs = 0 := by
  show (k.kernUnmount owner).modRefs = 0
  rcases @Kern.kernUnmount_cases owner k with ⟨-, x, -, he⟩ | ⟨-, he⟩
  · rw [he]
    simp [Kern.putSb, hr, putFilesystem_zero]
  · rw [he, hr]

theorem Kern.Inv.rmmod (hI : k.Inv owner) (h : sysDeleteModule owner k = some (r, k')) : k'.Inv owner := by
  rcases sysDeleteModule_cases h with rfl | ⟨-, hr, -, rfl⟩
  · exact hI
  have hmk : (k.aufsExit owner).mounts = k.mounts := Kern.kernUnmount_mounts
  have hok : (k.aufsExit owner).orphans = k.orphans := Kern.kernUnmount_orphans
  -- no mount is of the next load
  have hnext : k.mounts.countP (fun m => m.2 == k.gen + 1) = 0 :=
    List.countP_eq_zero.2 (fun m hm he => by have := hI.le_gen hm; simp at he; omega)
  have hrefs : (k.aufsExit owner).modRefs = if owner && (none : Option Super).isSome then 1 else 0 := by
    rw [Kern.aufsExit_modRefs hr]
    simp
  rcases hI.aufsExit_sb with ⟨hsb, hu⟩ | ⟨y, hsb, hyt, hyp, hya⟩
  · -- nothing outlives the module: no mount of user space was of the loaded superblock
    simp only [hsb, hok]
    refine ⟨fun z hz => (by cases hz), fun z hz => (by cases hz), fun _ => ⟨rfl, ?_⟩, fun z hz => (by cases hz),
      fun hz => (by cases hz), hrefs, fun z hz => ?_, fun m hm => ?_, ?_⟩
    · show (k.aufsExit owner).mounts.countP (fun m => m.2 == k.gen + 1) = 0
      rw [hmk, hnext]
    · obtain ⟨h1, h2, h3⟩ := hI.orphans z hz
      exact ⟨by show z.sType < k.gen + 1; omega, h2, by
        show _ = (k.aufsExit owner).mounts.countP (fun m => m.2 == z.sType)
        rw [hmk]
        exact h3⟩
    · rw [show (k.aufsExit owner).mounts = k.mounts from hmk] at hm
      rcases hI.mounts m hm with he | ho
      · have := Kern.mountsOf_pos hm
        rw [he] at this
        exact absurd hu (Nat.ne_of_gt this)
      · exact .inr ho
    · rw [show (k.aufsExit owner).mounts = k.mounts from hmk]
      exact hI.newest
  · -- the superblock outlives the module, with user space's mounts
    simp only [hsb, hok]
    refine ⟨fun z hz => (by cases hz), fun z hz => (by cases hz), fun _ => ⟨rfl, ?_⟩, fun z hz => (by cases hz),
      fun hz => (by cases hz), hrefs, fun z hz => ?_, fun m hm => ?_, ?_⟩
    · show (k.aufsExit owner).mounts.countP (fun m => m.2 == k.gen + 1) = 0
      rw [hmk, hnext]
    · rcases List.mem_cons.1 hz with rfl | hz
      · exact ⟨by show z.sType < k.gen + 1; omega, hyp, by
          show _ = (k.aufsExit owner).mounts.countP (fun m => m.2 == z.sType)
          rw [hmk, hyt]
          exact hya⟩
      · obtain ⟨h1, h2, h3⟩ := hI.orphans z hz
        exact ⟨by show z.sType < k.gen + 1; omega, h2, by
          show _ = (k.aufsExit owner).mounts.countP (fun m => m.2 == z.sType)
          rw [hmk]
          exact h3⟩
    · rw [show (k.aufsExit owner).mounts = k.mounts from hmk] at hm
      rcases hI.mounts m hm with he | ⟨z, hz, hzt⟩
      · exact .inr ⟨y, List.mem_cons_self, by rw [hyt, he]⟩
      · exact .inr ⟨z, List.mem_cons_of_mem _ hz, hzt⟩
    · rw [show (k.aufsExit owner).mounts = k.mounts from hmk]
      exact hI.newest

theorem Kern.Inv.step (hI : k.Inv owner) {a : Admin} (h : k.stepWith owner a = some (r, k')) : k'.Inv owner := by
  cases a with
  | insmod => exact hI.insmod h
  | mount => exact hI.mount h
  | umount => exact hI.umount h
  | rmmod => exact hI.rmmod h

theorem Kern.Inv.run : ∀ {k : Kern} {as : List Admin} {rs : List Int}, k.Inv aufsTypeOwner →
    Kern.run k as = some (rs, k') → k'.Inv aufsTypeOwner
  | _, [], _, hI, h => by
    obtain ⟨-, rfl⟩ := Prod.mk.inj (Option.some.inj h)
    exact hI
  | _, _ :: _, _, hI, h => by
    obtain ⟨_, _, _, -, hst, hrun⟩ := Kern.run_cons_eq_some h
    exact (hI.step hst).run hrun

theorem Kern.reachWith_inv (h : Kern.ReachWith owner k) : k.Inv owner := by
  refine Machine.Reach.induction (fun k₀ h₀ => ?_) (fun _ _ _ hI ⟨_, _, hst⟩ => hI.step hst) h
  subst h₀
  exact Kern.inv_init

theorem Kern.reach_inv (h : Kern.Reach k) : k.Inv aufsTypeOwner := Kern.reachWith_inv h

end inv

/-- **`s_active` counts the mounts**: in every kernel the commands reach, the superblock of the loaded `aufs_type`
exists exactly while `aufs_mount` or a mount of user space holds it, with one active reference for each. -/
theorem mounts_counted {k : Kern} (h : Kern.Reach k) :
    (k.sb.isSome ↔ k.aufsMount = true ∨ 0 < k.users) ∧
      ∀ x, k.sb = some x → x.sActive = (if k.aufsMount then 1 else 0) + k.users := by
  have hI := Kern.reach_inv h
  refine ⟨⟨fun hs => ?_, fun hm => ?_⟩, hI.active⟩
  · -- a superblock is held by some mount, since `s_active` is never 0
    obtain ⟨x, hx⟩ := Option.isSome_iff_exists.1 hs
    cases hA : k.aufsMount
    · have := hI.active_of_no_mount hx hA
      have := hI.pos x hx
      exact .inr (by omega)
    · exact .inl rfl
  · cases hs : k.sb with
    | some x => rfl
    | none =>
      obtain ⟨hA, hu⟩ := hI.unmounted hs
      rcases hm with hm | hm
      · rw [hA] at hm
        cases hm
      · omega

theorem reach_loaded_fresh :
    ∃ s, aufsInit false freshEnv 0 (fun _ => freshEnv) = some (0, ⟨true, some (.ok s)⟩) ∧ s.isDir 0 = true ∧
      Kern.Reach ⟨true, 0, true, true, 0, some ⟨s, 1, 0⟩, [], []⟩ := by
  obtain ⟨s, hs, hr, -, -⟩ := aufsInit_run kernMount_fresh grants_fresh
  have h₁ : Kern.step Kern.init (.insmod false freshEnv 0 (fun _ => freshEnv)) =
      some (0, ⟨true, 0, true, true, 0, some ⟨s, 1, 0⟩, [], []⟩) := by
    simp [Kern.step, Kern.stepWith, sysInitModule, Kern.init, hs, aufsTypeOwner, getFilesystem]
  exact ⟨s, hs, (reachable_wf hr.reachable).1.rootDir, Kern.Reach.init.tail h₁⟩

/-- The ut scripts' `mount -t aufs none /au` after the load, `/au` numbered 0. -/
theorem reach_mounted_fresh :
    ∃ s, aufsInit false freshEnv 0 (fun _ => freshEnv) = some (0, ⟨true, some (.ok s)⟩) ∧
      Kern.Reach ⟨true, 0, true, true, 0, some ⟨dget s 0, 2, 0⟩, [(0, 0)], []⟩ := by
  obtain ⟨s, hs, hd, hr⟩ := reach_loaded_fresh
  have h₂ : Kern.step ⟨true, 0, true, true, 0, some ⟨s, 1, 0⟩, [], []⟩ (.mount true freshEnv 0 0 true) =
      some (0, ⟨true, 0, true, true, 0, some ⟨dget s 0, 2, 0⟩, [(0, 0)], []⟩) := by
    simp only [Kern.step, Kern.stepWith]
    exact doNewMount_grab (k := ⟨true, 0, true, true, 0, some ⟨s, 1, 0⟩, [], []⟩) rfl rfl hd (by simp)
  exact ⟨s, hs, hr.tail h₂⟩

theorem mounts_counted_au :
    ∃ k, Kern.Reach k ∧ 0 < k.users ∧ (k.sb.isSome ↔ k.aufsMount = true ∨ 0 < k.users) ∧
      ∀ x, k.sb = some x → x.sActive = (if k.aufsMount then 1 else 0) + k.users := by
  obtain ⟨s, -, hr⟩ := reach_mounted_fresh
  exact ⟨_, hr, Nat.one_pos, mounts_counted hr⟩

/-! ## While the module is loaded -/

/-- The module is loaded, with `aufs_type` registered and `aufs_mount` a mount of a superblock whose tree is `t` and
whose root is a directory. -/
def Kern.Serves (t : Tree) (k : Kern) : Prop :=
  k.live = true ∧ k.registered = true ∧ k.aufsMount = true ∧
    ∃ x, k.sb = some x ∧ x.vfs.view = t ∧ x.vfs.isDir 0 = true

section serves

variable {owner : Bool} {t : Tree} {k k' : Kern} {r : Int}

/-- **Every command but `rmmod` keeps the module serving its tree**: `aufs_mount` holds the superblock, so no unmount
of user space kills it. -/
theorem Kern.Serves.step (hI : k.Inv owner) (hS : k.Serves t) {a : Admin} (h : k.stepWith owner a = some (r, k'))
    (ha : a ≠ .rmmod) : k'.Serves t := by
  obtain ⟨hl, hreg, hm, x, hx, hv, hd⟩ := hS
  cases a with
  | insmod taken menv now env =>
    rw [Kern.stepWith, sysInitModule_loaded hl] at h
    obtain ⟨-, rfl⟩ := Prod.mk.inj (Option.some.inj h)
    exact ⟨hl, hreg, hm, x, hx, hv, hd⟩
  | mount ok menv now point dir =>
    rcases doNewMount_cases hI.pos h with rfl | ⟨-, -, y, k₁, hms, -, rfl⟩
    · exact ⟨hl, hreg, hm, x, hx, hv, hd⟩
    · rcases mountSingle_cases hms with ⟨x', hx', rfl, rfl⟩ | ⟨hn, -⟩
      · obtain rfl := Option.some.inj (hx.symm.trans hx')
        exact ⟨hl, hreg, hm, _, rfl, by rw [view_dget, hv], by rw [isDir_dget, hd]⟩
      · rw [hx] at hn
        cases hn
  | umount point busy =>
    rcases sysUmount_cases h with rfl | ⟨-, m, hfind, hput⟩
    · exact ⟨hl, hreg, hm, x, hx, hv, hd⟩
    rcases putMount_cases hput with ⟨hg, x', hx', rfl⟩ | ⟨-, -, -, -, -, rfl⟩
    · -- `aufs_mount`'s reference outlives the user's
      obtain rfl := Option.some.inj (hx.symm.trans hx')
      have hu : 0 < k.users := by
        have := Kern.mountsOf_pos (List.mem_of_find?_eq_some hfind)
        rwa [show m.2 = k.gen from hg] at this
      have ha := hI.active_of_mount hx hm
      obtain ⟨x'', hx''⟩ := mntput_of_lt (show 1 < x.sActive by omega)
      obtain ⟨-, -, -, hvfs⟩ := mntput_eq_some hx''
      rw [Kern.putSb_of_some hx'']
      exact ⟨hl, hreg, hm, x'', rfl, by rw [hvfs, view_dput, hv], by rw [hvfs, isDir_dput, hd]⟩
    · exact ⟨hl, hreg, hm, x, hx, hv, hd⟩
  | rmmod => exact absurd rfl ha

/-- Along a run without `rmmod`, the module keeps serving its tree. -/
theorem Kern.Serves.run : ∀ {k : Kern} {as : List Admin} {rs : List Int}, k.Inv aufsTypeOwner → k.Serves t →
    Kern.run k as = some (rs, k') → Admin.rmmod ∉ as → k'.Serves t
  | _, [], _, _, hS, h, _ => by
    obtain ⟨-, rfl⟩ := Prod.mk.inj (Option.some.inj h)
    exact hS
  | _, a :: as, _, hI, hS, h, hr => by
    obtain ⟨_, _, _, -, hst, hrun⟩ := Kern.run_cons_eq_some h
    have ha : a ≠ .rmmod := fun he => hr (he ▸ List.mem_cons_self)
    exact Kern.Serves.run (hI.step hst) (hS.step hI hst ha) hrun (fun hm => hr (List.mem_cons_of_mem _ hm))

end serves

/-- **Mounts from user space show the tree `aufs_init` built**: from every kernel the commands reach without the
module, a load whose `aufs_init` is granted its lookups, then any commands but `rmmod`, leaves the superblock of the
tree `aufs_init` built, with one active reference for `aufs_mount` and one for each mount of user space.  A mount on
a directory no aufs mount covers then returns 0 and shows that tree, one more mount of user space; a second mount
on the same point gets `EBUSY` and changes nothing. -/
theorem user_mounts_share {k k' : Kern} {menv : Env} {now : Nat} {s₀ : Vfs} {env : Nat → Env} {as : List Admin}
    {rs : List Int} (hk : Kern.Reach k) (hl : k.live = false) (hm : kernMount menv now = .ok s₀) (hg : Grants env)
    (h : Kern.run k (.insmod false menv now env :: as) = some (rs, k')) (hr : Admin.rmmod ∉ as) :
    ∃ s, aufsInit false menv now env = some (0, ⟨true, some (.ok s)⟩) ∧
      ∃ x, k'.sb = some x ∧ x.vfs.view = s.view ∧ x.sActive = 1 + k'.users ∧
        ∀ menv' now' point, (∀ m ∈ k'.mounts, m.1 ≠ point) →
          ∃ k'', Kern.step k' (.mount true menv' now' point true) = some (0, k'') ∧
            (∃ x', k''.sb = some x' ∧ x'.vfs.view = s.view) ∧ k''.users = k'.users + 1 ∧
            Kern.step k'' (.mount true menv' now' point true) = some (-EBUSY, k'') := by
  obtain ⟨s, hs, hreach, -, -⟩ := aufsInit_run hm hg
  refine ⟨s, hs, ?_⟩
  obtain ⟨r, rs', k₁, -, hst, hrun⟩ := Kern.run_cons_eq_some h
  -- the load: `aufs_init` returns 0 with `aufs_type` registered and mounted
  have hst' : Kern.step k (.insmod false menv now env) = some (0, { k with
      live := true, registered := true, aufsMount := true, modRefs := getFilesystem aufsTypeOwner 0,
      sb := some ⟨s, 1, k.gen⟩ }) := by
    simp [Kern.step, Kern.stepWith, sysInitModule, hl, hs]
  rw [hst'] at hst
  obtain ⟨-, rfl⟩ := Prod.mk.inj (Option.some.inj hst)
  have hI₁ := (Kern.reach_inv hk).step hst'
  have hS₁ : Kern.Serves s.view { k with
      live := true, registered := true, aufsMount := true, modRefs := getFilesystem aufsTypeOwner 0,
      sb := some ⟨s, 1, k.gen⟩ } :=
    ⟨rfl, rfl, rfl, _, rfl, rfl, (reachable_wf hreach.reachable).1.rootDir⟩
  have hI' := hI₁.run hrun
  obtain ⟨-, hreg, hA, x, hx, hv, hd⟩ := hS₁.run hI₁ hrun hr
  refine ⟨x, hx, hv, hI'.active_of_mount hx hA, fun menv' now' point hp => ?_⟩
  -- the mount on a new point grabs the superblock; the newest mount on the point is then of it
  have hgrab : Kern.step k' (.mount true menv' now' point true) = some (0, { k' with
      sb := some ⟨dget x.vfs 0, x.sActive + 1, x.sType⟩, mounts := (point, x.sType) :: k'.mounts }) :=
    doNewMount_grab hreg hx hd hp
  have htop : ((point, x.sType) :: k'.mounts).find? (·.1 == point) = some (point, x.sType) :=
    List.find?_cons_of_pos (by simp)
  have hbusy : Kern.step { k' with
      sb := some ⟨dget x.vfs 0, x.sActive + 1, x.sType⟩, mounts := (point, x.sType) :: k'.mounts }
      (.mount true menv' now' point true) = some (-EBUSY, { k' with
        sb := some ⟨dget x.vfs 0, x.sActive + 1, x.sType⟩, mounts := (point, x.sType) :: k'.mounts }) := by
    simp only [Kern.step, Kern.stepWith]
    apply doNewMount_busy (m := (point, x.sType))
    case hreg => exact hreg
    case hx => rfl
    case hp => exact Nat.succ_pos _
    case htop => exact htop
    case hm => rfl
  refine ⟨_, hgrab, ⟨_, rfl, by rw [view_dget, hv]⟩, ?_, hbusy⟩
  show ((point, x.sType) :: k'.mounts).countP (fun m => m.2 == k'.gen) = k'.users + 1
  rw [countP_cons_mount, (hI'.loaded x hx).1, if_pos rfl]
  rfl

theorem user_mounts_share_au :
    ∃ rs k', Kern.run Kern.init [.insmod false freshEnv 0 (fun _ => freshEnv)] = some (rs, k') ∧
      ∃ s, aufsInit false freshEnv 0 (fun _ => freshEnv) = some (0, ⟨true, some (.ok s)⟩) ∧
        ∃ x, k'.sb = some x ∧ x.vfs.view = s.view ∧ x.sActive = 1 + k'.users ∧
          ∀ menv' now' point, (∀ m ∈ k'.mounts, m.1 ≠ point) →
            ∃ k'', Kern.step k' (.mount true menv' now' point true) = some (0, k'') ∧
              (∃ x', k''.sb = some x' ∧ x'.vfs.view = s.view) ∧ k''.users = k'.users + 1 ∧
              Kern.step k'' (.mount true menv' now' point true) = some (-EBUSY, k'') := by
  obtain ⟨s, hs, -, -⟩ := reach_loaded_fresh
  have h : Kern.run Kern.init [.insmod false freshEnv 0 (fun _ => freshEnv)] =
      some ([0], ⟨true, 0, true, true, 0, some ⟨s, 1, 0⟩, [], []⟩) := by
    simp [Kern.run, Kern.step, Kern.stepWith, sysInitModule, Kern.init, hs, aufsTypeOwner, getFilesystem]
  exact ⟨_, _, h, user_mounts_share Kern.Reach.init rfl kernMount_fresh grants_fresh h List.not_mem_nil⟩

section unload

variable {owner : Bool} {k : Kern}

/-- **`Kern.aufsExit` is `aufsExit`**: it leaves what `aufsExit` leaves, and its `kern_unmount` shuts the superblock
down, the `kill_litter_super` `aufsExit` runs, exactly when user space holds no mount of it. -/
theorem Kern.aufsExit_loaded (hI : k.Inv owner) :
    (k.aufsExit owner).loaded = (Aufs.aufsExit k.loaded).1 ∧ ((k.aufsExit owner).sb = none ↔ k.users = 0) := by
  refine ⟨rfl, ?_⟩
  rcases hI.aufsExit_sb with ⟨hsb, hu⟩ | ⟨y, hsb, -, hyp, hya⟩
  · exact ⟨fun _ => hu, fun _ => hsb⟩
  · rw [hsb]
    exact ⟨fun h => (by cases h), fun hu => (by omega)⟩

/-- **An owner would pin the module**: were the module `aufs_type`'s owner, the reference `sget` takes on it would
hold while a superblock lives, and `rmmod` would get `EWOULDBLOCK` — among them the one `aufs_mount` holds until
`aufs_exit`. -/
theorem owner_pins_module (hk : Kern.ReachWith true k) (hs : k.sb.isSome = true) :
    k.stepWith true .rmmod = some (-EWOULDBLOCK, k) := by
  have hI := Kern.reachWith_inv hk
  obtain ⟨x, hx⟩ := Option.isSome_iff_exists.1 hs
  have hl := (hI.loaded x hx).2
  have hr : k.modRefs = 1 := by simpa [hx] using hI.refs
  simp [Kern.stepWith, sysDeleteModule, hl, hr]

end unload

end Aufs
