import Aufs.Kernel
/-!
# Perm — who may search, read and write an aufs inode

What the modes `aufs_init` gives its files decide is read through the checks of the vendored `fs/namei.c`:
`generic_permission`, which `permission` calls for every aufs inode (none has an `i_op->permission` of its own), and
`exec_permission_lite`, the fast search check the path walk makes first.  Both start from the same class bits of the
mode (`dacMode`) and let `CAP_DAC_OVERRIDE` and `CAP_DAC_READ_SEARCH` through where the bits refuse.

The fast check is the plain one for every inode and every task (`execPermissionLite_eq`).  A write needs a write bit
of the task's class or `CAP_DAC_OVERRIDE` (`Cred.dacOverride_of_permission_write`); a search of a directory whose
group and other search bits are clear needs, from anyone but its owner, one of the two capabilities
(`execPermissionLite_eq_zero_iff`).

The superblock aufs is mounted with is never read-only, no aufs inode is immutable and no security module is
modelled, so the checks `permission` makes before and after `generic_permission` pass.
-/
namespace Aufs

def MAY_EXEC : Nat := 1
def MAY_WRITE : Nat := 2
def MAY_READ : Nat := 4
def MAY_APPEND : Nat := 8

def S_IFLNK : Nat := 0o120000
def S_IXUGO : Nat := 0o111

/-- The calling task as the checks read it: `current->fsuid` and `current->fsgid`, the supplementary groups
`groups_search` looks in, and whether `capable` grants `CAP_DAC_OVERRIDE`, `CAP_DAC_READ_SEARCH` and `CAP_FOWNER`. -/
structure Cred where
  fsuid : Nat
  fsgid : Nat
  groups : List Nat
  capDacOverride : Bool
  capDacReadSearch : Bool
  capFowner : Bool
  deriving DecidableEq, Repr

/-- `in_group_p(grp)`. -/
def Cred.inGroupP (cred : Cred) (grp : Nat) : Bool := grp == cred.fsgid || cred.groups.contains grp

/-- The mode bits of the task's class, in the low three bits: the owner's for the owner, else the group's for a
member of the inode's group, else the others'. -/
def dacMode (cred : Cred) (inode : Inode) : Nat :=
  if cred.fsuid = inode.iUid then inode.iMode >>> 6
  else if cred.inGroupP inode.iGid then inode.iMode >>> 3
  else inode.iMode

/-- **`generic_permission(inode, mask, NULL)`**: 0 when the class bits grant all of `mask`; else
`CAP_DAC_OVERRIDE` grants reads and writes, and a search where some search bit is set or of a directory;
`CAP_DAC_READ_SEARCH` grants a read, or a search of a directory; `EACCES` otherwise.  The ACL branch needs a
`check_acl`, and `permission` passes none. -/
def genericPermission (cred : Cred) (inode : Inode) (mask : Nat) : Int :=
  if dacMode cred inode &&& mask &&& (MAY_READ ||| MAY_WRITE ||| MAY_EXEC) = mask then 0
  else if (mask &&& MAY_EXEC = 0 ∨ inode.iMode &&& S_IXUGO ≠ 0 ∨ inode.iMode &&& S_IFMT = S_IFDIR) ∧
      cred.capDacOverride then 0
  else if (mask = MAY_READ ∨ (inode.iMode &&& S_IFMT = S_IFDIR ∧ mask &&& MAY_WRITE = 0)) ∧ cred.capDacReadSearch
  then 0
  else -EACCES

/-- **`permission(inode, mask, nd)`** on an aufs inode: `generic_permission` of the mask without `MAY_APPEND`
(`mask & ~MAY_APPEND`). -/
def permission (cred : Cred) (inode : Inode) (mask : Nat) : Int :=
  genericPermission cred inode (mask ^^^ (mask &&& MAY_APPEND))

/-- **`exec_permission_lite(inode, nd)`**, the walk's search check: the class's search bit, else
`CAP_DAC_OVERRIDE` where some search bit is set, else for a directory `CAP_DAC_OVERRIDE` or `CAP_DAC_READ_SEARCH`. -/
def execPermissionLite (cred : Cred) (inode : Inode) : Int :=
  if dacMode cred inode &&& MAY_EXEC ≠ 0 then 0
  else if inode.iMode &&& S_IXUGO ≠ 0 ∧ cred.capDacOverride then 0
  else if inode.iMode &&& S_IFMT = S_IFDIR ∧ cred.capDacOverride then 0
  else if inode.iMode &&& S_IFMT = S_IFDIR ∧ cred.capDacReadSearch then 0
  else -EACCES

section bits

theorem testBit_of_and_eq_zero {a b i : Nat} (h : a &&& b = 0) (hb : b.testBit i = true) : a.testBit i = false := by
  have := congrArg (Nat.testBit · i) h
  simp only [Nat.testBit_and, Nat.zero_testBit, hb, Bool.and_true] at this
  exact this

theorem testBit_of_and_eq {a b i : Nat} (h : a &&& b = b) (hb : b.testBit i = true) : a.testBit i = true := by
  have := congrArg (Nat.testBit · i) h
  simp only [Nat.testBit_and, hb, Bool.and_true] at this
  exact this

theorem and_bit_eq_zero_iff {x k : Nat} : x &&& 1 <<< k = 0 ↔ x.testBit k = false := by
  rw [Nat.one_shiftLeft]
  constructor
  · intro h
    exact testBit_of_and_eq_zero h Nat.testBit_two_pow_self
  · intro h
    apply Nat.eq_of_testBit_eq
    intro i
    by_cases hi : k = i
    · subst hi
      simp [Nat.testBit_and, h]
    · simp [Nat.testBit_and, Nat.testBit_two_pow_of_ne hi]

theorem and_bit_eq_bit {x k : Nat} (h : x.testBit k = true) : x &&& 1 <<< k = 1 <<< k := by
  apply Nat.eq_of_testBit_eq
  intro i
  rw [Nat.one_shiftLeft, Nat.testBit_and]
  by_cases hi : k = i
  · subst hi
    simp [h]
  · simp [Nat.testBit_two_pow_of_ne hi]

end bits

section perm

variable {cred : Cred} {inode : Inode}

theorem permission_of_no_append {mask : Nat} (h : mask &&& MAY_APPEND = 0) :
    permission cred inode mask = genericPermission cred inode mask := by
  rw [permission, h, Nat.xor_zero]

/-- **The walk's fast check is `permission(inode, MAY_EXEC)`**, for every inode and every task: the two grant a
search in the same cases. -/
theorem execPermissionLite_eq : execPermissionLite cred inode = permission cred inode MAY_EXEC := by
  rw [permission_of_no_append (by decide)]
  unfold execPermissionLite genericPermission
  -- `mode & MAY_EXEC & 7 == MAY_EXEC` is the search bit, and `MAY_EXEC` is neither a read nor a write
  have hbit : (dacMode cred inode &&& MAY_EXEC &&& (MAY_READ ||| MAY_WRITE ||| MAY_EXEC) = MAY_EXEC) ↔
      dacMode cred inode &&& MAY_EXEC ≠ 0 := by
    have h1 : dacMode cred inode &&& MAY_EXEC &&& (MAY_READ ||| MAY_WRITE ||| MAY_EXEC) =
        dacMode cred inode &&& MAY_EXEC := by
      rw [Nat.and_assoc]
      rfl
    rw [h1]
    have h2 : dacMode cred inode &&& MAY_EXEC < 2 := Nat.lt_of_le_of_lt Nat.and_le_right (by decide)
    unfold MAY_EXEC at h2 ⊢
    omega
  have hx : ¬ MAY_EXEC &&& MAY_EXEC = 0 := by decide
  have hr : ¬ MAY_EXEC = MAY_READ := by decide
  have hw : MAY_EXEC &&& MAY_WRITE = 0 := by decide
  simp only [hbit, hx, hr, hw, false_or, and_true]
  by_cases hd : inode.iMode &&& S_IFMT = S_IFDIR <;>
    cases cred.capDacOverride <;> cases cred.capDacReadSearch <;> simp [hd]

theorem execPermissionLite_ne_zero (h : execPermissionLite cred inode ≠ 0) : execPermissionLite cred inode = -EACCES := by
  unfold execPermissionLite at h ⊢
  split_ifs at h ⊢ <;> simp_all

/-- **Anyone may search an inode with every search bit set**, whatever its class. -/
theorem execPermissionLite_of_searchable (h : inode.iMode &&& S_IXUGO = S_IXUGO) : execPermissionLite cred inode = 0 := by
  have hx : dacMode cred inode &&& MAY_EXEC ≠ 0 := by
    rw [show MAY_EXEC = 1 <<< 0 from rfl, Ne, and_bit_eq_zero_iff]
    unfold dacMode
    split
    · simp [testBit_of_and_eq h (show S_IXUGO.testBit 6 = true by decide)]
    · split
      · simp [testBit_of_and_eq h (show S_IXUGO.testBit 3 = true by decide)]
      · simp [testBit_of_and_eq h (show S_IXUGO.testBit 0 = true by decide)]
  simp [execPermissionLite, hx]

theorem dacMode_write (h : inode.iMode &&& 0o222 = 0) : (dacMode cred inode).testBit 1 = false := by
  unfold dacMode
  split
  · rw [Nat.testBit_shiftRight]
    exact testBit_of_and_eq_zero h (by decide)
  · split
    · rw [Nat.testBit_shiftRight]
      exact testBit_of_and_eq_zero h (by decide)
    · exact testBit_of_and_eq_zero h (by decide)

theorem dacMode_read (h : inode.iMode &&& 0o444 = 0o444) : (dacMode cred inode).testBit 2 = true := by
  unfold dacMode
  split
  · rw [Nat.testBit_shiftRight]
    exact testBit_of_and_eq h (by decide)
  · split
    · rw [Nat.testBit_shiftRight]
      exact testBit_of_and_eq h (by decide)
    · exact testBit_of_and_eq h (by decide)

/-- **Anyone may read an inode with every read bit set.** -/
theorem permission_read (h : inode.iMode &&& 0o444 = 0o444) : permission cred inode MAY_READ = 0 := by
  rw [permission_of_no_append (by decide)]
  have hr : dacMode cred inode &&& MAY_READ = MAY_READ := and_bit_eq_bit (k := 2) (dacMode_read h)
  have hm : MAY_READ &&& (MAY_READ ||| MAY_WRITE ||| MAY_EXEC) = MAY_READ := by decide
  simp [genericPermission, hr, hm]

theorem execPermissionLite_dir_override (hd : inode.iMode &&& S_IFMT = S_IFDIR) (ho : cred.capDacOverride = true) :
    execPermissionLite cred inode = 0 := by
  simp [execPermissionLite, hd, ho]

/-- **The owner may search an inode with the owner's search bit.** -/
theorem execPermissionLite_owner (hu : cred.fsuid = inode.iUid) (h : inode.iMode &&& 0o100 = 0o100) :
    execPermissionLite cred inode = 0 := by
  have hx : dacMode cred inode &&& MAY_EXEC ≠ 0 := by
    rw [show MAY_EXEC = 1 <<< 0 from rfl, Ne, and_bit_eq_zero_iff]
    simp [dacMode, hu, testBit_of_and_eq h (show (0o100 : Nat).testBit 6 = true by decide)]
  simp [execPermissionLite, hx]

/-- **A write needs a write bit or `CAP_DAC_OVERRIDE`**: on an inode whose mode has no write bit, a check that asks
for a write grants it only to a task with `CAP_DAC_OVERRIDE`. -/
theorem Cred.dacOverride_of_permission_write {mask : Nat} (h : inode.iMode &&& 0o222 = 0)
    (hm : mask &&& MAY_WRITE ≠ 0) (hp : permission cred inode mask = 0) : cred.capDacOverride = true := by
  have hm1 : mask.testBit 1 = true := by
    have : ¬ mask &&& 1 <<< 1 = 0 := hm
    rw [and_bit_eq_zero_iff] at this
    simpa using this
  unfold permission genericPermission at hp
  set m := mask ^^^ (mask &&& MAY_APPEND) with hm'
  -- clearing `MAY_APPEND` keeps the write bit
  have hmw : m.testBit 1 = true := by
    have h8 : MAY_APPEND.testBit 1 = false := by decide
    simp [hm', Nat.testBit_xor, Nat.testBit_and, hm1, h8]
  -- the class bits lack the write bit the mask asks for
  have h1 : ¬ dacMode cred inode &&& m &&& (MAY_READ ||| MAY_WRITE ||| MAY_EXEC) = m := by
    intro he
    have := congrArg (Nat.testBit · 1) he
    have h7 : (MAY_READ ||| MAY_WRITE ||| MAY_EXEC).testBit 1 = true := by decide
    simp [Nat.testBit_and, dacMode_write h, hmw] at this
  have h2 : ¬ (m = MAY_READ ∨ (inode.iMode &&& S_IFMT = S_IFDIR ∧ m &&& MAY_WRITE = 0)) := by
    have hmw' : m &&& 1 <<< 1 ≠ 0 := by
      rw [Ne, and_bit_eq_zero_iff, hmw]
      decide
    rintro (he | ⟨-, he⟩)
    · rw [he] at hmw
      exact absurd hmw (by decide)
    · exact hmw' he
  by_contra hc
  simp only [h1, hc, h2, if_false, and_false, false_and] at hp
  exact absurd hp (by decide)

/-- **A search of a directory whose group and other search bits are clear**, by anyone but its owner: granted
exactly to a task with `CAP_DAC_OVERRIDE` or `CAP_DAC_READ_SEARCH`. -/
theorem execPermissionLite_eq_zero_iff (hd : inode.iMode &&& S_IFMT = S_IFDIR) (hx : inode.iMode &&& 0o011 = 0)
    (hu : cred.fsuid ≠ inode.iUid) :
    execPermissionLite cred inode = 0 ↔ cred.capDacOverride = true ∨ cred.capDacReadSearch = true := by
  -- the class bits are the group's or the others', neither of which may search
  have hc : dacMode cred inode &&& MAY_EXEC = 0 := by
    rw [show MAY_EXEC = 1 <<< 0 from rfl, and_bit_eq_zero_iff]
    unfold dacMode
    rw [if_neg hu]
    split
    · rw [Nat.testBit_shiftRight]
      exact testBit_of_and_eq_zero hx (by decide)
    · exact testBit_of_and_eq_zero hx (by decide)
  unfold execPermissionLite
  cases cred.capDacOverride <;> cases cred.capDacReadSearch <;> simp [hc, hd, EACCES]

end perm

end Aufs
