import Aufs.Tree
/-!
# Refs — the dentry reference counts aufs leaves

`aufs_create_by_name` keeps the reference `lookup_one_len` returns its dentry with, and never drops it; on success
`aufs_mknod` takes one more with `dget`.  So a dentry the module created holds two references besides one per child
(`refcount_leak`), each `EEXIST` call on it adds one more (`Call.run_taken_refs`), and in every reachable VFS every
dentry below the root holds at least one more than the pin `d_genocide` drops at unmount (`RefInv`), so that none of
them can be freed (`unmount_busy`).
-/
namespace Aufs

/-- The hashed children of the dentry at `d`, each of which holds a reference on it (`d_alloc`). -/
def Vfs.children (s : Vfs) (d : Nat) : Nat := s.dentries.countP (fun e => e.dHashed && e.dParent == d)

/-- The balance the reference counts should keep: a dentry below the root holds one reference if it is positive and
none if it is negative, and one per child. -/
def Balanced (s : Vfs) : Prop :=
  ∀ d e, d ≠ 0 → s.dentries[d]? = some e → e.dCount = (if e.dInode.isSome then 1 else 0) + s.children d

/-- **What every reachable VFS has instead**: a dentry below the root holds at least two references if it is
positive and one if it is negative, besides one per child. -/
def RefInv (s : Vfs) : Prop :=
  ∀ d e, d ≠ 0 → s.dentries[d]? = some e → (if e.dInode.isSome then 2 else 1) + s.children d ≤ e.dCount

/-! ## The children under each change a call makes -/

section children

variable {s : Vfs} {f : Dentry → Dentry} {d q : Nat}

theorem children_countOnly (hf : CountOnly f) :
    ({ s with dentries := s.dentries.modify d f } : Vfs).children q = s.children q :=
  Table.countP_modify (fun e => by rw [hf.hashed, hf.parent]) _ _

theorem children_addNegative (name : String) (p k : Nat) :
    ({ s with dentries := s.dentries ++ [⟨name, p, none, k, true⟩] } : Vfs).children q =
      s.children q + if p = q then 1 else 0 := by
  simp only [Vfs.children, List.countP_append, List.countP_singleton, Bool.true_and, beq_iff_eq]

theorem Wf.children_end (hW : Wf s) : s.children s.dentries.length = 0 := by
  unfold Vfs.children
  rw [List.countP_eq_zero]
  intro y hy
  obtain ⟨k, hk⟩ := List.mem_iff_getElem?.1 hy
  have hkl : k < s.dentries.length := (List.getElem?_eq_some_iff.1 hk).1
  have hpl : y.dParent < s.dentries.length := by
    by_cases h0 : k = 0
    · subst h0
      obtain ⟨r, hr, h₁, -⟩ := hW.root
      rw [hk, Option.some.injEq] at hr
      subst hr
      omega
    · exact Nat.lt_trans (hW.parentLt k y hk h0) hkl
  simp only [Bool.and_eq_true, beq_iff_eq, not_and]
  intro _ hp
  omega

theorem children_created {env : Env} {o : Inode} {mode : Nat} {data : Option Nat} {fops : Option Fops} {pi c : Nat} :
    (createdVfs env o mode data fops pi c s).children q = s.children q := by
  simp only [Vfs.children, createdVfs]
  apply Table.countP_modify
  intro x
  rfl

end children

/-! ## The invariant, one change at a time -/

section inv

variable {s : Vfs} {d : Nat}

theorem getElem?_incCount {l : List Dentry} {k : Nat} {x : Dentry} (h : (l.modify d incCount)[k]? = some x) :
    ∃ e, l[k]? = some e ∧ x = if d = k then incCount e else e := by
  rw [List.getElem?_modify] at h
  cases he : l[k]? with
  | none => simp [he] at h
  | some e =>
    simp only [he, Option.map_eq_map, Option.map_some, Option.some.injEq] at h
    exact ⟨e, rfl, h.symm⟩

/-- **`dget` keeps the invariant**: a count only grows. -/
theorem RefInv.dget (hR : RefInv s) : RefInv (dget s d) := by
  intro k x hk hx
  obtain ⟨e, he, rfl⟩ := getElem?_incCount hx
  have h := hR k e hk he
  have hch : (Aufs.dget s d).children k = s.children k := children_countOnly countOnly_incCount
  rw [hch]
  by_cases hdk : d = k
  · simp only [hdk, if_true, incCount]
    omega
  · simp only [hdk, if_false]
    exact h

/-- **A new negative child keeps the invariant**: its parent's `d_alloc` reference pays for it, and it holds the one
it was made with. -/
theorem RefInv.addChild (hW : Wf s) (hR : RefInv s) {p : Nat} (hp : p < s.dentries.length) {name : String} :
    RefInv ⟨s.dentries.modify p incCount ++ [⟨name, p, none, 1, true⟩], s.inodes, s.sRoot⟩ := by
  have hR₀ : RefInv { s with dentries := s.dentries.modify p incCount } := hR.dget
  have hlen : (s.dentries.modify p incCount).length = s.dentries.length := List.length_modify _ _ _
  intro k x hk hx
  have hch : (⟨s.dentries.modify p incCount ++ [⟨name, p, none, 1, true⟩], s.inodes, s.sRoot⟩ : Vfs).children k =
      s.children k + if p = k then 1 else 0 := by
    have h₁ := children_addNegative (s := { s with dentries := s.dentries.modify p incCount }) (q := k) name p 1
    rw [children_countOnly countOnly_incCount] at h₁
    exact h₁
  rw [hch]
  rcases Table.getElem?_append_singleton_eq_some hx with hx | ⟨rfl, rfl⟩
  · -- a dentry from before: the parent `p` has one more child and one more reference
    obtain ⟨e, he, rfl⟩ := getElem?_incCount hx
    have h := hR k e hk he
    by_cases hpk : p = k
    · simp only [hpk, if_true, incCount]
      omega
    · simp only [hpk, if_false]
      omega
  · -- the new child: one reference, no child yet
    rw [hlen, hW.children_end, if_neg (Nat.ne_of_lt hp)]
    simp

/-- **A creation keeps the invariant**: the dentry it binds gets `aufs_mknod`'s reference with its inode. -/
theorem RefInv.created (hR : RefInv s) {env : Env} {o : Inode} {mode : Nat} {data : Option Nat}
    {fops : Option Fops} {pi c : Nat} {e : Dentry} (hc : s.dentries[c]? = some e) (he : e.dInode = none) :
    RefInv (createdVfs env o mode data fops pi c s) := by
  intro k x hk hx
  rw [children_created]
  rcases created_dentry_eq_some hc hx with ⟨rfl, rfl⟩ | ⟨-, hx⟩
  · have h := hR k e hk hc
    simp only [he, Option.isSome_none, Bool.false_eq_true, if_false] at h
    simp only [Option.isSome_some, if_true]
    omega
  · exact hR k x hk hx

theorem RefInv.lookup (hW : Wf s) (hR : RefInv s) {env : Env} {name : String} {p : Nat} {s₁ : Vfs}
    (hp : s.isDir p = true) (hl : lookupOneLen env name p s = some (.obj d, s₁)) : RefInv s₁ := by
  obtain ⟨-, -, -, -, ⟨-, rfl⟩ | ⟨-, -, -, -, -, rfl⟩⟩ := lookupOneLen_obj hl
  · exact hR.dget
  · exact hR.addChild hW (Vfs.dentry_lt_of_isDir hp)

end inv

/-- **One call keeps the invariant.** -/
theorem RefInv.step {s s' : Vfs} (hW : Wf s) (hL : Links s) (hR : RefInv s) (h : Step s s') : RefInv s' := by
  obtain ⟨env, c, r, hc, hrun⟩ := h
  obtain ⟨p, d, s₁, e, pe, pi, -, hp, hl, -, -, he, -, -, -, ⟨-, rfl⟩ | ⟨o, -, -, hi, rfl⟩⟩ :=
    Call.run_cases hW hL hc hrun
  · exact hR.lookup hW hp hl
  · exact (hR.lookup hW hp hl).created he hi

theorem reachable_refInv {s : Vfs} (h : Reachable s) : RefInv s := by
  refine Machine.Reach.induction (P := RefInv) (fun s₀ h₀ => ?_)
    (fun s s' hr ih hs => ih.step (reachable_wf hr).1 (reachable_wf hr).2 hs) h
  obtain ⟨env, now, hm⟩ := h₀
  obtain ⟨o, rfl⟩ := aufsGetSb_ok hm
  intro d e hd he
  exact absurd (rootVfs_dentry he).1 hd

/-! ## What the counts come to -/

/-- **One directory made under the root holds two references, and making it again adds a third.** -/
theorem refcount_leak :
    ∃ s₁ s₂, runCalls [(freshEnv, Call.dir "a" .null)] (rootVfs freshInode 0) = some s₁ ∧
      runCalls [(freshEnv, Call.dir "a" .null)] s₁ = some s₂ ∧ Reachable s₂ ∧
      (s₁.dentries[1]?).map (·.dCount) = some 2 ∧ (s₂.dentries[1]?).map (·.dCount) = some 3 ∧ ¬ Balanced s₁ := by
  have h₁ : Reachable _ := Reachable.runCalls [(freshEnv, Call.dir "a" .null)] reachable_fresh (by decide) rfl
  refine ⟨_, _, rfl, rfl, Reachable.runCalls [(freshEnv, Call.dir "a" .null)] h₁ (by decide) rfl, rfl, rfl,
    fun h => ?_⟩
  have h1 := h 1 _ Nat.one_ne_zero rfl
  exact absurd h1 (by decide)

/-- **A call whose name is taken takes a reference on the dentry there, and never drops it.** -/
theorem Call.run_taken_refs {s : Vfs} {env : Env} {c : Call} {p : Nat} (hW : Wf s) (hL : Links s)
    (hc : CallOk s env c) (hp : parentOf s c.parent = some p) (ht : s.view (p, c.name) ≠ none) :
    ∃ d, dLookup s p c.name = some d ∧ c.run env s = some (.null, dget s d) := by
  obtain ⟨p', d, s₁, e, pe, pi, hpp, hl, -, -, he, -, -, -, -, -, hrun⟩ := Call.run_of_ok hW hL hc
  obtain rfl : p = p' := Option.some.inj (hp.symm.trans hpp)
  obtain ⟨-, -, -, -, ⟨hd, rfl⟩ | ⟨hn, -, -, -, rfl, rfl⟩⟩ := lookupOneLen_obj hl
  · -- the name is cached: its dentry is positive, so the call ends in `EEXIST`
    have hpos : e.dInode.isSome = true := by
      obtain ⟨e₀, he₀, -, -, -⟩ := dLookup_some hd
      obtain ⟨e', he', -, -, hi, -⟩ := countOnly_incCount.getElem?_of_eq_some (d := d) he₀
      rw [← dget_dentries, he, Option.some.injEq] at he'
      subst he'
      rw [hi]
      cases hi₀ : e₀.dInode with
      | some _ => rfl
      | none => exact absurd (by simp [Vfs.view, hd, Vfs.node_negative he₀ hi₀]) ht
    exact ⟨d, hd, by rw [hrun, if_pos hpos]⟩
  · exact absurd (by simp [Vfs.view, hn]) ht

theorem run_taken_refs_again :
    ∃ s d, runCalls [(freshEnv, Call.dir "a" .null)] (rootVfs freshInode 0) = some s ∧ dLookup s 0 "a" = some d ∧
      (Call.dir "a" .null).run freshEnv s = some (.null, dget s d) := by
  have h : Reachable _ := Reachable.runCalls [(freshEnv, Call.dir "a" .null)] reachable_fresh (by decide) rfl
  obtain ⟨d, hd, hr⟩ := Call.run_taken_refs (reachable_wf h).1 (reachable_wf h).2
    (by decide : CallOk _ freshEnv (Call.dir "a" .null)) (p := 0) rfl (by decide)
  exact ⟨_, d, rfl, hd, hr⟩

/-- `d_genocide(root)`, as `kill_litter_super` runs it at unmount: every positive dentry loses the pin its creation
left. -/
def dGenocide (s : Vfs) : Vfs :=
  { s with dentries := s.dentries.map (fun e => if e.dInode.isSome then { e with dCount := e.dCount - 1 } else e) }

/-- **After `d_genocide`, every dentry below the root is still referenced**, so none of them can be freed. -/
theorem unmount_busy {s : Vfs} (h : Reachable s) :
    ∀ d e, d ≠ 0 → (dGenocide s).dentries[d]? = some e → 0 < e.dCount := by
  intro d e hd he
  simp only [dGenocide, List.getElem?_map] at he
  cases he₀ : s.dentries[d]? with
  | none => rw [he₀] at he; cases he
  | some e₀ =>
    rw [he₀, Option.map_some, Option.some.injEq] at he
    subst he
    have hr := reachable_refInv h d e₀ hd he₀
    split
    · rename_i hpos
      rw [if_pos hpos] at hr
      simp only
      omega
    · rename_i hneg
      rw [if_neg hneg] at hr
      omega

end Aufs
