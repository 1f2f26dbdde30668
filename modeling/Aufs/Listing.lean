import Aufs.Init
/-!
# Listing — what `readdir` shows of an aufs directory

aufs gives its directories `simple_dir_operations`, whose `iterate` is `dcache_readdir`: `.` and `..`, then each
child `simple_positive` accepts, hashed and with an inode.  A lookup makes a new dentry only where `d_lookup` finds
none, so no two hashed children of one directory share a name (`NameInj`, kept by every call), and a listing shows
each name the tree has under the directory once, and nothing else (`readdir_view`).  After `aufs_init`, when every
call gets its inode, the root lists `woman_star` and `man_star`, and each of them its three files: what the
repository's `run-mount.sh` shows with `tree` (`aufsInit_listing`).
-/
namespace Aufs

/-! ## The model -/

/-- The children `simple_positive` accepts under the dentry `d`, in the order of the cache. -/
def Vfs.entries (s : Vfs) (d : Nat) : List String :=
  (s.dentries.filter (fun e => e.dHashed && e.dParent == d && e.dInode.isSome)).map (·.dName)

/-- **`dcache_readdir` on the dentry `d`**, read to the end: `.` and `..`, then the children, newest first, as
`d_alloc` puts each new child at the head of its parent's list. -/
def dcacheReaddir (s : Vfs) (d : Nat) : List String := "." :: ".." :: (s.entries d).reverse

/-! ## No two names alike in a directory -/

/-- **No two names alike in a directory**: two hashed dentries with one parent and one name are one dentry. -/
def NameInj (s : Vfs) : Prop :=
  ∀ (i j : Nat) (a b : Dentry), s.dentries[i]? = some a → s.dentries[j]? = some b → a.dHashed = true →
    b.dHashed = true → a.dParent = b.dParent → a.dName = b.dName → i = j

section nameInj

variable {s s' : Vfs} {f : Dentry → Dentry} {d : Nat}

/-- A change to one dentry that keeps its name, its parent and whether it is hashed keeps `NameInj`. -/
theorem NameInj.modify (hN : NameInj s)
    (hf : ∀ e, (f e).dName = e.dName ∧ (f e).dParent = e.dParent ∧ (f e).dHashed = e.dHashed)
    (h : s'.dentries = s.dentries.modify d f) : NameInj s' := by
  have hget : ∀ {k : Nat} {x : Dentry}, s'.dentries[k]? = some x →
      ∃ y, s.dentries[k]? = some y ∧ x.dName = y.dName ∧ x.dParent = y.dParent ∧ x.dHashed = y.dHashed := by
    intro k x hx
    rw [h, List.getElem?_modify] at hx
    cases hy : s.dentries[k]? with
    | none => rw [hy] at hx; cases hx
    | some y =>
      rw [hy] at hx
      obtain rfl := Option.some.inj hx
      refine ⟨y, rfl, ?_⟩
      split
      · exact hf y
      · exact ⟨rfl, rfl, rfl⟩
  intro i j a b ha hb hah hbh hp hn
  obtain ⟨a₀, ha₀, hna, hpa, hha⟩ := hget ha
  obtain ⟨b₀, hb₀, hnb, hpb, hhb⟩ := hget hb
  rw [hha] at hah
  rw [hhb] at hbh
  rw [hpa, hpb] at hp
  rw [hna, hnb] at hn
  exact hN i j a₀ b₀ ha₀ hb₀ hah hbh hp hn

/-- A hashed negative child added where `d_lookup` finds nothing keeps `NameInj`. -/
theorem NameInj.addNegative (hN : NameInj s) {name : String} {p k : Nat} (hn : dLookup s p name = none)
    (h : s'.dentries = s.dentries ++ [⟨name, p, none, k, true⟩]) : NameInj s' := by
  have hfree : ∀ (j : Nat) (b : Dentry), s.dentries[j]? = some b → b.dHashed = true → b.dParent = p →
      b.dName = name → False := by
    intro j b hb hh hp hnm
    have := List.findIdx?_eq_none_iff.1 hn b (List.mem_of_getElem? hb)
    simp [hh, hp, hnm] at this
  intro i j a b ha hb hah hbh hp hnm
  rw [h] at ha hb
  rcases Table.getElem?_append_singleton_eq_some ha with ha | ⟨rfl, rfl⟩ <;>
    rcases Table.getElem?_append_singleton_eq_some hb with hb | ⟨rfl, rfl⟩
  · exact hN i j a b ha hb hah hbh hp hnm
  · exact (hfree i a ha hah hp hnm).elim
  · exact (hfree j b hb hbh hp.symm hnm.symm).elim
  · rfl

theorem NameInj.lookup (hN : NameInj s) {env : Env} {name : String} {p c : Nat}
    (hl : lookupOneLen env name p s = some (.obj c, s')) : NameInj s' := by
  have hinc : ∀ e, (incCount e).dName = e.dName ∧ (incCount e).dParent = e.dParent ∧
      (incCount e).dHashed = e.dHashed := fun _ => ⟨rfl, rfl, rfl⟩
  obtain ⟨-, -, -, -, ⟨-, rfl⟩ | ⟨hn, -, -, -, -, rfl⟩⟩ := lookupOneLen_obj hl
  · exact hN.modify hinc rfl
  · have hN₁ : NameInj { s with dentries := s.dentries.modify p incCount } := hN.modify hinc rfl
    exact hN₁.addNegative ((dLookup_countOnly countOnly_incCount p name).trans hn) rfl

/-- **One call keeps `NameInj`.** -/
theorem NameInj.step (hW : Wf s) (hL : Links s) (hN : NameInj s) (h : Step s s') : NameInj s' := by
  obtain ⟨env, c, r, hc, hrun⟩ := h
  obtain ⟨p, d, s₁, e, pe, pi, -, -, hl, -, -, -, -, -, -, ⟨-, rfl⟩ | ⟨o, -, -, -, rfl⟩⟩ :=
    Call.run_cases hW hL hc hrun
  · exact hN.lookup hl
  · exact (hN.lookup hl).modify (f := fun e => { e with dInode := some s₁.inodes.length, dCount := e.dCount + 1 })
      (fun _ => ⟨rfl, rfl, rfl⟩) rfl

theorem reachable_nameInj (h : Reachable s) : NameInj s := by
  refine Machine.Reach.induction (P := NameInj) (fun s₀ h₀ => ?_)
    (fun s s' hr ih hs => ih.step (reachable_wf hr).1 (reachable_wf hr).2 hs) h
  obtain ⟨env, now, hm⟩ := h₀
  obtain ⟨o, rfl⟩ := aufsGetSb_ok hm
  intro i j a b ha hb _ _ _ _
  exact (rootVfs_dentry ha).1.trans (rootVfs_dentry hb).1.symm

end nameInj

/-! ## A listing shows the tree -/

section listing

variable {s : Vfs}

theorem Vfs.entries_nodup (hN : NameInj s) (d : Nat) : (s.entries d).Nodup := by
  apply Table.nodup_map_filter
  intro i j a b ha hb hpa hpb hn
  simp only [Bool.and_eq_true, beq_iff_eq] at hpa hpb
  exact hN i j a b ha hb hpa.1.1 hpb.1.1 (hpa.1.2.trans hpb.1.2.symm) hn

theorem Vfs.mem_entries (hW : Wf s) (hN : NameInj s) (d : Nat) (nm : String) :
    nm ∈ s.entries d ↔ s.view (d, nm) ≠ none := by
  constructor
  · intro hm
    obtain ⟨e, he, rfl⟩ := List.mem_map.1 hm
    obtain ⟨hel, hpe⟩ := List.mem_filter.1 he
    simp only [Bool.and_eq_true, beq_iff_eq, Option.isSome_iff_exists] at hpe
    obtain ⟨⟨hh, hp⟩, i, hi⟩ := hpe
    obtain ⟨k, hk⟩ := List.mem_iff_getElem?.1 hel
    -- `d_lookup` finds a hashed child of `d` with this name, and `NameInj` makes it `e` itself
    cases hl : dLookup s d e.dName with
    | none =>
      have := List.findIdx?_eq_none_iff.1 hl e hel
      simp [hh, hp] at this
    | some j =>
      obtain ⟨x, hx, hxh, hxp, hxn⟩ := dLookup_some hl
      obtain rfl : j = k := hN j k x e hx hk hxh hh (hxp.trans hp.symm) hxn
      rw [hk, Option.some.injEq] at hx
      subst hx
      simp only [Vfs.view, hl, Option.bind_some]
      exact hW.node_positive hk hi
  · intro hv
    simp only [Vfs.view] at hv
    cases hl : dLookup s d nm with
    | none =>
      rw [hl] at hv
      exact absurd rfl hv
    | some j =>
      rw [hl, Option.bind_some] at hv
      obtain ⟨x, hx, hxh, hxp, rfl⟩ := dLookup_some hl
      -- the tree has a node there, so the dentry is positive
      have hpos : x.dInode.isSome = true := by
        cases hi : x.dInode with
        | none => exact absurd (Vfs.node_negative hx hi) hv
        | some _ => rfl
      exact List.mem_map.2 ⟨x, List.mem_filter.2 ⟨List.mem_of_getElem? hx, by simp [hxh, hxp, hpos]⟩, rfl⟩

theorem listing_of_view (h : Reachable s) {d : Nat} {names : List String} (hnd : names.Nodup)
    (hv : ∀ nm, s.view (d, nm) ≠ none ↔ nm ∈ names) :
    ∃ l, dcacheReaddir s d = "." :: ".." :: l ∧ l.Perm names := by
  have hN := reachable_nameInj h
  refine ⟨(s.entries d).reverse, rfl, ?_⟩
  refine (List.perm_ext_iff_of_nodup ((List.reverse_perm _).nodup_iff.2 (Vfs.entries_nodup hN d)) hnd).2 (fun nm => ?_)
  rw [List.mem_reverse, Vfs.mem_entries (reachable_wf h).1 hN d nm, hv]

end listing

/-! ## The layout `aufs_init` is for -/

theorem update_ne_none {t : Tree} {k x : Nat × String} {v : Node} :
    Function.update t k (some v) x ≠ none ↔ x = k ∨ t x ≠ none := by
  by_cases h : x = k
  · subst h
    simp
  · simp [h]

theorem treeFiles_all : ∀ (names : List String) (k p : Nat) (t : Tree) (q : Nat) (nm : String),
    treeFiles (fun _ => true) k p names t (q, nm) ≠ none ↔ (q = p ∧ nm ∈ names) ∨ t (q, nm) ≠ none
  | [], _, _, t, q, nm => by simp [treeFiles]
  | a :: names, k, p, t, q, nm => by
    rw [treeFiles, if_pos rfl, treeFiles_all names (k + 1) p, update_ne_none, Prod.mk.injEq, List.mem_cons,
      and_or_left]
    simp only [or_assoc, or_left_comm]

/-- **When every call gets its inode**, the tree has `woman_star` and `man_star` under the root and the three files
of each under it, and nothing else. -/
theorem initTree_all (q : Nat) (nm : String) :
    initTree (fun _ => true) (q, nm) ≠ none ↔ (q = 0 ∧ nm ∈ ["woman_star", "man_star"]) ∨
      (q = 1 ∧ nm ∈ ["lbb", "fbb", "lj1"]) ∨ (q = 5 ∧ nm ∈ ["ldh", "lcw", "jw"]) := by
  unfold initTree treeStar
  rw [if_pos rfl, if_pos rfl, treeFiles_all, update_ne_none, treeFiles_all, update_ne_none]
  simp only [Prod.mk.injEq, ne_eq, not_true_eq_false, or_false, List.mem_cons, List.not_mem_nil, and_or_left]
  -- the same six cases on both sides, in another order
  simp only [or_assoc, or_left_comm, or_comm]

/-- **What `tree /au` shows after `aufs_init`**, when every call is granted its lookup and gets its inode: the root
lists `woman_star` and `man_star`, `woman_star` lists `lbb`, `fbb` and `lj1`, `man_star` lists `ldh`, `lcw` and `jw`,
each name once. -/
theorem aufsInit_listing {menv : Env} {now : Nat} {s₀ : Vfs} {env : Nat → Env} (hm : kernMount menv now = .ok s₀)
    (hg : Grants env) (hs : ∀ k, (env k).slab.isSome = true) :
    ∃ s, aufsInit false menv now env = some (0, ⟨true, some (.ok s)⟩) ∧
      (∃ l, dcacheReaddir s 0 = "." :: ".." :: l ∧ l.Perm ["woman_star", "man_star"]) ∧
      (∃ l, dcacheReaddir s 1 = "." :: ".." :: l ∧ l.Perm ["lbb", "fbb", "lj1"]) ∧
      (∃ l, dcacheReaddir s 5 = "." :: ".." :: l ∧ l.Perm ["ldh", "lcw", "jw"]) := by
  obtain ⟨s, hs', hi, -, hv⟩ := aufsInit_run hm hg
  have h := hi.reachable
  have hok : (fun k => (env k).slab.isSome) = fun _ => true := funext hs
  rw [hok] at hv
  refine ⟨s, hs', listing_of_view h (by decide) (fun nm => ?_), listing_of_view h (by decide) (fun nm => ?_),
    listing_of_view h (by decide) (fun nm => ?_)⟩ <;>
  · rw [hv, initTree_all]
    simp

theorem aufsInit_listing_fresh :
    ∃ s, aufsInit false freshEnv 0 (fun _ => freshEnv) = some (0, ⟨true, some (.ok s)⟩) ∧
      (∃ l, dcacheReaddir s 0 = "." :: ".." :: l ∧ l.Perm ["woman_star", "man_star"]) ∧
      (∃ l, dcacheReaddir s 1 = "." :: ".." :: l ∧ l.Perm ["lbb", "fbb", "lj1"]) ∧
      (∃ l, dcacheReaddir s 5 = "." :: ".." :: l ∧ l.Perm ["ldh", "lcw", "jw"]) :=
  aufsInit_listing (show kernMount freshEnv 0 = .ok (rootVfs freshInode 0) from rfl) (fun _ => ⟨rfl, rfl⟩)
    (fun _ => rfl)

end Aufs
