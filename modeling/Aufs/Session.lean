import Aufs.Access
import Aufs.Reader
/-!
# Session — a descriptor on an aufs file is the reader of `Sys`

`Sys` is one reader and the writes, over the flag.  Here the reader is a descriptor of the system-call layer, open
for reading on one of the module's files, among every task's calls.  Each call is either a `Sys` event — a write
that reaches `aufs_file_write` through any descriptor, a read on the reader's descriptor that reaches
`aufs_file_read` — or leaves the reader and the flag as they were (`ReaderRel.step`).  Over a run of calls that does
not close the descriptor, the bytes its reads return up to the first that returns none (`collect`, what `cat`
prints) are what the `Sys` reader gets from events of that run (`ReaderRel.run`), so what `Sys` guarantees holds of
the descriptor.
-/
namespace Aufs

/-- **A run of system calls** by any tasks: what each returned, in order, and the state the last leaves; `none`
where one oopses. -/
def Os.run (s : Vfs) : Os → List Syscall → Option (List Ret × Os)
  | st, [] => some ([], st)
  | st, ev :: evs =>
    match Os.step s st ev with
    | none => none
    | some (r, st₁) =>
      match Os.run s st₁ evs with
      | none => none
      | some (rs, st₂) => some (r :: rs, st₂)

/-- The bytes a call gave the reader on `fd`: what its read on `fd` returned. -/
def Syscall.gave (fd : Nat) : Syscall → Ret → Option (List Char)
  | .read fd' _, .bytes b => if fd' = fd then some b else none
  | _, _ => none

/-- **What the reader on `fd` collects** from a run's calls and what they returned: the bytes of its reads, up to
the first that returns none. -/
def collect (fd : Nat) : List (Syscall × Ret) → List Char
  | [] => []
  | (ev, r) :: rest => if ev.gave fd r = some [] then [] else (ev.gave fd r).getD [] ++ collect fd rest

/-- Whether a call is a read on `fd`. -/
def Syscall.isReadOn (fd : Nat) : Syscall → Bool
  | .read fd' _ => fd' == fd
  | _ => false

/-- The `Sys` events a call can stand for, for the reader on `fd`: its read on `fd`, or its write from a buffer the
kernel reads. -/
def Syscall.Stands (fd : Nat) (ev : Syscall) : Event → Prop
  | .read n => ev = .read fd n
  | .write b c => ∃ fd', ev = .write fd' (some b) c

/-- **The reader on `fd`, related to the system**: the same flag, and `fd` open for reading on a file with
`aufs_file_operations`, at the reader's offset until the reader is done. -/
def ReaderRel (fd : Nat) (σ : Sys) (st : Os) : Prop :=
  σ.enabled = st.enabled ∧ ∃ f, st.files[fd]? = some (some f) ∧ f.fOp = .aufs ∧ f.fMode &&& FMODE_READ ≠ 0 ∧
    (σ.done = false → f.fPos = σ.pos)

theorem Os.run_cons_eq_some {s : Vfs} {st st' : Os} {ev : Syscall} {evs : List Syscall} {rs : List Ret}
    (h : Os.run s st (ev :: evs) = some (rs, st')) :
    ∃ r rs' st₁, rs = r :: rs' ∧ Os.step s st ev = some (r, st₁) ∧ Os.run s st₁ evs = some (rs', st') := by
  simp only [Os.run] at h
  split at h
  · cases h
  · rename_i r st₁ hst
    split at h
    · cases h
    · rename_i rs' st₂ hrun
      obtain ⟨rfl, rfl⟩ := Prod.mk.inj (Option.some.inj h)
      exact ⟨r, rs', st₁, rfl, hst, hrun⟩

/-! ## Reads -/

/-- `read` on a descriptor open for reading on a file with `aufs_file_operations`. -/
theorem sysRead_aufs {st : Os} {fd count : Nat} {f : File} (hf : st.files[fd]? = some (some f))
    (hop : f.fOp = .aufs) (hm : f.fMode &&& FMODE_READ ≠ 0) :
    sysRead st fd count =
      if rwVerifyArea f.fPos count ≠ 0 then some (.val (rwVerifyArea f.fPos count), st)
      else some (.bytes (aufsFileRead st.enabled count f.fPos).1,
        st.setFile fd { f with fPos := (aufsFileRead st.enabled count f.fPos).2 }) := by
  simp only [sysRead, hf, hm, hop, if_false]

theorem Syscall.gave_read_ne {fd fd' n : Nat} {r : Ret} (h : fd' ≠ fd) : (Syscall.read fd' n).gave fd r = none := by
  cases r <;> simp [Syscall.gave, h]

/-! ## One call -/

section step

variable {s : Vfs} {fd : Nat} {σ : Sys} {st st' : Os} {ev : Syscall} {r : Ret}

theorem ReaderRel.stutter (hR : ReaderRel fd σ st) (hfd : st'.files[fd]? = st.files[fd]?)
    (he : st'.enabled = st.enabled) (hg : ev.gave fd r = none) :
    ∃ es, ReaderRel fd (σ.run es) st' ∧ (∀ e ∈ es, ev.Stands fd e) ∧
      (σ.run es).got = σ.got ++ (if σ.done then [] else (ev.gave fd r).getD []) ∧
      ((σ.run es).done = true ↔ σ.done = true ∨ ev.gave fd r = some []) ∧
      (∀ b c, Event.write b c ∈ es → ¬ st.WriteClosed) := by
  obtain ⟨hen, f, hf, hfo⟩ := hR
  refine ⟨[], ⟨hen.trans he.symm, f, hfd.trans hf, hfo⟩, fun _ h => absurd h List.not_mem_nil, ?_, ?_,
    fun _ _ h => absurd h List.not_mem_nil⟩
  · simp [hg]
  · simp [hg]

/-- A read on the reader's descriptor that reaches `aufs_file_read` is the reader's read. -/
theorem ReaderRel.read {n : Nat} {f : File} (hR : ReaderRel fd σ st) (hf : st.files[fd]? = some (some f)) :
    ReaderRel fd (σ.run [.read n]) (st.setFile fd { f with fPos := (aufsFileRead st.enabled n f.fPos).2 }) ∧
      (σ.run [.read n]).got = σ.got ++ (if σ.done then [] else (aufsFileRead st.enabled n f.fPos).1) ∧
      ((σ.run [.read n]).done = true ↔ σ.done = true ∨ (aufsFileRead st.enabled n f.fPos).1 = []) := by
  obtain ⟨hen, f', hf', hop, hm, hpos⟩ := hR
  obtain rfl : f = f' := Option.some.inj (Option.some.inj (hf.symm.trans hf'))
  have hfile : (st.setFile fd { f with fPos := (aufsFileRead st.enabled n f.fPos).2 }).files[fd]? =
      some (some { f with fPos := (aufsFileRead st.enabled n f.fPos).2 }) := by
    simp only [Os.setFile, List.getElem?_set_self (List.getElem?_eq_some_iff.1 hf).1]
  cases hd : σ.done
  · -- the reader's read copies what the system's does, from the same flag and offset
    have hσ : σ.run [.read n] = σ.step (.read n) := rfl
    rw [hσ, σ.step_read n hd]
    simp only [aufsFileRead, simpleReadFromBuffer_eq, ← hen, ← hpos hd] at hfile ⊢
    split
    · rename_i hb
      refine ⟨⟨hen, _, hfile, hop, hm, fun h => by cases h⟩, by simp [List.isEmpty_iff.1 hb], ?_⟩
      simp [List.isEmpty_iff.1 hb]
    · rename_i hb
      refine ⟨⟨hen, _, hfile, hop, hm, fun _ => rfl⟩, rfl, ?_⟩
      simp only [hd, Bool.false_eq_true, false_or, false_iff]
      simpa [List.isEmpty_iff] using hb
  · have hσ : σ.run [.read n] = σ := by simp [Sys.step, hd]
    rw [hσ]
    exact ⟨⟨hen, _, hfile, hop, hm, fun h => by rw [hd] at h; cases h⟩, by simp, by simp [hd]⟩

/-- **What one call does to the reader on `fd`**, which it does not close: the `Sys` events it stands for — none,
or one — keep the relation, give the reader what the call's read gave it unless it was done, and leave it done
exactly when it was or that read gave none; and a write is an event only where a descriptor is open for writing on
an aufs file. -/
theorem ReaderRel.step (hR : ReaderRel fd σ st) (h : Os.step s st ev = some (r, st')) (hc : ev ≠ .close fd) :
    ∃ es, ReaderRel fd (σ.run es) st' ∧ (∀ e ∈ es, ev.Stands fd e) ∧
      (σ.run es).got = σ.got ++ (if σ.done then [] else (ev.gave fd r).getD []) ∧
      ((σ.run es).done = true ↔ σ.done = true ∨ ev.gave fd r = some []) ∧
      (∀ b c, Event.write b c ∈ es → ¬ st.WriteClosed) := by
  have hfile : ∃ f, st.files[fd]? = some (some f) ∧ f.fOp = .aufs ∧ f.fMode &&& FMODE_READ ≠ 0 := by
    obtain ⟨-, f, hf, hop, hm, -⟩ := hR
    exact ⟨f, hf, hop, hm⟩
  obtain ⟨f, hf, hop, hm⟩ := hfile
  cases ev with
  | «open» cred path flags ok =>
    rcases sysOpen_cases h with rfl | ⟨d, n, g, -, -, -, rfl⟩
    · exact hR.stutter rfl rfl rfl
    · exact hR.stutter ((fdInstall_firstFree hf).trans hf.symm) rfl rfl
  | read fd' n =>
    by_cases hfd : fd' = fd
    · subst hfd
      rw [Os.step, sysRead_aufs hf hop hm] at h
      split_ifs at h with hv
      · obtain ⟨rfl, rfl⟩ := Prod.mk.inj (Option.some.inj h)
        exact hR.stutter rfl rfl rfl
      · obtain ⟨rfl, rfl⟩ := Prod.mk.inj (Option.some.inj h)
        obtain ⟨hR', hg, hd⟩ := hR.read hf
        refine ⟨[.read _], hR', fun e he => by rw [List.mem_singleton.1 he]; rfl, ?_, ?_, ?_⟩
        · simpa [Syscall.gave] using hg
        · simpa [Syscall.gave] using hd
        · intro b c he
          cases List.mem_singleton.1 he
    · rcases sysRead_cases h with rfl | ⟨g, k, -, rfl⟩
      · exact hR.stutter rfl rfl (Syscall.gave_read_ne hfd)
      · exact hR.stutter (List.getElem?_set_ne hfd) rfl (Syscall.gave_read_ne hfd)
  | write fd' b c =>
    rcases sysWrite_cases h with rfl | ⟨g, b', rfl, hg, hgop, hgw, rfl⟩
    · exact hR.stutter rfl rfl rfl
    · -- the write sets the reader's flag too
      obtain ⟨-, f', hf', hfo⟩ := hR
      refine ⟨[.write b' c], ⟨by simp [Sys.run, Sys.step], f', hf', hfo⟩,
        fun e he => by rw [List.mem_singleton.1 he]; exact ⟨fd', rfl⟩, ?_, ?_, fun _ _ _ hw => hgw (hw fd' g hg hgop)⟩
      · simp [Sys.run, Sys.step, Syscall.gave]
      · simp [Sys.run, Sys.step, Syscall.gave]
  | getdents fd' n =>
    -- only a directory's offset moves, and the reader's file is no directory
    rcases sysGetdents_cases h with rfl | ⟨g, k, hg, hgop, rfl⟩
    · exact hR.stutter rfl rfl rfl
    · have hfd : fd' ≠ fd := by
        rintro rfl
        rw [hf] at hg
        obtain rfl := Option.some.inj (Option.some.inj hg)
        rw [hop] at hgop
        cases hgop
      exact hR.stutter (List.getElem?_set_ne hfd) rfl rfl
  | close fd' =>
    have hfd : fd' ≠ fd := fun he => hc (by rw [he])
    have h' : (sysClose st fd').2 = st' := congrArg Prod.snd (Option.some.inj h)
    obtain h | h : (sysClose st fd').2 = st ∨ (sysClose st fd').2 = { st with files := st.files.set fd' none } :=
      sysClose_cases
    · exact hR.stutter (by rw [← h', h]) (by rw [← h', h]) rfl
    · exact hR.stutter (by rw [← h', h]; exact List.getElem?_set_ne hfd) (by rw [← h', h]) rfl

/-- A read on the reader's descriptor of at most `INT_MAX` bytes, while the reader is not done, passes
`rw_verify_area` and reaches `aufs_file_read`: the offset is at most 20. -/
theorem ReaderRel.read_bytes (hR : ReaderRel fd σ st) (hI : σ.Inv) (hd : σ.done = false) {n : Nat}
    (hn : n ≤ INT_MAX) (h : Os.step s st (.read fd n) = some (r, st')) : ∃ b, r = .bytes b := by
  obtain ⟨-, f, hf, hop, hm, hpos⟩ := hR
  have hle : f.fPos ≤ 20 := by rw [hpos hd]; exact hI.2.1
  have hv : rwVerifyArea f.fPos n = 0 := rwVerifyArea_of_le (Nat.le_trans hle (by decide)) hn
  rw [Os.step, sysRead_aufs hf hop hm, hv] at h
  exact ⟨_, (Prod.mk.inj (Option.some.inj h)).1.symm⟩

end step

/-! ## A run -/

/-- **What a run of calls that does not close `fd` does to the reader on it**: the `Sys` events it stands for, each
one of its reads on `fd` or one of its writes, keep the relation, give the reader what it collects from the run
unless it was done, and leave it done exactly when it was or one of those reads gave none.  From a state where no
aufs file is open for writing, on a VFS where no class may write one, a run by tasks without `CAP_DAC_OVERRIDE`
stands for no write. -/
theorem ReaderRel.run {s : Vfs} {fd : Nat} : ∀ {evs : List Syscall} {σ : Sys} {st st' : Os} {rs : List Ret},
    ReaderRel fd σ st → Os.run s st evs = some (rs, st') → Syscall.close fd ∉ evs →
    ∃ es, ReaderRel fd (σ.run es) st' ∧ (∀ e ∈ es, ∃ ev ∈ evs, ev.Stands fd e) ∧
      (σ.run es).got = σ.got ++ (if σ.done then [] else collect fd (evs.zip rs)) ∧
      ((σ.run es).done = true ↔ σ.done = true ∨ ∃ p ∈ evs.zip rs, p.1.gave fd p.2 = some []) ∧
      (s.AufsReadOnly → st.WriteClosed → (∀ ev ∈ evs, ev.NoOverride) → ∀ b c, Event.write b c ∉ es)
  | [], σ, st, st', rs, hR, h, _ => by
    obtain ⟨rfl, rfl⟩ := Prod.mk.inj (Option.some.inj h)
    exact ⟨[], hR, fun _ h => absurd h List.not_mem_nil, by simp [collect], by simp,
      fun _ _ _ _ _ h => absurd h List.not_mem_nil⟩
  | ev :: evs, σ, st, st', rs, hR, h, hc => by
    obtain ⟨r, rs', st₁, rfl, hst, hrun⟩ := Os.run_cons_eq_some h
    obtain ⟨es₁, hR₁, hs₁, hg₁, hd₁, hw₁⟩ := hR.step hst (fun he => hc (he ▸ List.mem_cons_self ..))
    obtain ⟨es₂, hR₂, hs₂, hg₂, hd₂, hw₂⟩ := ReaderRel.run hR₁ hrun (fun hm => hc (List.mem_cons_of_mem _ hm))
    refine ⟨es₁ ++ es₂, by rwa [Sys.run_append], ?_, ?_, ?_, ?_⟩
    · intro e he
      rcases List.mem_append.1 he with he | he
      · exact ⟨ev, List.mem_cons_self .., hs₁ e he⟩
      · obtain ⟨ev', hm, hs⟩ := hs₂ e he
        exact ⟨ev', List.mem_cons_of_mem _ hm, hs⟩
    · rw [Sys.run_append, hg₂, hg₁, List.zip_cons_cons]
      -- the call's bytes, then the rest's, until a read gives none
      cases hd : σ.done
      · by_cases hg : ev.gave fd r = some []
        · have hd' : (σ.run es₁).done = true := hd₁.2 (.inr hg)
          simp [collect, hg, hd']
        · have hd' : (σ.run es₁).done = false := by
            rw [Bool.eq_false_iff]
            intro h'
            rcases hd₁.1 h' with h'' | h''
            · rw [hd] at h''
              cases h''
            · exact hg h''
          simp [collect, hg, hd']
      · have hd' : (σ.run es₁).done = true := hd₁.2 (.inl hd)
        simp [hd']
    · rw [Sys.run_append, hd₂, hd₁, List.zip_cons_cons]
      simp [or_assoc]
    · intro hs hW hq b c hb
      rcases List.mem_append.1 hb with hb | hb
      · exact hw₁ b c hb hW
      · exact hw₂ hs (Os.step_writeClosed hs (hq ev (List.mem_cons_self ..)) hst hW).1
          (fun ev' hm => hq ev' (List.mem_cons_of_mem _ hm)) b c hb

/-- **Until a read on it returns none, each read on the reader's descriptor moves it on by a byte at least**, among
any calls that do not close it, if each asks for a byte at least and at most `INT_MAX`: from a reader that is not
done, either one of the run's reads on the descriptor returns none, or the offset plus their number is at most 20. -/
theorem ReaderRel.ends {s : Vfs} {fd : Nat} : ∀ {evs : List Syscall} {σ : Sys} {st st' : Os} {rs : List Ret},
    ReaderRel fd σ st → σ.Inv → σ.done = false → Os.run s st evs = some (rs, st') → Syscall.close fd ∉ evs →
    (∀ n, Syscall.read fd n ∈ evs → 1 ≤ n ∧ n ≤ INT_MAX) →
    (∃ p ∈ evs.zip rs, p.1.gave fd p.2 = some []) ∨ σ.pos + evs.countP (Syscall.isReadOn fd) ≤ 20
  | [], σ, _, _, _, _, hI, _, _, _, _ => .inr hI.2.1
  | ev :: evs, σ, st, st', rs, hR, hI, hd, h, hc, hn => by
    obtain ⟨r, rs', st₁, rfl, hst, hrun⟩ := Os.run_cons_eq_some h
    obtain ⟨es, hR₁, -, hg₁, hd₁, -⟩ := hR.step hst (fun he => hc (he ▸ List.mem_cons_self ..))
    by_cases hE : ev.gave fd r = some []
    · exact .inl ⟨(ev, r), by simp, hE⟩
    have hI₁ : (σ.run es).Inv := hI.run es
    have hd₁' : (σ.run es).done = false := by
      rw [Bool.eq_false_iff]
      intro h'
      rcases hd₁.1 h' with h'' | h''
      · rw [hd] at h''
        cases h''
      · exact hE h''
    -- the reader holds as many bytes as its offset, so the call's bytes moved it on by their number
    have hpos₁ : (σ.run es).pos = σ.pos + ((ev.gave fd r).getD []).length := by
      rw [← hI₁.1, hg₁, hd, if_neg Bool.false_ne_true, List.length_append, hI.1]
    rcases ReaderRel.ends hR₁ hI₁ hd₁' hrun (fun hm => hc (List.mem_cons_of_mem _ hm))
        (fun n hm => hn n (List.mem_cons_of_mem _ hm)) with ⟨p, hp, hpe⟩ | hle
    · exact .inl ⟨p, by rw [List.zip_cons_cons]; exact List.mem_cons_of_mem _ hp, hpe⟩
    · right
      cases hrd : ev.isReadOn fd
      · rw [List.countP_cons_of_neg (by simp [hrd])]
        omega
      · -- a read on the descriptor: it reached `aufs_file_read`, and gave a byte at least
        cases ev with
        | read fd' n =>
          obtain rfl : fd = fd' := (beq_iff_eq.1 hrd).symm
          obtain ⟨b, rfl⟩ := hR.read_bytes hI hd (hn n (List.mem_cons_self ..)).2 hst
          have hb : b ≠ [] := fun hb => hE (by simp [Syscall.gave, hb])
          have hlen : 1 ≤ ((Syscall.gave fd (.read fd n) (.bytes b)).getD []).length := by
            simp only [Syscall.gave, if_true, Option.getD_some]
            exact List.length_pos_iff.2 hb
          rw [List.countP_cons_of_pos (by simp [Syscall.isReadOn])]
          omega
        | _ => simp [Syscall.isReadOn] at hrd

theorem Sys.step_read_enabled (σ : Sys) (n : Nat) : (σ.step (.read n)).enabled = σ.enabled := by
  simp only [Sys.step]
  split
  · rfl
  · split <;> rfl

/-- Reads of a byte at least keep the reader on the current message, and the flag. -/
theorem Sys.ReadInv.run_of_reads {σ : Sys} (hR : σ.ReadInv) :
    ∀ {es : List Event}, (∀ e ∈ es, ∃ n, 1 ≤ n ∧ e = .read n) → (σ.run es).ReadInv ∧ (σ.run es).enabled = σ.enabled
  | [], _ => ⟨hR, rfl⟩
  | e :: es, hes => by
    obtain ⟨n, hn, rfl⟩ := hes e (List.mem_cons_self ..)
    obtain ⟨hR', he⟩ := (hR.step hn).run_of_reads (fun e' h => hes e' (List.mem_cons_of_mem _ h))
    exact ⟨hR', he.trans (σ.step_read_enabled n)⟩

/-- **A reader from the start that only reads, a byte at least at a time, and is done got the whole message.** -/
theorem Sys.got_of_reads {e : Int} {es : List Event} (hes : ∀ e ∈ es, ∃ n, 1 ≤ n ∧ e = .read n)
    (hd : (Sys.run ⟨e, 0, [], false⟩ es).done = true) : (Sys.run ⟨e, 0, [], false⟩ es).got = aufsMsg e := by
  have hR : Sys.ReadInv ⟨e, 0, [], false⟩ := ⟨rfl, Nat.zero_le _, fun h => by cases h⟩
  obtain ⟨⟨hgot, -, hdone⟩, hen⟩ := hR.run_of_reads hes
  rw [hgot, hdone hd, List.take_length, hen]

/-- The events a run stands for that are no writes are the reader's reads, each of a byte at least if the run's
reads on `fd` are. -/
theorem reads_of_stands {fd : Nat} {evs : List Syscall} {es : List Event}
    (hs : ∀ e ∈ es, ∃ ev ∈ evs, ev.Stands fd e) (hw : ∀ b c, Event.write b c ∉ es)
    (hn : ∀ n, Syscall.read fd n ∈ evs → 1 ≤ n) : ∀ e ∈ es, ∃ n, 1 ≤ n ∧ e = .read n := by
  intro e he
  cases e with
  | read n =>
    obtain ⟨ev, hev, rfl⟩ := hs _ he
    exact ⟨n, hn n hev, rfl⟩
  | write b c => exact absurd he (hw b c)

section descriptor

variable {s : Vfs} {st st' : Os} {fd : Nat} {f : File} {evs : List Syscall} {rs : List Ret}

/-- **A descriptor read from the start gets bytes of one message or the other, each at its own offset, and at most
20**, under every run of calls by any tasks that does not close it, whatever they write in between. -/
theorem descriptor_reads_messages (hf : st.files[fd]? = some (some f)) (hop : f.fOp = .aufs)
    (hm : f.fMode &&& FMODE_READ ≠ 0) (hpos : f.fPos = 0) (h : Os.run s st evs = some (rs, st'))
    (hc : Syscall.close fd ∉ evs) :
    (collect fd (evs.zip rs)).length ≤ 20 ∧ ∀ (i : Nat) (c : Char), (collect fd (evs.zip rs))[i]? = some c →
      enabledMsg[i]? = some c ∨ disabledMsg[i]? = some c := by
  have hR : ReaderRel fd ⟨st.enabled, 0, [], false⟩ st := ⟨rfl, f, hf, hop, hm, fun _ => hpos⟩
  obtain ⟨es, -, -, hg, -, -⟩ := hR.run h hc
  have hI : Sys.Inv ⟨st.enabled, 0, [], false⟩ := ⟨rfl, Nat.zero_le _, fun _ _ h => by simp at h⟩
  obtain ⟨hlen, hle, hbytes⟩ := hI.run es
  have hcol : collect fd (evs.zip rs) = (Sys.run ⟨st.enabled, 0, [], false⟩ es).got := by simp [hg]
  rw [hcol]
  exact ⟨hlen ▸ hle, hbytes⟩

/-- The write between the reads splices the messages, and the bytes are still, each at its offset, of one or the
other. -/
theorem descriptor_reads_messages_mix :
    ∃ rs st', Os.run (rootVfs freshInode 0)
        ⟨enabledInit, [some ⟨2, FMODE_READ, .aufs, 0⟩, some ⟨3, FMODE_WRITE, .aufs, 0⟩]⟩
        [.read 0 11, .write 1 (some zeroBuf) 1, .read 0 100, .read 0 100] = some (rs, st') ∧
      collect 0 ([.read 0 11, .write 1 (some zeroBuf) 1, .read 0 100, .read 0 100].zip rs) =
        "aufs read eisabled\\n".toList ∧
      ((collect 0 ([.read 0 11, .write 1 (some zeroBuf) 1, .read 0 100, .read 0 100].zip rs)).length ≤ 20 ∧
        ∀ (i : Nat) (c : Char),
          (collect 0 ([.read 0 11, .write 1 (some zeroBuf) 1, .read 0 100, .read 0 100].zip rs))[i]? = some c →
          enabledMsg[i]? = some c ∨ disabledMsg[i]? = some c) := by
  have h : Os.run (rootVfs freshInode 0)
      ⟨enabledInit, [some ⟨2, FMODE_READ, .aufs, 0⟩, some ⟨3, FMODE_WRITE, .aufs, 0⟩]⟩
      [.read 0 11, .write 1 (some zeroBuf) 1, .read 0 100, .read 0 100] = some (_, _) := rfl
  exact ⟨_, _, h, by decide,
    descriptor_reads_messages (f := ⟨2, FMODE_READ, .aufs, 0⟩) rfl rfl (by decide) rfl h (by simp)⟩

/-- **With no write, a descriptor read from the start to its end gets the whole message the flag chooses** — what
`cat` prints — among any other calls by any tasks, if each of its reads asks for a byte at least. -/
theorem descriptor_reads_message (hf : st.files[fd]? = some (some f)) (hop : f.fOp = .aufs)
    (hm : f.fMode &&& FMODE_READ ≠ 0) (hpos : f.fPos = 0) (h : Os.run s st evs = some (rs, st'))
    (hc : Syscall.close fd ∉ evs) (hw : ∀ fd' b c, Syscall.write fd' b c ∉ evs)
    (hn : ∀ n, Syscall.read fd n ∈ evs → 1 ≤ n) (hend : ∃ p ∈ evs.zip rs, p.1.gave fd p.2 = some []) :
    collect fd (evs.zip rs) = aufsMsg st.enabled := by
  have hR : ReaderRel fd ⟨st.enabled, 0, [], false⟩ st := ⟨rfl, f, hf, hop, hm, fun _ => hpos⟩
  obtain ⟨es, -, hs, hg, hd, -⟩ := hR.run h hc
  -- a write event stands for a write of the run, and there is none
  have hwe : ∀ b c, Event.write b c ∉ es := by
    intro b c he
    obtain ⟨ev, hev, fd', rfl⟩ := hs _ he
    exact hw fd' b c hev
  have hcol : collect fd (evs.zip rs) = (Sys.run ⟨st.enabled, 0, [], false⟩ es).got := by simp [hg]
  rw [hcol, Sys.got_of_reads (reads_of_stands hs hwe hn) (hd.2 (.inr hend))]

/-- `cat` with reads of 4, 100 and 1 bytes, the last of which returns none. -/
theorem descriptor_reads_message_cat :
    ∃ rs st', Os.run (rootVfs freshInode 0) ⟨enabledInit, [some ⟨2, FMODE_READ, .aufs, 0⟩]⟩
        [.read 0 4, .read 0 100, .read 0 1] = some (rs, st') ∧
      collect 0 ([.read 0 4, .read 0 100, .read 0 1].zip rs) = aufsMsg enabledInit := by
  have h : Os.run (rootVfs freshInode 0) ⟨enabledInit, [some ⟨2, FMODE_READ, .aufs, 0⟩]⟩
      [.read 0 4, .read 0 100, .read 0 1] = some (_, _) := rfl
  exact ⟨_, _, h, descriptor_reads_message (f := ⟨2, FMODE_READ, .aufs, 0⟩) rfl rfl (by decide) rfl h (by simp)
    (by simp) (by simp) (by decide)⟩

/-- **A reader without `CAP_DAC_OVERRIDE` always gets "aufs read enabled"**: on the VFS `aufs_init` leaves, after
any calls by tasks without the capability, a descriptor open for reading from the start on one of its files, read to
its end a byte at least at a time among any further such calls that do not close it, gets the enabled message whole;
every write to the files fails. -/
theorem unprivileged_reads_enabled {menv : Env} {now : Nat} {s₀ : Vfs} {env : Nat → Env}
    (hmnt : kernMount menv now = .ok s₀) (hg : Grants env)
    (hs : aufsInit false menv now env = some (0, ⟨true, some (.ok s)⟩)) (hr : Os.Reach s Syscall.NoOverride st)
    (hf : st.files[fd]? = some (some f)) (hop : f.fOp = .aufs) (hm : f.fMode &&& FMODE_READ ≠ 0) (hpos : f.fPos = 0)
    (h : Os.run s st evs = some (rs, st')) (hq : ∀ ev ∈ evs, ev.NoOverride) (hc : Syscall.close fd ∉ evs)
    (hn : ∀ n, Syscall.read fd n ∈ evs → 1 ≤ n) (hend : ∃ p ∈ evs.zip rs, p.1.gave fd p.2 = some []) :
    collect fd (evs.zip rs) = enabledMsg := by
  have hno := (initReach_inodes (aufsInit_mounted hmnt hg hs).1).aufsReadOnly
  obtain ⟨hW, hen⟩ := Os.Reach.writeClosed hno hr
  have hR : ReaderRel fd ⟨st.enabled, 0, [], false⟩ st := ⟨rfl, f, hf, hop, hm, fun _ => hpos⟩
  obtain ⟨es, -, hes, hg, hd, hw⟩ := hR.run h hc
  have hcol : collect fd (evs.zip rs) = (Sys.run ⟨st.enabled, 0, [], false⟩ es).got := by simp [hg]
  rw [hcol, Sys.got_of_reads (reads_of_stands hes (hw hno hW hq) hn) (hd.2 (.inr hend)), hen]
  rfl

/-- **`cat` ends**: a descriptor open for reading from the start on an aufs file, read a byte at least and at most
`INT_MAX` bytes at a time among any calls by any tasks that do not close it, whatever they write, reaches the end
within 21 reads: one of its reads returns none. -/
theorem descriptor_read_ends (hf : st.files[fd]? = some (some f)) (hop : f.fOp = .aufs)
    (hm : f.fMode &&& FMODE_READ ≠ 0) (hpos : f.fPos = 0) (h : Os.run s st evs = some (rs, st'))
    (hc : Syscall.close fd ∉ evs) (hn : ∀ n, Syscall.read fd n ∈ evs → 1 ≤ n ∧ n ≤ INT_MAX)
    (h21 : 21 ≤ evs.countP (Syscall.isReadOn fd)) : ∃ p ∈ evs.zip rs, p.1.gave fd p.2 = some [] := by
  have hR : ReaderRel fd ⟨st.enabled, 0, [], false⟩ st := ⟨rfl, f, hf, hop, hm, fun _ => hpos⟩
  have hI : Sys.Inv ⟨st.enabled, 0, [], false⟩ := ⟨rfl, Nat.zero_le _, fun _ _ h => by simp at h⟩
  rcases hR.ends hI rfl h hc hn with hend | hle
  · exact hend
  · -- 21 reads that each moved the offset on cannot fit in 20 bytes
    simp only at hle
    omega

end descriptor

/-- The loading task opens `woman_star/lbb` without capabilities, then reads it while trying to write through the
read-only descriptor. -/
theorem unprivileged_reads_enabled_cat :
    ∃ s rs st', aufsInit false freshEnv 0 (fun _ => freshEnv) = some (0, ⟨true, some (.ok s)⟩) ∧
      Os.Reach s Syscall.NoOverride ⟨enabledInit, [some ⟨2, FMODE_READ, .aufs, 0⟩]⟩ ∧
      Os.run s ⟨enabledInit, [some ⟨2, FMODE_READ, .aufs, 0⟩]⟩
        [.read 0 4, .write 0 (some zeroBuf) 1, .read 0 100, .read 0 1] = some (rs, st') ∧
      collect 0 ([.read 0 4, .write 0 (some zeroBuf) 1, .read 0 100, .read 0 1].zip rs) = enabledMsg := by
  obtain ⟨s, hs, -⟩ := aufsInit_run kernMount_fresh grants_fresh
  have hr : Os.Reach s Syscall.NoOverride ⟨enabledInit, [some ⟨2, FMODE_READ, .aufs, 0⟩]⟩ :=
    Machine.Reach.tail (Machine.Reach.of_init rfl)
      ⟨.open ⟨0, 0, [], false, false, false⟩ ["woman_star", "lbb"] 0 true, _, rfl, sysOpen_lbb_fresh hs⟩
  have h : Os.run s ⟨enabledInit, [some ⟨2, FMODE_READ, .aufs, 0⟩]⟩
      [.read 0 4, .write 0 (some zeroBuf) 1, .read 0 100, .read 0 1] = some (_, _) := rfl
  exact ⟨s, _, _, hs, hr, h, unprivileged_reads_enabled (f := ⟨2, FMODE_READ, .aufs, 0⟩) kernMount_fresh grants_fresh hs hr rfl rfl
    (by decide) rfl h (by simp [Syscall.NoOverride]) (by simp) (by simp) (by decide)⟩

/-- `cat` with 21 one-byte reads, and a write of `'0'` after the tenth. -/
theorem descriptor_read_ends_cat :
    ∃ rs st', Os.run (rootVfs freshInode 0)
        ⟨enabledInit, [some ⟨2, FMODE_READ, .aufs, 0⟩, some ⟨3, FMODE_WRITE, .aufs, 0⟩]⟩
        (List.replicate 10 (Syscall.read 0 1) ++ Syscall.write 1 (some zeroBuf) 1 :: List.replicate 11 (Syscall.read 0 1)) =
          some (rs, st') ∧
      ∃ p ∈ (List.replicate 10 (Syscall.read 0 1) ++ Syscall.write 1 (some zeroBuf) 1 ::
          List.replicate 11 (Syscall.read 0 1)).zip rs, p.1.gave 0 p.2 = some [] := by
  have h : Os.run (rootVfs freshInode 0)
      ⟨enabledInit, [some ⟨2, FMODE_READ, .aufs, 0⟩, some ⟨3, FMODE_WRITE, .aufs, 0⟩]⟩
      (List.replicate 10 (Syscall.read 0 1) ++ Syscall.write 1 (some zeroBuf) 1 :: List.replicate 11 (Syscall.read 0 1)) =
        some (_, _) := rfl
  have hn : ∀ n, Syscall.read 0 n ∈ List.replicate 10 (Syscall.read 0 1) ++ Syscall.write 1 (some zeroBuf) 1 ::
      List.replicate 11 (Syscall.read 0 1) → 1 ≤ n ∧ n ≤ INT_MAX := by
    intro n hm
    obtain rfl : n = 1 := by
      simp at hm
      omega
    decide
  exact ⟨_, _, h, descriptor_read_ends (f := ⟨2, FMODE_READ, .aufs, 0⟩) rfl rfl (by decide) rfl h (by simp) hn
    (by decide)⟩

/-! ## A descriptor on a directory -/

/-- The names a call gave the lister on `fd`: what its `getdents` on `fd` filled in. -/
def Syscall.listed (fd : Nat) : Syscall → Ret → List String
  | .getdents fd' _, .names l => if fd' = fd then l else []
  | _, _ => []

/-- **What the lister on `fd` collects** from a run's calls and what they returned: the names its `getdents` filled
in, in order. -/
def listing (fd : Nat) : List (Syscall × Ret) → List String
  | [] => []
  | (ev, r) :: rest => ev.listed fd r ++ listing fd rest

section directory

variable {s : Vfs} {fd : Nat} {st st' : Os} {g : File} {ev : Syscall} {r : Ret}

theorem Os.dir_stutter (hg : st.files[fd]? = some (some g)) (hop : g.fOp = .simpleDir)
    (hfd : st'.files[fd]? = st.files[fd]?) (hl : ev.listed fd r = []) (hn : ∀ c, ev = .getdents fd c → r ≠ .names []) :
    ∃ g', st'.files[fd]? = some (some g') ∧ g'.dentry = g.dentry ∧ g'.fOp = .simpleDir ∧
      ev.listed fd r ++ (dcacheReaddir s g.dentry).drop g'.fPos = (dcacheReaddir s g.dentry).drop g.fPos ∧
      (∀ c, ev = .getdents fd c → r = .names [] → (dcacheReaddir s g.dentry).drop g'.fPos = []) :=
  ⟨g, hfd.trans hg, rfl, hop, by rw [hl, List.nil_append], fun c he hr => absurd hr (hn c he)⟩

/-- **What one call does to a descriptor on a directory**, which it does not close: the descriptor stays on the same
dentry with the directory operations, what the call listed on it is what it moved its offset past, and a `getdents`
on it that lists nothing finds it at the end. -/
theorem Os.step_dir (hg : st.files[fd]? = some (some g)) (hop : g.fOp = .simpleDir)
    (h : Os.step s st ev = some (r, st')) (hc : ev ≠ .close fd) :
    ∃ g', st'.files[fd]? = some (some g') ∧ g'.dentry = g.dentry ∧ g'.fOp = .simpleDir ∧
      ev.listed fd r ++ (dcacheReaddir s g.dentry).drop g'.fPos = (dcacheReaddir s g.dentry).drop g.fPos ∧
      (∀ c, ev = .getdents fd c → r = .names [] → (dcacheReaddir s g.dentry).drop g'.fPos = []) := by
  cases ev with
  | «open» cred path flags ok =>
    rcases sysOpen_cases h with rfl | ⟨f, -, rfl⟩
    · exact Os.dir_stutter hg hop rfl rfl (by simp)
    · exact Os.dir_stutter hg hop ((fdInstall_firstFree hg).trans hg.symm) rfl (by simp)
  | read fd' n =>
    by_cases hfd : fd' = fd
    · -- `generic_read_dir`
      subst hfd
      obtain ⟨e, he⟩ : ∃ e, sysRead st fd' n = some (.val e, st) := sysRead_dir hg hop
      rw [Os.step, he] at h
      obtain ⟨rfl, rfl⟩ := Prod.mk.inj (Option.some.inj h)
      exact Os.dir_stutter hg hop rfl rfl (by simp)
    · rcases sysRead_cases h with rfl | ⟨f, k, -, rfl⟩
      · exact Os.dir_stutter hg hop rfl rfl (by simp)
      · exact Os.dir_stutter hg hop (List.getElem?_set_ne hfd) rfl (by simp)
  | write fd' b c =>
    rcases sysWrite_cases h with rfl | ⟨f, -, -, -, -, -, rfl⟩
    · exact Os.dir_stutter hg hop rfl rfl (by simp)
    · exact Os.dir_stutter hg hop rfl rfl (by simp)
  | getdents fd' n =>
    by_cases hfd : fd' = fd
    · subst hfd
      rcases sysGetdents_dir hg hop h with ⟨e, rfl, rfl⟩ | ⟨l, rfl, ⟨rest, hrest⟩, hnil, rfl⟩
      · exact Os.dir_stutter hg hop rfl (by simp [Syscall.listed]) (fun _ _ h => by cases h)
      · -- `filldir` took `l`, the names the listing goes on with, and the offset moved past them
        have hpast : (dcacheReaddir s g.dentry).drop (g.fPos + l.length) = rest := by
          rw [← List.drop_drop, ← hrest, List.drop_left]
        refine ⟨_, Os.getElem?_setFile_self hg _, rfl, hop, ?_, fun _ _ hr => ?_⟩
        · simp only [Syscall.listed, if_true]
          rw [hpast, hrest]
        · obtain rfl : l = [] := Ret.names.inj hr
          simpa using hnil rfl
    · have hl : (Syscall.getdents fd' n).listed fd r = [] := by cases r <;> simp [Syscall.listed, hfd]
      have hn : ∀ c, Syscall.getdents fd' n = .getdents fd c → r ≠ .names [] :=
        fun c he => absurd (Syscall.getdents.inj he).1 hfd
      rcases sysGetdents_cases h with rfl | ⟨f, k, -, -, rfl⟩
      · exact Os.dir_stutter hg hop rfl hl hn
      · exact Os.dir_stutter hg hop (List.getElem?_set_ne hfd) hl hn
  | close fd' =>
    have hfd : fd' ≠ fd := fun he => hc (by rw [he])
    have h' : (sysClose st fd').2 = st' := congrArg Prod.snd (Option.some.inj h)
    obtain h | h : (sysClose st fd').2 = st ∨ (sysClose st fd').2 = { st with files := st.files.set fd' none } :=
      sysClose_cases
    · exact Os.dir_stutter hg hop (by rw [← h', h]) rfl (by simp)
    · exact Os.dir_stutter hg hop (by rw [← h', h]; exact List.getElem?_set_ne hfd) rfl (by simp)

/-- **What a run of calls that does not close it does to a descriptor on a directory**: what its `getdents` listed
is what they moved its offset past, and once one of them listed nothing it stands at the end. -/
theorem Os.run_dir : ∀ {evs : List Syscall} {st st' : Os} {rs : List Ret} {g : File},
    st.files[fd]? = some (some g) → g.fOp = .simpleDir → Os.run s st evs = some (rs, st') →
    Syscall.close fd ∉ evs →
    ∃ g', st'.files[fd]? = some (some g') ∧ g'.dentry = g.dentry ∧ g'.fOp = .simpleDir ∧
      listing fd (evs.zip rs) ++ (dcacheReaddir s g.dentry).drop g'.fPos = (dcacheReaddir s g.dentry).drop g.fPos ∧
      ((∃ c, (Syscall.getdents fd c, Ret.names []) ∈ evs.zip rs) → (dcacheReaddir s g.dentry).drop g'.fPos = [])
  | [], st, st', rs, g, hg, hop, h, _ => by
    obtain ⟨rfl, rfl⟩ := Prod.mk.inj (Option.some.inj h)
    exact ⟨g, hg, rfl, hop, by simp [listing], fun ⟨_, h⟩ => absurd h List.not_mem_nil⟩
  | ev :: evs, st, st', rs, g, hg, hop, h, hc => by
    obtain ⟨r, rs', st₁, rfl, hst, hrun⟩ := Os.run_cons_eq_some h
    obtain ⟨g₁, hg₁, hd₁, hop₁, hl₁, he₁⟩ := Os.step_dir hg hop hst (fun he => hc (he ▸ List.mem_cons_self ..))
    obtain ⟨g₂, hg₂, hd₂, hop₂, hl₂, he₂⟩ := Os.run_dir hg₁ hop₁ hrun (fun hm => hc (List.mem_cons_of_mem _ hm))
    rw [hd₁] at hl₂ he₂
    refine ⟨g₂, hg₂, hd₂.trans hd₁, hop₂, ?_, ?_⟩
    · rw [List.zip_cons_cons, listing, List.append_assoc, hl₂, hl₁]
    · -- the end is where the first `getdents` that listed nothing found the offset, and it stays there
      rintro ⟨c, hm⟩
      rw [List.zip_cons_cons] at hm
      rcases List.mem_cons.1 hm with he | hm
      · obtain ⟨he, hr⟩ := Prod.mk.inj he
        rw [he₁ c he.symm hr.symm, List.append_eq_nil_iff] at hl₂
        exact hl₂.2
      · exact he₂ ⟨c, hm⟩

/-- **A directory descriptor lists each entry once**: on a VFS the calls reach, under every run of calls by any tasks
that does not close it, a descriptor open on a directory at offset 0 gets from its `getdents`, in order, the start of
`.`, `..` and the directory's names in the tree, each once, whatever the buffers; and all of it once one of them
lists nothing. -/
theorem directory_lists_once (hs : Reachable s) (hg : st.files[fd]? = some (some g)) (hop : g.fOp = .simpleDir)
    (hpos : g.fPos = 0) {evs : List Syscall} {rs : List Ret} (h : Os.run s st evs = some (rs, st'))
    (hc : Syscall.close fd ∉ evs) {names : List String} (hnd : names.Nodup)
    (hv : ∀ nm, s.view (g.dentry, nm) ≠ none ↔ nm ∈ names) :
    ∃ l, l.Perm names ∧ listing fd (evs.zip rs) <+: "." :: ".." :: l ∧
      ((∃ c, (Syscall.getdents fd c, Ret.names []) ∈ evs.zip rs) → listing fd (evs.zip rs) = "." :: ".." :: l) := by
  obtain ⟨g', -, -, -, hl, he⟩ := Os.run_dir hg hop h hc
  obtain ⟨l, hL, hperm⟩ := listing_of_view hs hnd hv
  rw [hpos, List.drop_zero, hL] at hl
  rw [hL] at he
  refine ⟨l, hperm, ⟨_, hl⟩, fun hend => ?_⟩
  rw [← hl, he hend, List.append_nil]

end directory

/-- `ls woman_star`: a buffer too small for `.`, a `read` of the directory, then two `getdents` into a buffer that
holds every record. -/
theorem directory_lists_once_star :
    ∃ s rs st', aufsInit false freshEnv 0 (fun _ => freshEnv) = some (0, ⟨true, some (.ok s)⟩) ∧
      Os.run s ⟨enabledInit, [some ⟨1, FMODE_READ, .simpleDir, 0⟩]⟩
        [.getdents 0 10, .read 0 5, .getdents 0 32768, .getdents 0 32768] = some (rs, st') ∧
      ∃ l, l.Perm ["lbb", "fbb", "lj1"] ∧
        listing 0 ([.getdents 0 10, .read 0 5, .getdents 0 32768, .getdents 0 32768].zip rs) <+: "." :: ".." :: l ∧
        ((∃ c, (Syscall.getdents 0 c, Ret.names []) ∈
            ([.getdents 0 10, .read 0 5, .getdents 0 32768, .getdents 0 32768] : List Syscall).zip rs) →
          listing 0 ([.getdents 0 10, .read 0 5, .getdents 0 32768, .getdents 0 32768].zip rs) = "." :: ".." :: l) := by
  obtain ⟨s, hs, hr, -, hv⟩ := aufsInit_run kernMount_fresh grants_fresh
  have hv' : s.view = initTree (fun _ => true) := hv
  have hnames : ∀ nm, s.view (1, nm) ≠ none ↔ nm ∈ ["lbb", "fbb", "lj1"] :=
    fun nm => by rw [hv', initTree_all]; simp
  obtain ⟨l, hL, hperm⟩ := listing_of_view hr.reachable (by decide) hnames
  have hf : (⟨enabledInit, [some ⟨1, FMODE_READ, .simpleDir, 0⟩]⟩ : Os).files[0]? =
      some (some ⟨1, FMODE_READ, .simpleDir, 0⟩) := rfl
  have hp : FMODE_READ &&& FMODE_PATH = 0 := by decide
  -- ten bytes hold no record: `filldir` refuses `.`
  have h₁ : sysGetdents s ⟨enabledInit, [some ⟨1, FMODE_READ, .simpleDir, 0⟩]⟩ 0 10 =
      some (.val (-EINVAL), ⟨enabledInit, [some ⟨1, FMODE_READ, .simpleDir, 0⟩]⟩) := by
    have hdot : 10 < direntReclen "." := by decide
    simp [sysGetdents, hp, hL, fillDir, hdot]
  obtain ⟨e, h₂⟩ : ∃ e, sysRead ⟨enabledInit, [some ⟨1, FMODE_READ, .simpleDir, 0⟩]⟩ 0 5 =
      some (.val e, ⟨enabledInit, [some ⟨1, FMODE_READ, .simpleDir, 0⟩]⟩) := sysRead_dir hf rfl
  have hfit : direntsSize ((dcacheReaddir s 1).drop 0) ≤ 32768 := by
    rw [List.drop_zero, hL, direntsSize_perm ((hperm.cons _).cons _)]
    decide
  obtain ⟨st₃, st₄, h₃, h₄⟩ := sysGetdents_twice hf rfl hp hfit
  have h : Os.run s ⟨enabledInit, [some ⟨1, FMODE_READ, .simpleDir, 0⟩]⟩
      [.getdents 0 10, .read 0 5, .getdents 0 32768, .getdents 0 32768] =
        some ([.val (-EINVAL), .val e, .names ((dcacheReaddir s 1).drop 0), .names []], st₄) := by
    simp only [Os.run, Os.step, h₁, h₂, h₃, h₄]
  exact ⟨s, _, _, hs, h, directory_lists_once (g := ⟨1, FMODE_READ, .simpleDir, 0⟩) hr.reachable rfl rfl rfl h
    (by simp) (by decide) hnames⟩

end Aufs
