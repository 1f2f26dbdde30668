import Aufs.FileOps
/-!
# Reader — one reader and any writers, interleaved

One reader's reads of a module file, among writes on any of them: each write sets the one flag `enabled`, and the
reader starts at offset 0 and keeps its offset from read to read until a read returns 0 (`Sys`, `Sys.step`).  The flag is read afresh by every read, so under every interleaving the reader's bytes are,
position by position, bytes of one message or the other (`Sys.inv_run`), but a write between two reads splices
the two (`reader_gets_mix`).  With no write between the first read and the last, the reader gets the whole message the
last write before it chose (`reader_gets_one_message`); and a reader that asks for at least a byte each time is done
within 21 reads (`reader_finishes`).
-/
namespace Aufs

inductive Event where
  | write (buffer : UserBuf) (count : Nat)
  | read (nbytes : Nat)

/-- The flag, and the reader: its offset `*ppos`, the bytes it got, and whether a read returned 0. -/
structure Sys where
  enabled : Int
  pos : Nat
  got : List Char
  done : Bool

def Sys.init : Sys := ⟨enabledInit, 0, [], false⟩

/-- **One event.**  A write from a buffer the kernel reads sets the flag as `aufs_file_write` does; a read of the
reader, until one returned 0, appends what it got and moves its offset. -/
def Sys.step (σ : Sys) : Event → Sys
  | .write b c => { σ with enabled := ((aufsFileWrite (some b) c).map Prod.snd).getD σ.enabled }
  | .read n =>
    if σ.done then σ
    else
      let r := aufsFileRead σ.enabled n σ.pos
      if r.1.isEmpty then { σ with done := true } else { σ with got := σ.got ++ r.1, pos := r.2 }

def Sys.run (σ : Sys) (evs : List Event) : Sys := evs.foldl Sys.step σ

@[simp] theorem Sys.run_nil (σ : Sys) : σ.run [] = σ := rfl

@[simp] theorem Sys.run_cons (σ : Sys) (ev : Event) (evs : List Event) : σ.run (ev :: evs) = (σ.step ev).run evs :=
  rfl

theorem Sys.run_append (σ : Sys) (evs evs' : List Event) : σ.run (evs ++ evs') = (σ.run evs).run evs' :=
  List.foldl_append

theorem Sys.step_read (σ : Sys) (n : Nat) (hd : σ.done = false) :
    σ.step (.read n) =
      let b := ((aufsMsg σ.enabled).drop σ.pos).take n
      if b.isEmpty then { σ with done := true } else { σ with got := σ.got ++ b, pos := σ.pos + b.length } := by
  simp only [Sys.step, hd, Bool.false_eq_true, if_false, aufsFileRead, simpleReadFromBuffer_eq]

/-! ## Under every interleaving -/

theorem aufsMsg_getElem? {enabled : Int} {i : Nat} {c : Char} (h : (aufsMsg enabled)[i]? = some c) :
    enabledMsg[i]? = some c ∨ disabledMsg[i]? = some c := by
  unfold aufsMsg at h
  split at h
  · exact .inl h
  · exact .inr h

/-- **What holds under every interleaving**: the reader holds as many bytes as its offset, at most 20, and each is
the byte at its position of one message or the other. -/
def Sys.Inv (σ : Sys) : Prop :=
  σ.got.length = σ.pos ∧ σ.pos ≤ 20 ∧
    ∀ (i : Nat) (c : Char), σ.got[i]? = some c → enabledMsg[i]? = some c ∨ disabledMsg[i]? = some c

theorem Sys.inv_init : Sys.init.Inv := ⟨rfl, by decide, fun _ _ h => by simp [Sys.init] at h⟩

theorem Sys.Inv.step {σ : Sys} (hI : σ.Inv) (ev : Event) : (σ.step ev).Inv := by
  obtain ⟨hlen, hle, hbytes⟩ := hI
  cases ev with
  | write b c => exact ⟨hlen, hle, hbytes⟩
  | read n =>
    cases hd : σ.done
    · rw [σ.step_read n hd]
      dsimp only
      split
      · exact ⟨hlen, hle, hbytes⟩
      · -- the new bytes sit at the offsets they were read from
        have hb : (((aufsMsg σ.enabled).drop σ.pos).take n).length ≤ (aufsMsg σ.enabled).length - σ.pos := by
          simp only [List.length_take, List.length_drop]
          omega
        refine ⟨by simp [hlen], ?_, fun i c h => ?_⟩
        · show σ.pos + _ ≤ 20
          have := aufsMsg_length_le σ.enabled
          omega
        · rw [List.getElem?_append] at h
          split at h
          · exact hbytes i c h
          · rename_i hi
            rw [List.getElem?_take, List.getElem?_drop] at h
            split at h
            · rw [hlen, Nat.add_sub_cancel' (by omega)] at h
              exact aufsMsg_getElem? h
            · cases h
    · simp only [Sys.step, hd, if_true]
      exact ⟨hlen, hle, hbytes⟩

theorem Sys.Inv.run {σ : Sys} (hI : σ.Inv) : ∀ evs, (σ.run evs).Inv := by
  intro evs
  induction evs generalizing σ with
  | nil => exact hI
  | cons ev evs ih => exact ih (hI.step ev)

/-- **Every interleaving gives the reader bytes of one message or the other, each at its own offset.** -/
theorem Sys.inv_run (evs : List Event) : (Sys.init.run evs).Inv := Sys.inv_init.run evs

def zeroBuf : UserBuf := ⟨[48], List.cons_ne_nil _ _⟩

/-- **A write between two reads splices the messages**: eleven bytes of the enabled one, then the disabled one from
offset 11. -/
theorem reader_gets_mix :
    (Sys.init.run [.read 11, .write zeroBuf 1, .read 100, .read 100]).done = true ∧
      (Sys.init.run [.read 11, .write zeroBuf 1, .read 100, .read 100]).got = "aufs read eisabled\\n".toList ∧
      "aufs read eisabled\\n".toList ≠ enabledMsg ∧ "aufs read eisabled\\n".toList ≠ disabledMsg := by
  decide

/-! ## A reader no write interrupts -/

theorem Sys.run_writes (ws : List (UserBuf × Nat)) (σ : Sys) :
    σ.run (ws.map (fun w => Event.write w.1 w.2)) =
      { σ with enabled := (ws.getLast?.map (fun w => if w.1.head = 48 then 0 else 1)).getD σ.enabled } := by
  induction ws generalizing σ with
  | nil => rfl
  | cons w ws ih =>
    rw [List.map_cons, Sys.run_cons, ih, List.getLast?_cons]
    cases ws.getLast? <;> simp [Sys.step]

/-- While the flag stays, the reader holds the current message up to its offset, and is done only at its end. -/
def Sys.ReadInv (σ : Sys) : Prop :=
  σ.got = (aufsMsg σ.enabled).take σ.pos ∧ σ.pos ≤ (aufsMsg σ.enabled).length ∧
    (σ.done = true → σ.pos = (aufsMsg σ.enabled).length)

theorem Sys.ReadInv.step {σ : Sys} (hR : σ.ReadInv) {n : Nat} (hn : 1 ≤ n) : (σ.step (.read n)).ReadInv := by
  obtain ⟨hgot, hle, hdone⟩ := hR
  cases hd : σ.done
  · rw [σ.step_read n hd]
    dsimp only
    split
    · -- a read that returns 0 asked for a byte, so the offset is at the end
      rename_i he
      simp only [List.isEmpty_iff, List.take_eq_nil_iff, List.drop_eq_nil_iff] at he
      refine ⟨hgot, hle, fun _ => ?_⟩
      show σ.pos = (aufsMsg σ.enabled).length
      omega
    · refine ⟨?_, ?_, fun h => by simp [hd] at h⟩
      · show σ.got ++ ((aufsMsg σ.enabled).drop σ.pos).take n =
          (aufsMsg σ.enabled).take (σ.pos + (((aufsMsg σ.enabled).drop σ.pos).take n).length)
        rw [hgot, List.take_add, List.length_take, ← List.take_eq_take_min]
      · show σ.pos + _ ≤ _
        simp only [List.length_take, List.length_drop]
        omega
  · simp only [Sys.step, hd, if_true]
    exact ⟨hgot, hle, hdone⟩

theorem Sys.ReadInv.run_reads {σ : Sys} (hR : σ.ReadInv) :
    ∀ ns : List Nat, (∀ n ∈ ns, 1 ≤ n) → (σ.run (ns.map Event.read)).ReadInv := by
  intro ns hn
  induction ns generalizing σ with
  | nil => exact hR
  | cons n ns ih =>
    rw [List.map_cons, Sys.run_cons]
    exact ih (hR.step (hn n (List.mem_cons_self ..))) (fun m hm => hn m (List.mem_cons_of_mem _ hm))

theorem Sys.run_done {σ : Sys} (hd : σ.done = true) : ∀ evs, (σ.run evs).got = σ.got ∧ (σ.run evs).done = true := by
  intro evs
  induction evs generalizing σ with
  | nil => exact ⟨rfl, hd⟩
  | cons ev evs ih =>
    rw [Sys.run_cons]
    cases ev with
    | write b c => exact ih (σ := σ.step (.write b c)) hd
    | read n =>
      have hs : σ.step (.read n) = σ := by simp [Sys.step, hd]
      rw [hs]
      exact ih hd

/-- **A reader no write interrupts gets one whole message**: the disabled one exactly when the last write before its
first read, of any count, had `'0'` as its first byte. -/
theorem reader_gets_one_message (ws : List (UserBuf × Nat)) (ns : List Nat) (post : List Event)
    (hn : ∀ n ∈ ns, 1 ≤ n)
    (hdone : (Sys.init.run (ws.map (fun w => Event.write w.1 w.2) ++ ns.map Event.read)).done = true) :
    (Sys.init.run (ws.map (fun w => Event.write w.1 w.2) ++ ns.map Event.read ++ post)).got =
      if ws.getLast?.map (fun w => w.1.head) = some 48 then disabledMsg else enabledMsg := by
  set σ₀ := Sys.init.run (ws.map (fun w => Event.write w.1 w.2)) with hσ₀
  have hR₀ : σ₀.ReadInv := by
    rw [hσ₀, Sys.run_writes]
    exact ⟨rfl, Nat.zero_le _, fun h => by cases h⟩
  rw [Sys.run_append] at hdone
  rw [Sys.run_append, Sys.run_append, (Sys.run_done hdone post).1]
  obtain ⟨hgot, -, hend⟩ := hR₀.run_reads ns hn
  -- reads leave the flag as the writes set it
  have hflag : ∀ (τ : Sys) (ms : List Nat), (τ.run (ms.map Event.read)).enabled = τ.enabled := by
    intro τ ms
    induction ms generalizing τ with
    | nil => rfl
    | cons m ms ih =>
      rw [List.map_cons, Sys.run_cons, ih]
      simp only [Sys.step]
      split
      · rfl
      · split <;> rfl
  rw [hgot, hend hdone, List.take_length, hflag, hσ₀, Sys.run_writes]
  dsimp only
  cases hw : ws.getLast? with
  | none => rfl
  | some w =>
    simp only [Option.map_some, Option.getD_some, Option.some.injEq]
    by_cases h : w.1.head = 48
    · simp [h, aufsMsg]
    · simp [h, aufsMsg]

theorem reader_gets_one_message_zero :
    (∀ n ∈ [4, 100, 1], 1 ≤ n) ∧
      (Sys.init.run ([(zeroBuf, 0)].map (fun w => Event.write w.1 w.2) ++ [4, 100, 1].map Event.read)).done = true ∧
      (Sys.init.run ([(zeroBuf, 0)].map (fun w => Event.write w.1 w.2) ++ [4, 100, 1].map Event.read ++ [])).got =
        disabledMsg :=
  ⟨by decide, by decide, reader_gets_one_message [(zeroBuf, 0)] [4, 100, 1] [] (by decide) (by decide)⟩

/-! ## The reader finishes -/

def readCount : List Event → Nat
  | [] => 0
  | .read _ :: evs => readCount evs + 1
  | .write _ _ :: evs => readCount evs

/-- Each read either ends the reader or moves it on by a byte at least. -/
theorem Sys.run_progress :
    ∀ (evs : List Event) (σ : Sys), (∀ n, Event.read n ∈ evs → 1 ≤ n) →
      (σ.run evs).done = true ∨ σ.pos + readCount evs ≤ (σ.run evs).pos := by
  intro evs
  induction evs with
  | nil => exact fun σ _ => .inr (Nat.le_refl _)
  | cons ev evs ih =>
    intro σ hn
    have hn' : ∀ n, Event.read n ∈ evs → 1 ≤ n := fun n h => hn n (List.mem_cons_of_mem _ h)
    rw [Sys.run_cons]
    cases ev with
    | write b c => exact ih _ hn'
    | read n =>
      have h1 : 1 ≤ n := hn n (List.mem_cons_self ..)
      cases hd : σ.done
      · rw [σ.step_read n hd]
        dsimp only
        split
        · exact .inl (Sys.run_done rfl evs).2
        · rename_i hne
          have hpos : 1 ≤ (((aufsMsg σ.enabled).drop σ.pos).take n).length := by
            cases hb : ((aufsMsg σ.enabled).drop σ.pos).take n with
            | nil => rw [hb] at hne; exact absurd rfl hne
            | cons _ _ => simp
          rcases ih _ hn' with h | h
          · exact .inl h
          · right
            simp only [readCount] at h ⊢
            omega
      · have hs : σ.step (.read n) = σ := by simp [Sys.step, hd]
        rw [hs]
        exact .inl (Sys.run_done hd evs).2

/-- **A reader that asks for a byte at least each time is done within 21 reads**, whatever writes come between. -/
theorem reader_finishes (evs : List Event) (hn : ∀ n, Event.read n ∈ evs → 1 ≤ n) (h : 21 ≤ readCount evs) :
    (Sys.init.run evs).done = true := by
  rcases Sys.run_progress evs Sys.init hn with hd | hp
  · exact hd
  · have hle := (Sys.inv_run evs).2.1
    have h0 : Sys.init.pos = 0 := rfl
    omega

theorem reader_finishes_21 :
    (∀ n, Event.read n ∈ List.replicate 21 (Event.read 1) → 1 ≤ n) ∧ 21 ≤ readCount (List.replicate 21 (.read 1)) ∧
      (Sys.init.run (List.replicate 21 (.read 1))).done = true := by
  have hn : ∀ n, Event.read n ∈ List.replicate 21 (Event.read 1) → 1 ≤ n := by
    intro n h
    obtain rfl := Event.read.inj (List.eq_of_mem_replicate h)
    exact Nat.le_refl 1
  exact ⟨hn, by decide, reader_finishes _ hn (by decide)⟩

end Aufs
