import Mathlib.Data.List.Basic
/-!
# FileOps — `aufs_file_read` and `aufs_file_write`

The files `aufs_init` makes carry `aufs_file_operations`.  A read returns one of two messages through
`simple_read_from_buffer`, the one the global `enabled` chooses when the read is made; a write sets `enabled` from the
first byte of the user's buffer, whatever `count` is, and claims to have written `count` bytes; it loads that byte
with a plain dereference, which oopses on a pointer the kernel may not load from.  All the module's files
share the one flag.
-/
namespace Aufs

/-- `int enabled = 1;` -/
def enabledInit : Int := 1

/-- The C literal `"aufs read enabled\\n"`: the text, a backslash and an `n`. -/
def enabledMsg : List Char := "aufs read enabled\\n".toList

def disabledMsg : List Char := "aufs read disabled\\n".toList

/-- `enabled ? "aufs read enabled\\n" : "aufs read disabled\\n"`. -/
def aufsMsg (enabled : Int) : List Char := if enabled ≠ 0 then enabledMsg else disabledMsg

/-- **`simple_read_from_buffer(to, count, ppos, from, available)`**, into a user buffer that takes every byte:
nothing when the offset is at or past `available` or nothing is asked, else `min count (available - pos)` bytes from
the offset, which moves past them.  The bytes copied (their number is the return value) and the new offset. -/
def simpleReadFromBuffer (count pos : Nat) (src : List Char) : List Char × Nat :=
  if src.length ≤ pos ∨ count = 0 then ([], pos)
  else
    let n := min count (src.length - pos)
    ((src.drop pos).take n, pos + n)

/-- **`aufs_file_read(file, buf, nbytes, ppos)`**: the message `enabled` chooses at this call, from `*ppos`. -/
def aufsFileRead (enabled : Int) (nbytes ppos : Nat) : List Char × Nat :=
  simpleReadFromBuffer nbytes ppos (aufsMsg enabled)

/-- A user buffer the kernel can load from through its pointer: the bytes there, from the first. -/
structure UserBuf where
  bytes : List UInt8
  readable : bytes ≠ []

def UserBuf.head (b : UserBuf) : UInt8 := b.bytes.head b.readable

/-- **`aufs_file_write(file, buffer, count, ppos)`**, with `buffer` as the plain load `*buffer` sees it: `none` where
that load faults in the kernel (a `NULL` or unmapped pointer, or any user pointer while SMAP or PAN keeps the kernel
out of user pages), since the function reads the byte without `get_user`, and the kernel oopses.  Else
`res = *buffer - '0'`, read whatever `count` is; `enabled` becomes 1 when `res` is not zero and 0 when it is; the
return value is `count`.  The return value and the new `enabled`. -/
def aufsFileWrite (buffer : Option UserBuf) (count : Nat) : Option (Int × Int) :=
  match buffer with
  | none => none
  | some b =>
    let res : Int := (b.head.toNat : Int) - ('0'.toNat : Int)
    some (count, if res ≠ 0 then 1 else 0)

theorem enabledMsg_length : enabledMsg.length = 19 := by decide

theorem disabledMsg_length : disabledMsg.length = 20 := by decide

theorem aufsMsg_length_le (enabled : Int) : (aufsMsg enabled).length ≤ 20 := by
  unfold aufsMsg
  split
  · rw [enabledMsg_length]; omega
  · exact Nat.le_of_eq disabledMsg_length

/-- **One formula for every read**: the bytes from the offset, at most `count` of them, and the offset moved by their
number. -/
theorem simpleReadFromBuffer_eq (count pos : Nat) (src : List Char) :
    simpleReadFromBuffer count pos src =
      ((src.drop pos).take count, pos + ((src.drop pos).take count).length) := by
  unfold simpleReadFromBuffer
  split
  · rename_i h
    rcases h with h | h
    · simp [List.drop_eq_nil_of_le h]
    · simp [h]
  · have htake : (src.drop pos).take (min count (src.length - pos)) = (src.drop pos).take count := by
      rw [← List.length_drop, ← List.take_eq_take_min]
    simp only [htake, List.length_take, List.length_drop]

/-- **A readable buffer**: the write returns `count`, and clears the flag exactly when the first byte is `'0'`. -/
@[simp] theorem aufsFileWrite_some (b : UserBuf) (count : Nat) :
    aufsFileWrite (some b) count = some ((count : Int), if b.head = 48 then 0 else 1) := by
  unfold aufsFileWrite
  by_cases h : b.head = 48
  · simp [h]
  · have h' : (b.head.toNat : Int) - 48 ≠ 0 := by
      intro h₀
      apply h
      have : b.head.toNat = 48 := by omega
      exact UInt8.toNat_inj.1 this
    simp [h, h']

end Aufs
