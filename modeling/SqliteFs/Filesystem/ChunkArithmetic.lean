import SqliteFs.Blobs.Arithmetic
import SqliteFs.Filesystem.Machine

/-!
# The arithmetic of transfers

`read_fd` and `write_fd` hand any offset and size on to the arithmetic of chunks, with the size of
chunks that the filesystem was made with. Nobody checks one or the other.
-/

namespace SqliteFs

namespace Filesystem

variable {s : Filesystem}

/-- `read_fd` gets past its checks, with the node `i`. -/
def ReadsFrom (s : Filesystem) (fd i : ℕ) (row : NodeRow) : Prop :=
  ∃ f, s.fdtable.get fd = .ok f ∧ f.Readable ∧ f.inode = i ∧ Nodes.get s.conn i = .ok row

/-- `write_fd` gets past its checks, with the node `i`. -/
def WritesTo (s : Filesystem) (fd i : ℕ) (row : NodeRow) : Prop :=
  s.readonly = false ∧
    ∃ f, s.fdtable.get fd = .ok f ∧ f.Writable ∧ f.inode = i ∧ Nodes.get s.conn i = .ok row

/-- A call that reads or writes through a descriptor. -/
inductive Transfer
  | readFd (fd offset size : ℕ)
  | writeFd (fd offset : ℕ) (data : Bytes)

namespace Transfer

/-- The numbers of the call are `u64`s. -/
def IsU64 : Transfer → Prop
  | .readFd _ offset size => offset < 2 ^ 64 ∧ size < 2 ^ 64
  | .writeFd _ offset data => offset < 2 ^ 64 ∧ data.length < 2 ^ 64

/-- No step of the arithmetic fails, and neither the number of a chunk nor the size of the file turns
negative. -/
def Safe (s : Filesystem) : Transfer → Prop
  | .readFd fd offset size => ∀ i row, s.ReadsFrom fd i row →
      (Blobs.Checking.readRange s.conn i offset size row.size s.chunkSize).isSome
  | .writeFd fd offset data => ∀ i row, s.WritesTo fd i row → ∃ rows newSize,
      Blobs.Checking.writeRange s.conn i data offset row.size s.chunkSize = some (rows, newSize) ∧
        newSize < 2 ^ 63

/-- There is nothing to read or to write, or the chunks have a size, and the range ends in range. -/
def Fits (s : Filesystem) : Transfer → Prop
  | .readFd fd offset size => ∀ i row, s.ReadsFrom fd i row → row.size ≤ offset ∨ size = 0 ∨
      0 < s.chunkSize ∧ offset + size < 2 ^ 64 ∧
        (min (offset + size) row.size - 1) / s.chunkSize < 2 ^ 63
  | .writeFd fd offset data => ∀ i row, s.WritesTo fd i row → row.size < 2 ^ 63 ∧
      (data = [] ∨ 0 < s.chunkSize ∧ offset + data.length < 2 ^ 63)

/-- The arithmetic of a transfer is safe if and only if the transfer fits. -/
theorem safe_iff_fits (transfer : Transfer) : transfer.Safe s ↔ transfer.Fits s := by
  cases transfer with
  | readFd fd offset size =>
    exact forall_congr' fun i => forall_congr' fun row => imp_congr_right fun _ =>
      Blobs.checking_readRange_iff
  | writeFd fd offset data =>
    exact forall_congr' fun i => forall_congr' fun row => imp_congr_right fun _ =>
      Blobs.checking_writeRange_iff

end Transfer

/-- A file `/f` with two bytes. -/
def twoBytes : Filesystem := newFsAfter
  [.create ['/', 'f'] Libc.O_RDWR 0o644, .writeFd 1 0 [65, 66]]

/-- To read all there is behind the first byte overflows. -/
theorem Transfer.not_safe : ¬ ∀ (s : Filesystem) (transfer : Transfer), Reachable s →
    transfer.IsU64 → transfer.Safe s := by
  intro h
  have hfd : twoBytes.fdtable.get 1 = .ok ⟨1, 2, Libc.O_RDWR, 0, 0, 0⟩ := by decide +kernel
  have hrow : Nodes.get twoBytes.conn 2 = .ok ⟨2, .file, 0o644, 0, 0, 2, 0, 0, 0, 1⟩ := by
    decide +kernel
  have hsafe := h twoBytes (.readFd 1 1 (2 ^ 64 - 1)) (reachable_newFsAfter _)
    ⟨by decide, by decide⟩ 2 _ ⟨_, hfd, Or.inr rfl, rfl, hrow⟩
  rcases Blobs.checking_readRange_iff.mp hsafe with hsize | hzero | ⟨-, hsum, -⟩
  · exact absurd hsize (by decide)
  · exact absurd hzero (by decide)
  · exact absurd hsum (by decide)

end Filesystem

end SqliteFs
