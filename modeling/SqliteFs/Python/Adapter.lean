import SqliteFs.Python.Filesystem
import SqliteFs.Fuse.Adapter

/-!
# Reading and writing in the adapter of the Python library

The adapter does not call `Filesystem.read` and `Filesystem.write`. It works on the tables itself,
with the descriptor that the kernel hands it, and answers with an error number where something is
raised.
-/

namespace SqliteFs

open Txn

namespace Python

/-- The error number of an exception: that of its class in `errors.py`, or `EIO`. -/
def Exc.errno : Exc → Errno
  | pathSyntaxError _ => Libc.EINVAL
  | nameTooLong _ => Libc.ENAMETOOLONG
  | notFound _ => Libc.ENOENT
  | alreadyExists _ => Libc.EEXIST
  | notADirectory _ => Libc.ENOTDIR
  | isADirectory _ => Libc.EISDIR
  | directoryNotEmpty _ => Libc.ENOTEMPTY
  | permissionDenied _ => Libc.EACCES
  | readOnlyFilesystem _ => Libc.EROFS
  | invalidXattr _ => Libc.EINVAL
  | lockConflict _ => Libc.EAGAIN
  | badFileDescriptor _ => Libc.EBADF
  | symlinkLoop _ => Libc.ELOOP
  | invalidArgument _ => Libc.EINVAL
  | integrityError | operationalError | overflowError | zeroDivisionError | typeError
  | assertionError _ | stopIteration => Libc.EIO

namespace Adapter

open Python.Filesystem

/-- The `try` block of a request: what is raised becomes the number of a `FUSEError`. -/
def answering {α : Type} (p : Action α) : Action (Except Errno α) := fun s =>
  match p s with
  | ⟨.ok a, s', commits⟩ => ⟨.ok (.ok a), s', commits⟩
  | ⟨.error (.raised e), s', commits⟩ => ⟨.ok (.error e.errno), s', commits⟩
  | ⟨.error .diverge, s', commits⟩ => ⟨.error .diverge, s', commits⟩

/-- A block that writes. The connection of a read-only filesystem was opened with `mode=ro`, and
refuses the first of its writes. What the block raises before that is answered like the refusal. -/
def writing (readonly : Bool) (b : Sql PUnit) : Sql PUnit := do
  b
  Body.ask fun _ => check (readonly = false) .operationalError

def read (fh : ℕ) (off size : ℤ) : Action (Except Errno Bytes) := answering do
  let entry ← ask fun s => s.fdTable.get fh
  let node ← getNode entry.inode
  ask fun s => Blobs.readRange s.conn entry.inode off size node.size s.chunkSizeVal

def write (env : Env) (fh : ℕ) (off : ℤ) (buf : Bytes) : Action (Except Errno ℕ) := answering do
  let entry ← ask fun s => s.fdTable.get fh
  let node ← getNode entry.inode
  let (readonly, chunkSize) ← ask fun s => .ok (s.readonly, s.chunkSizeVal)
  withConn (writing readonly (writeBody env entry.inode buf off node.size chunkSize))
  return buf.length

end Adapter

end Python

end SqliteFs
