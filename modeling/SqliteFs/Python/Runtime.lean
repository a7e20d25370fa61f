import SqliteFs.Python.Types
import SqliteFs.Lib.KeyTable

/-!
# Descriptors and watchers of the Python library

A watcher is registered until it is closed, and keeps the queue of the events that it has not
handed out.
-/

namespace SqliteFs

namespace Python

/-! ### fdtable.py -/

structure FdEntry where
  fd : ℕ
  inode : ℕ
  flags : ℤ
  uid : ℤ
  gid : ℤ
  offset : ℤ
  deriving DecidableEq

instance : Keyed FdEntry ℕ := ⟨FdEntry.fd⟩

@[simp] lemma key_fdEntry (e : FdEntry) : Keyed.key e = e.fd := rfl

/-- `flags & 0o3`. -/
def accessMode (flags : ℤ) : ℤ := flags.land 0o3

structure FdTable where
  entries : KeyTable FdEntry
  nextFd : ℕ
  deriving DecidableEq

namespace FdTable

def new : FdTable := ⟨.empty, 1⟩

def open_ (t : FdTable) (inode : ℕ) (flags uid gid : ℤ) : ℕ × FdTable :=
  (t.nextFd, ⟨t.entries.put ⟨t.nextFd, inode, flags, uid, gid, 0⟩, t.nextFd + 1⟩)

def unknownFd (fd : ℕ) : Exc := .badFileDescriptor [.lit "unknown fd ", .num fd]

def get (t : FdTable) (fd : ℕ) : Res FdEntry := rowOr (t.entries.find? fd) (unknownFd fd)

/-- `close`, for a descriptor that `get` has found. -/
def close (t : FdTable) (fd : ℕ) : FdTable :=
  { t with entries := t.entries.deleteWhere fun e => e.fd = fd }

def openCount (t : FdTable) (inode : ℕ) : ℕ := t.entries.count fun e => e.inode = inode

end FdTable

/-! ### watch.py -/

structure Watcher where
  path : Str
  recursive : Bool
  queue : List Event
  closed : Bool
  deriving DecidableEq

/-- `_parent_of`: the part of `path` before its last `/`, or `/` if nothing is before it. -/
def parentOf (path : Str) : Str :=
  let before := (path.reverse.dropWhile (· ≠ '/')).drop 1
  if path = ['/'] ∨ '/' ∉ path.tail ∨ before = [] then ['/'] else before.reverse

/-- `path.rstrip("/")`. -/
def rstripSlash (path : Str) : Str := (path.reverse.dropWhile (· = '/')).reverse

namespace Watcher

def matches_ (w : Watcher) (event : Event) : Bool :=
  let candidates := event.path :: match event.kind with
    | .move => (event.srcPath.filter (· ≠ [])).toList
    | _ => []
  candidates.any fun candidate =>
    if w.recursive then
      candidate = w.path || (rstripSlash w.path ++ ['/']).isPrefixOf candidate
    else parentOf candidate = w.path

def enqueue (w : Watcher) (event : Event) : Watcher :=
  if w.closed then w else { w with queue := w.queue ++ [event] }

/-- `_emit` to one watcher; a closed one is not registered. -/
def receive (w : Watcher) (event : Event) : Watcher :=
  if ¬ w.closed ∧ w.matches_ event then w.enqueue event else w

end Watcher

end Python

end SqliteFs
