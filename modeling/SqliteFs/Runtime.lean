import SqliteFs.Types
import SqliteFs.Lib.KeyTable

/-!
# Descriptors and watchers

The parts of a mounted filesystem that live in memory only, next to the lock manager: the table
of open descriptors and the registry of watchers. A slot of the registry records the events sent
to its watcher, oldest first.
-/

namespace SqliteFs

/-! ### fdtable -/

structure FdEntry where
  fd : ℕ
  inode : ℕ
  flags : Flags
  uid : UInt32
  gid : UInt32
  offset : ℕ
  deriving DecidableEq

instance : Keyed FdEntry ℕ := ⟨FdEntry.fd⟩

@[simp] lemma key_fdEntry (e : FdEntry) : Keyed.key e = e.fd := rfl

/-- The descriptor may read. -/
def FdEntry.Readable (f : FdEntry) : Prop :=
  f.flags &&& Libc.O_ACCMODE = Libc.O_RDONLY ∨ f.flags &&& Libc.O_ACCMODE = Libc.O_RDWR

/-- The descriptor may write. -/
def FdEntry.Writable (f : FdEntry) : Prop :=
  f.flags &&& Libc.O_ACCMODE = Libc.O_WRONLY ∨ f.flags &&& Libc.O_ACCMODE = Libc.O_RDWR

structure FdTable where
  entries : KeyTable FdEntry
  nextFd : ℕ
  deriving DecidableEq

namespace FdTable

def new : FdTable := ⟨.empty, 1⟩

def open_ (t : FdTable) (inode : ℕ) (flags : Flags) (uid gid : UInt32) : ℕ × FdTable :=
  (t.nextFd, ⟨t.entries.put ⟨t.nextFd, inode, flags, uid, gid, 0⟩, t.nextFd + 1⟩)

def unknownFd (fd : ℕ) : Error := .badFileDescriptor [.lit "unknown fd ", .num fd]

def get (t : FdTable) (fd : ℕ) : Res FdEntry := okOr (t.entries.find? fd) (unknownFd fd)

def close (t : FdTable) (fd : ℕ) : Res ℕ × FdTable :=
  match t.entries.find? fd with
  | some e => (.ok e.inode, { t with entries := t.entries.deleteWhere fun e => e.fd = fd })
  | none => (err (unknownFd fd), t)

def openCount (t : FdTable) (inode : ℕ) : ℕ := t.entries.count fun e => e.inode = inode

variable {t : FdTable} {fd inode : ℕ}

lemma openCount_eq_zero : t.openCount inode = 0 ↔ ∀ e ∈ t.entries, e.inode ≠ inode := by
  simp [openCount, KeyTable.count_eq_zero]

lemma exists_of_openCount (h : t.openCount inode ≠ 0) : ∃ f ∈ t.entries, f.inode = inode := by
  by_contra hnone
  exact h (openCount_eq_zero.mpr fun f hf hfi => hnone ⟨f, hf, hfi⟩)

/-- Opening adds a descriptor, and replaces none but an unused number's. -/
lemma mem_open {flags : Flags} {uid gid : UInt32} {f : FdEntry} :
    f ∈ (t.open_ inode flags uid gid).2.entries ↔
      f = ⟨t.nextFd, inode, flags, uid, gid, 0⟩ ∨ (f ∈ t.entries ∧ f.fd ≠ t.nextFd) :=
  KeyTable.mem_put

lemma mem_close {f : FdEntry} : f ∈ (t.close fd).2.entries ↔ f ∈ t.entries ∧ f.fd ≠ fd := by
  unfold close
  cases h : t.entries.find? fd with
  | none => exact ⟨fun hf => ⟨hf, KeyTable.find?_eq_none.mp h f hf⟩, And.left⟩
  | some e =>
    refine KeyTable.mem_deleteWhere.trans (and_congr_right fun _ => ?_)
    rw [decide_eq_false_iff_not]

lemma nextFd_close : (t.close fd).2.nextFd = t.nextFd := by
  unfold close
  split <;> rfl

@[simp] lemma get_eq_ok {e : FdEntry} : t.get fd = .ok e ↔ t.entries.find? fd = some e := okOr_eq_ok

end FdTable

/-! ### watch -/

structure WatchSlot where
  id : ℕ
  path : Str
  recursive : Bool
  tx : List Event
  deriving DecidableEq

structure WatchRegistry where
  nextId : ℕ
  slots : List WatchSlot
  deriving DecidableEq

/-- The part of `p` before its last `/`, or `/` if nothing is before it. -/
def parentOfPath (p : Str) : Str :=
  let before := (p.reverse.dropWhile (· ≠ '/')).drop 1
  if before = [] then ['/'] else before.reverse

def pathMatches (eventPath watched : Str) (recursive : Bool) : Bool :=
  if recursive then
    watched.isPrefixOf eventPath
      && (eventPath.length = watched.length || eventPath[watched.length]? = some '/'
        || watched = ['/'])
      && eventPath ≠ watched
  else parentOfPath eventPath = watched

def matchesSlot (slot : WatchSlot) (ev : Event) : Bool :=
  let paths := match ev.kind with
    | .move =>
      let v := ev.srcPath.toList ++ ev.dstPath.toList
      if v = [] then [ev.path] else v
    | _ => [ev.path]
  paths.any fun p => pathMatches p slot.path slot.recursive

namespace WatchRegistry

def new : WatchRegistry := ⟨1, []⟩

def subscribe (reg : WatchRegistry) (path : Str) (recursive : Bool) : ℕ × WatchRegistry :=
  (reg.nextId, ⟨reg.nextId + 1, reg.slots ++ [⟨reg.nextId, path, recursive, []⟩]⟩)

def emit (reg : WatchRegistry) (ev : Event) : WatchRegistry :=
  { reg with
    slots := reg.slots.map fun slot =>
      if matchesSlot slot ev then { slot with tx := slot.tx ++ [ev] } else slot }

/-- `Drop` of a watcher. -/
def drop (reg : WatchRegistry) (slotId : ℕ) : WatchRegistry :=
  { reg with slots := reg.slots.filter fun s => s.id ≠ slotId }

end WatchRegistry

end SqliteFs
