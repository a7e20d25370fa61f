import SqliteFs.Python.Types
import SqliteFs.Lib.KeyTable

/-!
# Advisory locks in the Python library

The lock manager maps an inode to a list of records of three kinds. A request first makes sure that
the inode has a list, and leaves an empty one behind where it is refused.
-/

namespace SqliteFs

namespace Python

inductive RecordKind
  | posix | ofd | flock
  deriving DecidableEq, Repr

structure Record where
  kind : RecordKind
  type : LockType
  owner : ℤ
  start : ℤ
  length : ℤ
  deriving DecidableEq

/-- Where a range ends; `none` is `float("inf")`. -/
def rangeEnd (start length : ℤ) : Option ℤ := if length = 0 then none else some (start + length)

def overlaps (aStart aLength bStart bLength : ℤ) : Bool :=
  !((rangeEnd aStart aLength).any (· ≤ bStart) || (rangeEnd bStart bLength).any (· ≤ aStart))

/-- The owner's record of a kind that overlaps a range. -/
def Record.held (r : Record) (kind : RecordKind) (owner start length : ℤ) : Bool :=
  r.kind = kind && r.owner = owner && overlaps r.start r.length start length

/-- Another owner's record of a kind that overlaps a range. -/
def Record.foreign (r : Record) (kind : RecordKind) (owner start length : ℤ) : Bool :=
  r.kind = kind && r.owner ≠ owner && overlaps r.start r.length start length

/-- The owner's record of a kind with this very range. -/
def Record.exact (r : Record) (kind : RecordKind) (owner start length : ℤ) : Bool :=
  r.kind = kind && r.owner = owner && r.start = start && r.length = length

/-- An item of `_by_inode`. -/
structure Slot where
  inode : ℕ
  records : List Record
  deriving DecidableEq

instance : Keyed Slot ℕ := ⟨Slot.inode⟩

@[simp] lemma key_slot (s : Slot) : Keyed.key s = s.inode := rfl

structure LockManager where
  byInode : KeyTable Slot
  deriving DecidableEq

namespace LockManager

def new : LockManager := ⟨.empty⟩

/-- `_by_inode.get(inode, [])`. -/
def records (m : LockManager) (inode : ℕ) : List Record :=
  ((m.byInode.find? inode).map Slot.records).getD []

/-- `_by_inode[inode] = records`. -/
def setRecords (m : LockManager) (inode : ℕ) (records : List Record) : LockManager :=
  ⟨m.byInode.put ⟨inode, records⟩⟩

/-- `_by_inode.setdefault(inode, [])`. -/
def setdefault (m : LockManager) (inode : ℕ) : LockManager := m.setRecords inode (m.records inode)

/-- Keep the records that satisfy `keep`, and no empty list. -/
def retain (m : LockManager) (inode : ℕ) (keep : Record → Bool) : LockManager :=
  let remaining := (m.records inode).filter keep
  if remaining ≠ [] then m.setRecords inode remaining
  else ⟨m.byInode.deleteWhere fun s => s.inode = inode⟩

/-- Refuse if one of the `foreign` records or the new lock is exclusive; else put the lock in the
place of the records that satisfy `replaced`. -/
def acquire (m : LockManager) (inode : ℕ) (new : Record) (foreign : Record → Bool)
    (msg : Record → Msg) (replaced : Record → Bool) : Res PUnit × LockManager :=
  match (m.records inode).find? fun r => foreign r
      && (r.type = .exclusive || new.type = .exclusive) with
  | some r => (raise (.lockConflict (msg r)), m)
  | none => (.ok ⟨⟩, m.setRecords inode ((m.records inode).filter (fun r => !replaced r) ++ [new]))

/-- The type of lock that a request is for, or `none` for an unlock. -/
def lockType : LockOp → Option LockType
  | .shared => some .shared
  | .exclusive => some .exclusive
  | .unlock => none

def posixLock (m : LockManager) (inode : ℕ) (pid : ℤ) (op : LockOp) (start length : ℤ) :
    Res PUnit × LockManager :=
  let m := m.setdefault inode
  match lockType op with
  | none => (.ok ⟨⟩, m.retain inode fun r => !r.held .posix pid start length)
  | some type => m.acquire inode ⟨.posix, type, pid, start, length⟩
      (fun r => r.foreign .posix pid start length)
      (fun r => [.lit "posix lock conflict: pid ", .num r.owner, .lit " holds ", .lockType r.type,
        .lit " on [", .num r.start, .lit ", ", .num r.length, .lit ")"])
      fun r => r.exact .posix pid start length

def ofdLock (m : LockManager) (inode : ℕ) (fdId : ℕ) (op : LockOp) (start length : ℤ) :
    Res PUnit × LockManager :=
  let m := m.setdefault inode
  match lockType op with
  | none => (.ok ⟨⟩, m.retain inode fun r => !r.held .ofd fdId start length)
  | some type => m.acquire inode ⟨.ofd, type, fdId, start, length⟩
      (fun r => r.foreign .ofd fdId start length)
      (fun r => [.lit "ofd lock conflict: fd ", .num r.owner, .lit " holds ", .lockType r.type])
      fun r => r.exact .ofd fdId start length

def flock (m : LockManager) (inode : ℕ) (fdId : ℕ) (op : LockOp) : Res PUnit × LockManager :=
  let m := m.setdefault inode
  match lockType op with
  | none => (.ok ⟨⟩, m.retain inode fun r => !(r.kind = .flock && r.owner = fdId))
  | some type => m.acquire inode ⟨.flock, type, fdId, 0, 0⟩
      (fun r => r.kind = .flock && r.owner ≠ fdId)
      (fun r => [.lit "flock lock conflict: fd ", .num r.owner, .lit " holds ", .lockType r.type])
      fun r => r.kind = .flock && r.owner = fdId

/-- What `posix_getlk` and `ofd_getlk` do: report the first record that another owner holds. -/
def getlk (m : LockManager) (inode : ℕ) (kind : RecordKind) (owner start length : ℤ) :
    Option LockQuery :=
  ((m.records inode).find? fun r => r.foreign kind owner start length).map
    fun r => ⟨r.type, r.owner, r.start, r.length⟩

def posixGetlk (m : LockManager) (inode : ℕ) (pid start length : ℤ) : Option LockQuery :=
  m.getlk inode .posix pid start length

def ofdGetlk (m : LockManager) (inode fdId : ℕ) (start length : ℤ) : Option LockQuery :=
  m.getlk inode .ofd fdId start length

def onFdClose (m : LockManager) (inode fdId : ℕ) (pid : ℤ) : LockManager :=
  m.retain inode fun r => !((r.kind = .posix && r.owner = pid)
    || (r.kind = .ofd && r.owner = fdId) || (r.kind = .flock && r.owner = fdId))

end LockManager

end Python

end SqliteFs
