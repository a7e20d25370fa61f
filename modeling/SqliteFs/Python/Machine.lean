import SqliteFs.Python.Filesystem
import SqliteFs.Lib.Run

/-!
# Calls and runs of the Python library

A client calls one operation after the other, each as the user of the session or inside
`with fs.as_user(…)`, and may close the filesystem and open it again at any time, which keeps the
database and nothing else.
-/

namespace SqliteFs

open Txn

namespace Python

namespace Filesystem

/-- A public operation with its arguments. -/
inductive Op
  | mkdir (path : Str) (mode : ℤ)
  | rmdir (path : Str)
  | readdir (path : Str)
  | stat (path : Str) (followSymlinks : Bool)
  | exists_ (path : Str)
  | chmod (path : Str) (mode : ℤ) (followSymlinks : Bool)
  | chown (path : Str) (uid gid : ℤ) (followSymlinks : Bool)
  | utimes (path : Str) (atimeNs mtimeNs : Option ℤ) (followSymlinks : Bool)
  | create (path : Str) (mode flags : ℤ)
  | open_ (path : Str) (flags mode : ℤ)
  | closeFd (fd : ℕ)
  | read (fd : ℕ) (size offset : ℤ)
  | write (fd : ℕ) (data : Bytes) (offset : ℤ)
  | truncateFd (fd : ℕ) (size : ℤ)
  | truncate (path : Str) (size : ℤ)
  | fsync (fd : ℕ)
  | unlink (path : Str)
  | symlink (target : Bytes) (linkpath : Str)
  | readlink (path : Str)
  | link (src dst : Str)
  | getxattr (path name : Str)
  | setxattr (path name : Str) (value : Bytes) (flags : ℤ)
  | listxattr (path : Str)
  | removexattr (path name : Str)
  | rename (src dst : Str) (noreplace exchange : Bool)
  | posixLock (fd : ℕ) (op : LockOp) (start length : ℤ)
  | ofdLock (fd : ℕ) (op : LockOp) (start length : ℤ)
  | flock (fd : ℕ) (op : LockOp)
  | posixGetlk (fd : ℕ) (start length : ℤ)
  | ofdGetlk (fd : ℕ) (start length : ℤ)
  | watch (path : Str) (recursive : Bool)
  | closeWatcher (id : ℕ)
  | nextEvent (id : ℕ)
  deriving DecidableEq

/-- What an operation returns. -/
inductive Reply
  | none
  | bool (b : Bool)
  | stat (stat : Stat)
  | dirEntries (entries : List DirEntry)
  | bytes (bytes : Bytes)
  | names (names : List Str)
  | lockQuery (query : Option LockQuery)
  | fd (fd : ℕ)
  | size (size : ℕ)
  | watcher (id : ℕ)
  | event (event : Event)
  deriving DecidableEq

/-- Run `p` and answer with `f` of its result. -/
def answer {α : Type} (f : α → Reply) (p : Action α) : Action Reply := do
  let a ← p
  return f a

def Op.run (env : Env) : Op → Action Reply
  | .mkdir path mode => answer (fun _ => .none) (Filesystem.mkdir env path mode)
  | .rmdir path => answer (fun _ => .none) (Filesystem.rmdir env path)
  | .readdir path => answer .dirEntries (Filesystem.readdir path)
  | .stat path followSymlinks => answer .stat (Filesystem.stat path followSymlinks)
  | .exists_ path => answer .bool (Filesystem.exists_ path)
  | .chmod path mode followSymlinks =>
    answer (fun _ => .none) (Filesystem.chmod env path mode followSymlinks)
  | .chown path uid gid followSymlinks =>
    answer (fun _ => .none) (Filesystem.chown env path uid gid followSymlinks)
  | .utimes path atimeNs mtimeNs followSymlinks =>
    answer (fun _ => .none) (Filesystem.utimes env path atimeNs mtimeNs followSymlinks)
  | .create path mode flags => answer .fd (Filesystem.create env path mode flags)
  | .open_ path flags mode => answer .fd (Filesystem.open_ env path flags mode)
  | .closeFd fd => answer (fun _ => .none) (Filesystem.closeFd env fd)
  | .read fd size offset => answer .bytes (Filesystem.read fd size offset)
  | .write fd data offset => answer .size (Filesystem.write env fd data offset)
  | .truncateFd fd size => answer (fun _ => .none) (Filesystem.truncateFd env fd size)
  | .truncate path size => answer (fun _ => .none) (Filesystem.truncate env path size)
  | .fsync fd => answer (fun _ => .none) (Filesystem.fsync fd)
  | .unlink path => answer (fun _ => .none) (Filesystem.unlink env path)
  | .symlink target linkpath => answer (fun _ => .none) (Filesystem.symlink env target linkpath)
  | .readlink path => answer .bytes (Filesystem.readlink path)
  | .link src dst => answer (fun _ => .none) (Filesystem.link env src dst)
  | .getxattr path name => answer .bytes (Filesystem.getxattr path name)
  | .setxattr path name value flags =>
    answer (fun _ => .none) (Filesystem.setxattr env path name value flags)
  | .listxattr path => answer .names (Filesystem.listxattr path)
  | .removexattr path name => answer (fun _ => .none) (Filesystem.removexattr env path name)
  | .rename src dst noreplace exchange =>
    answer (fun _ => .none) (Filesystem.rename env src dst noreplace exchange)
  | .posixLock fd op start length =>
    answer (fun _ => .none) (Filesystem.posixLock env fd op start length)
  | .ofdLock fd op start length => answer (fun _ => .none) (Filesystem.ofdLock fd op start length)
  | .flock fd op => answer (fun _ => .none) (Filesystem.flock fd op)
  | .posixGetlk fd start length => answer .lockQuery (Filesystem.posixGetlk env fd start length)
  | .ofdGetlk fd start length => answer .lockQuery (Filesystem.ofdGetlk fd start length)
  | .watch path recursive => answer .watcher (Filesystem.watch path recursive)
  | .closeWatcher id => answer (fun _ => .none) (Filesystem.closeWatcher id)
  | .nextEvent id => answer .event (Filesystem.nextEvent id)

/-- Run `p` inside `with fs.as_user(uid, gid)`, which puts the caller back in any case. -/
def asUser {α : Type} (user : Option (ℤ × ℤ)) (p : Action α) : Action α := fun s =>
  match user with
  | none => p s
  | some (uid, gid) =>
    let o := p { s with uid := uid, gid := gid }
    { o with state := { o.state with uid := s.uid, gid := s.gid } }

/-- What a client does: an operation, or `close` and then `open_fs` on the same file. -/
inductive Call
  | op (user : Option (ℤ × ℤ)) (env : Env) (operation : Op)
  | reopen (readonly : Bool) (uid gid : ℤ)

namespace Call

def outcome (s : Filesystem) : Call → Outcome Filesystem Db Halt Reply
  | .op user env operation => asUser user (operation.run env) s
  | .reopen readonly uid gid => ⟨.ok .none, openFs s.conn readonly uid gid, []⟩

def exec (call : Call) (s : Filesystem) : Filesystem := (call.outcome s).state

end Call

/-- A filesystem that has just been made and opened. -/
def Fresh (s : Filesystem) : Prop :=
  ∃ chunkSize ownerUid ownerGid now d readonly uid gid,
    mkfs chunkSize ownerUid ownerGid now = .ok d ∧ s = openFs d readonly uid gid

/-- The states that calls lead to, if each call satisfies `Ok` in the state where it is made. -/
abbrev RunsTo (Ok : Filesystem → Call → Prop) : Filesystem → Prop := Run Fresh Call.exec Ok

/-- The states that any calls lead to. -/
abbrev Reachable : Filesystem → Prop := RunsTo fun _ _ => True

/-- A new filesystem, opened for writing by root. -/
def newFs : Filesystem :=
  openFs { installSchema 65536 with
    nodes := KeyTable.empty.put (rootRow 0 0 0), nodesSeq := ROOT_INODE } false 0 0

lemma fresh_newFs : Fresh newFs := ⟨65536, 0, 0, 0, _, false, 0, 0, rfl, rfl⟩

/-- A call of root's, at time zero. -/
def Call.byRoot (operation : Op) : Call := .op none ⟨0, 1, storable_zero⟩ operation

/-- The new filesystem after some operations of root's. -/
def newFsAfter (operations : List Op) : Filesystem :=
  Run.after Call.exec (operations.map Call.byRoot) newFs

lemma reachable_newFsAfter (operations : List Op) : Reachable (newFsAfter operations) :=
  Run.after_of_forall (fun _ _ => trivial) _ (.start fresh_newFs)

end Filesystem

end Python

end SqliteFs
