import SqliteFs.Filesystem.Basic
import SqliteFs.Lib.Run

/-!
# Calls and runs

A client calls one operation after the other, on behalf of any user, and may close the filesystem
and open it again at any time, which keeps the database and nothing else.
-/

namespace SqliteFs

open Txn

namespace Filesystem

/-- A public operation with its arguments. -/
inductive Op
  | pathOfInode (inode : ℕ)
  | stat (path : Str)
  | readdir (path : Str)
  | readFd (fd offset size : ℕ)
  | readlink (path : Str)
  | getxattr (path name : Str)
  | listxattr (path : Str)
  | posixGetlk (fd : ℕ) (pid : ℤ) (start length : ℕ)
  | ofdGetlk (fd start length : ℕ)
  | flush (fd : ℕ)
  | fsync (fd : ℕ)
  | fsyncdir (path : Str)
  | mkdir (path : Str) (mode : UInt32)
  | rmdir (path : Str)
  | create (path : Str) (flags : Flags) (mode : UInt32)
  | open_ (path : Str) (flags : Flags)
  | writeFd (fd offset : ℕ) (data : Bytes)
  | closeFd (fd : ℕ)
  | unlink (path : Str)
  | symlink (target : Bytes) (path : Str)
  | link (target linkPath : Str)
  | rename (src dst : Str)
  | chmod (path : Str) (mode : UInt32)
  | chown (path : Str) (uid gid : Option UInt32)
  | utimes (path : Str) (atimeNs mtimeNs : Option ℤ)
  | setxattr (path name : Str) (value : Bytes) (flags : Xattrs.XattrFlags)
  | removexattr (path name : Str)
  | posixLock (fd : ℕ) (pid : ℤ) (op : LockOp) (start length : ℕ) (wait : Bool)
  | ofdLock (fd : ℕ) (op : LockOp) (start length : ℕ) (wait : Bool)
  | flock (fd : ℕ) (op : FlockOp) (wait : Bool)
  | watch (path : Str) (recursive : Bool)
  | unwatch (slotId : ℕ)
  deriving DecidableEq

/-- What an operation returns. -/
inductive Reply
  | unit
  | path (path : Option Str)
  | stat (stat : Stat)
  | dirEntries (entries : List DirEntry)
  | bytes (bytes : Bytes)
  | names (names : List Str)
  | lockQuery (query : Option LockQuery)
  | fd (fd : ℕ)
  | size (size : ℕ)
  | slot (slotId : ℕ)
  deriving DecidableEq

/-- Run `p` and answer with `f` of its result. -/
def answer {α : Type} (f : α → Reply) (p : Action α) : Action Reply := do
  let a ← p
  return f a

def Op.run (clock : Clock) : Op → Action Reply
  | .pathOfInode inode => answer .path (Filesystem.pathOfInode inode)
  | .stat path => answer .stat (Filesystem.stat path)
  | .readdir path => answer .dirEntries (Filesystem.readdir path)
  | .readFd fd offset size => answer .bytes (Filesystem.readFd fd offset size)
  | .readlink path => answer .bytes (Filesystem.readlink path)
  | .getxattr path name => answer .bytes (Filesystem.getxattr path name)
  | .listxattr path => answer .names (Filesystem.listxattr path)
  | .posixGetlk fd pid start length =>
    answer .lockQuery (Filesystem.posixGetlk fd pid start length)
  | .ofdGetlk fd start length => answer .lockQuery (Filesystem.ofdGetlk fd start length)
  | .flush fd => answer (fun _ => .unit) (Filesystem.flush fd)
  | .fsync fd => answer (fun _ => .unit) (Filesystem.fsync fd)
  | .fsyncdir path => answer (fun _ => .unit) (Filesystem.fsyncdir path)
  | .mkdir path mode => answer (fun _ => .unit) (Filesystem.mkdir clock path mode)
  | .rmdir path => answer (fun _ => .unit) (Filesystem.rmdir clock path)
  | .create path flags mode => answer .fd (Filesystem.create clock path flags mode)
  | .open_ path flags => answer .fd (Filesystem.open_ clock path flags)
  | .writeFd fd offset data => answer .size (Filesystem.writeFd clock fd offset data)
  | .closeFd fd => answer (fun _ => .unit) (Filesystem.closeFd fd)
  | .unlink path => answer (fun _ => .unit) (Filesystem.unlink clock path)
  | .symlink target path => answer (fun _ => .unit) (Filesystem.symlink clock target path)
  | .link target linkPath => answer (fun _ => .unit) (Filesystem.link clock target linkPath)
  | .rename src dst => answer (fun _ => .unit) (Filesystem.rename clock src dst)
  | .chmod path mode => answer (fun _ => .unit) (Filesystem.chmod clock path mode)
  | .chown path uid gid => answer (fun _ => .unit) (Filesystem.chown clock path uid gid)
  | .utimes path atimeNs mtimeNs =>
    answer (fun _ => .unit) (Filesystem.utimes clock path atimeNs mtimeNs)
  | .setxattr path name value flags =>
    answer (fun _ => .unit) (Filesystem.setxattr clock path name value flags)
  | .removexattr path name => answer (fun _ => .unit) (Filesystem.removexattr clock path name)
  | .posixLock fd pid op start length wait =>
    answer (fun _ => .unit) (Filesystem.posixLock fd pid op start length wait)
  | .ofdLock fd op start length wait =>
    answer (fun _ => .unit) (Filesystem.ofdLock fd op start length wait)
  | .flock fd op wait => answer (fun _ => .unit) (Filesystem.flock fd op wait)
  | .watch path recursive => answer .slot (Filesystem.watch path recursive)
  | .unwatch slotId => answer (fun _ => .unit) (Filesystem.unwatch slotId)

/-- Run `p` under the guard that `as_user` returns: as another caller, who is gone when it is
dropped. -/
def asUser {α : Type} (user : Option (UInt32 × UInt32)) (p : Action α) : Action α := fun s =>
  match user with
  | none => p s
  | some (uid, gid) =>
    let o := p { s with callerUid := uid, callerGid := gid }
    { o with state := { o.state with callerUid := s.callerUid, callerGid := s.callerGid } }

/-- What a client does: an operation, or `close` and then `open_fs` on the same file. -/
inductive Call
  | op (user : Option (UInt32 × UInt32)) (clock : Clock) (operation : Op)
  | reopen (readonly : Bool) (uid gid : UInt32)
  deriving DecidableEq

namespace Call

def outcome (s : Filesystem) : Call → Outcome Filesystem Db Halt Reply
  | .op user clock operation => asUser user (operation.run clock) s
  | .reopen readonly uid gid => ⟨.ok .unit, openFs s.conn readonly uid gid, []⟩

def exec (call : Call) (s : Filesystem) : Filesystem := (call.outcome s).state

end Call

/-- A filesystem that has just been made and opened. -/
def Fresh (s : Filesystem) : Prop :=
  ∃ chunkSize ownerUid ownerGid now readonly uid gid,
    s = openFs (mkfs chunkSize ownerUid ownerGid now) readonly uid gid

/-- The states that calls lead to, if each call satisfies `Ok` in the state where it is made. -/
abbrev RunsTo (Ok : Filesystem → Call → Prop) : Filesystem → Prop := Run Fresh Call.exec Ok

/-- The states that any calls lead to. -/
abbrev Reachable : Filesystem → Prop := RunsTo fun _ _ => True

/-- A new filesystem, opened for writing by root. -/
def newFs : Filesystem := openFs (mkfs DEFAULT_CHUNK_SIZE 0 0 0) false 0 0

lemma fresh_newFs : Fresh newFs := ⟨_, _, _, _, _, _, _, rfl⟩

/-- A call of root's. -/
def Call.byRoot (operation : Op) : Call := .op none ⟨0, 0⟩ operation

/-- The new filesystem after some operations of root's. -/
def newFsAfter (operations : List Op) : Filesystem :=
  Run.after Call.exec (operations.map Call.byRoot) newFs

lemma newFsAfter_concat (operations : List Op) (operation : Op) :
    newFsAfter (operations ++ [operation]) = (Call.byRoot operation).exec (newFsAfter operations) := by
  unfold newFsAfter Run.after
  rw [List.map_append, List.foldl_append]
  rfl

lemma reachable_newFsAfter (operations : List Op) : Reachable (newFsAfter operations) :=
  Run.after_of_forall (fun _ _ => trivial) _ (.start fresh_newFs)

end Filesystem

end SqliteFs
