import SqliteFs.Python.Blobs
import SqliteFs.Python.Paths
import SqliteFs.Python.Locks
import SqliteFs.Python.Runtime

/-!
# The filesystem of the Python library

An operation is a program on the mounted filesystem whose durable part is the database. Its writes
happen inside `with self._conn`, which commits what the block did or takes it back if it raises.
-/

namespace SqliteFs

open Txn

namespace Python

def MAXSYMLINKS : ℕ := 40

/-- An item of `_path_cache`. -/
structure CachedPath where
  inode : ℕ
  path : Str
  deriving DecidableEq

instance : Keyed CachedPath ℕ := ⟨CachedPath.inode⟩

@[simp] lemma key_cachedPath (c : CachedPath) : Keyed.key c = c.inode := rfl

structure Filesystem where
  conn : Db
  readonly : Bool
  uid : ℤ
  gid : ℤ
  chunkSizeVal : ℤ
  fdTable : FdTable
  lockMgr : LockManager
  watchers : List Watcher
  pathCache : KeyTable CachedPath
  deriving DecidableEq

instance : Durable Filesystem Db where
  disk := Filesystem.conn
  setDisk s d := { s with conn := d }
  disk_setDisk _ _ := rfl

/-- An operation with result `α`. -/
abbrev Action := Prog Filesystem Db Halt

namespace Filesystem

/-! ### Making and opening a filesystem -/

/-- `install_schema`: the tables without rows. -/
def installSchema (chunkSize : ℤ) : Db := ⟨chunkSize, .empty, 0, .empty, .empty, .empty, .empty⟩

/-- The row of the root directory as `mkfs` writes it. -/
def rootRow (ownerUid ownerGid now : ℤ) : NodesRow :=
  ⟨ROOT_INODE, .dir, 0o755, ownerUid, ownerGid, 0, now, now, now, 2⟩

/-- What `mkfs` puts into a database file that did not exist. -/
def mkfs (chunkSize ownerUid ownerGid now : ℤ) : Res Db := do
  bindParams [chunkSize]
  bindParams [ownerUid, ownerGid, now]
  return { installSchema chunkSize with
    nodes := KeyTable.empty.put (rootRow ownerUid ownerGid now)
    nodesSeq := ROOT_INODE }

def openFs (conn : Db) (readonly : Bool) (uid gid : ℤ) : Filesystem :=
  ⟨conn, readonly, uid, gid, conn.chunkSize, .new, .new, [], .empty⟩

/-! ### Steps -/

/-- Read the state. -/
def ask {α : Type} (q : Filesystem → Res α) : Action α := Prog.query q

/-- `raise e` unless `c` holds. -/
def require (c : Prop) [Decidable c] (e : Exc) : Action PUnit := Prog.ensure c (.raised e)

/-- `with self._conn`. -/
def withConn {α : Type} (b : Sql α) : Action α := Prog.transaction b

def requireWritable : Action PUnit :=
  ask fun s => check (s.readonly = false) (.readOnlyFilesystem [.lit "filesystem is read-only"])

def emit (event : Event) : Action PUnit :=
  Prog.volatile fun s => (.ok ⟨⟩, { s with watchers := s.watchers.map (·.receive event) })

/-- `nodes.get`. -/
def getNode (inode : ℕ) : Action NodesRow := ask fun s => Nodes.get s.conn inode

/-- `entries.get`. -/
def getEntry (parent : ℕ) (name : Str) : Action EntryRow :=
  ask fun s => Entries.get s.conn parent name

/-- `require_access` of the caller to a node. -/
def requireAccessTo (node : NodesRow) (access : Access) : Action PUnit :=
  ask fun s => requireAccess node.mode node.uid node.gid s.uid s.gid access

/-- `entries.get` in a `try` block that wants no entry. -/
def requireAbsent (parent : ℕ) (name : Str) (path : Str) : Action PUnit :=
  ask fun s => check ((s.conn.entries.find? (parent, name)).isNone)
    (.alreadyExists [.lit "path exists: ", .repr path])

/-- Work on `_path_cache`. -/
def changeCache (f : KeyTable CachedPath → KeyTable CachedPath) : Action PUnit :=
  Prog.volatile fun s => (.ok ⟨⟩, { s with pathCache := f s.pathCache })

/-- `_path_cache.pop(inode, None)`. -/
def uncache (inode : ℕ) : Action PUnit :=
  changeCache fun c => c.deleteWhere fun r => r.inode = inode

/-! ### Paths -/

/-- The loop of `_path_of_inode`, cut off after `fuel` rounds. -/
def pathLoop (d : Db) : ℕ → ℕ → List Str → Res (Option Str)
  | 0, _, _ => .error .diverge
  | fuel + 1, cur, parts =>
    if cur = ROOT_INODE then .ok (some (joinPath parts))
    else match Entries.ofInode d cur with
      | some row => pathLoop d fuel row.parent (row.name :: parts)
      | none => .ok none

/-- The walk of `_path_of_inode`. A climb of more rounds than there are entries has met one of
them twice, and will go on forever. -/
def uncachedPath (d : Db) (inode : ℕ) : Res (Option Str) :=
  pathLoop d (d.entries.rows.length + 1) inode []

def pathOfInode (inode : ℕ) : Action (Option Str) :=
  if inode = ROOT_INODE then pure (some ['/']) else do
  let cached ← ask fun s => .ok ((s.pathCache.find? inode).map CachedPath.path)
  match cached with
  | some path => return some path
  | none =>
    let path ← ask fun s => uncachedPath s.conn inode
    match path with
    | some path => do
      changeCache fun c => c.put ⟨inode, path⟩
      return some path
    | none => return none

/-- The text of a symlink's target. -/
def decodeTarget (target : Bytes) : Res Str :=
  rowOr (decodeUtf8 target)
    (.invalidArgument [.lit "symlink target not UTF-8 resolvable: ", .bytes target])

/-- The path that takes the place of one in which a symlink was met below `done` and before
`remaining`. -/
def substitute (done : List Str) (target : Str) (remaining : List Str) : Str :=
  let target := if target.head? = some '/' then target else joinPath (done ++ [target])
  target ++ if remaining = [] then [] else joinPath remaining

/-- The loop of `_resolve_path`, with the components `done` behind it. It leaves a path with a
symlink substituted to `again`, unless `MAXSYMLINKS` have been traversed already. -/
def walk (d : Db) (uid gid : ℤ) (path : Str) (follow : Bool) (again : Option (Str → Res ℕ)) :
    List Str → ℕ → List Str → Res ℕ
  | _, cur, [] => .ok cur
  | done, cur, name :: rest => do
    let curNode ← Nodes.get d cur
    check (curNode.kind = .dir) (.notADirectory [.repr name, .lit " has non-dir ancestor"])
    requireAccess curNode.mode curNode.uid curNode.gid uid gid Access.X
    let entry ← Entries.get d cur name
    let child ← Nodes.get d entry.inode
    if child.kind = .symlink ∧ (rest ≠ [] ∨ follow) then
      match again with
      | none => raise (.symlinkLoop [.lit "too many symlinks resolving ", .repr path])
      | some again =>
        let targetBytes ← Symlinks.get d child.inode
        let target ← decodeTarget targetBytes
        again (substitute done target rest)
    else walk d uid gid path follow again (done ++ [name]) child.inode rest

/-- `_resolve_path` when `budget` more symlinks may be traversed. -/
def resolvePathWith (d : Db) (uid gid : ℤ) (follow : Bool) : ℕ → Str → Res ℕ
  | 0, path => do
    let components ← parsePath path
    walk d uid gid path follow none [] ROOT_INODE components
  | budget + 1, path => do
    let components ← parsePath path
    walk d uid gid path follow (some (resolvePathWith d uid gid follow budget)) [] ROOT_INODE
      components

/-- `_resolve_path` for a caller. -/
def resolvePathAs (d : Db) (uid gid : ℤ) (path : Str) (follow : Bool) : Res ℕ :=
  resolvePathWith d uid gid follow MAXSYMLINKS path

/-- `_resolve_path`; `follow` is `follow_final_symlink`. -/
def resolvePath (path : Str) (follow : Bool) : Action ℕ :=
  ask fun s => resolvePathAs s.conn s.uid s.gid path follow

/-- `_resolve_parent` for a caller. -/
def resolveParentAs (d : Db) (uid gid : ℤ) (path : Str) : Res (ℕ × Str) := do
  let components ← parsePath path
  match components.getLast? with
  | none => raise (.invalidArgument [.lit "cannot operate on the root"])
  | some newName =>
    let parentPath := joinPath components.dropLast
    let parentInode ← resolvePathAs d uid gid parentPath true
    let parent ← Nodes.get d parentInode
    check (parent.kind = .dir)
      (.notADirectory [.lit "parent ", .repr parentPath, .lit " is not a directory"])
    requireAccess parent.mode parent.uid parent.gid uid gid (Access.W ||| Access.X)
    return (parentInode, newName)

/-- `_resolve_parent`. -/
def resolveParent (path : Str) : Action (ℕ × Str) :=
  ask fun s => resolveParentAs s.conn s.uid s.gid path

/-- `_maybe_gc`, in a transaction; `openCount` is the number of descriptors on the node. -/
def maybeGc (inode openCount : ℕ) : Sql PUnit := do
  let node ← Body.ask fun d => .ok (d.nodes.find? inode)
  match node with
  | none => pure ⟨⟩
  | some node => if node.nlink = 0 ∧ openCount = 0 then Nodes.delete inode else pure ⟨⟩

/-- The times that an operation gives the directories it changes. -/
def touch (env : Env) (inode : ℕ) : Sql PUnit :=
  Nodes.updateTimes inode none (some env.now) (some env.now)

/-! ### Directories -/

def mkdir (env : Env) (path : Str) (mode : ℤ) : Action PUnit := do
  requireWritable
  let (parentInode, name) ← resolveParent path
  requireAbsent parentInode name path
  let (uid, gid) ← ask fun s => .ok (s.uid, s.gid)
  let newInode ← withConn do
    let newInode ← Nodes.insert .dir mode uid gid env.now
    Entries.insert parentInode name newInode
    let _ ← Nodes.changeNlink parentInode 1 env.now
    touch env parentInode
    return newInode
  emit ⟨.create, path, none, none, .dir, newInode, env.now⟩

def rmdir (env : Env) (path : Str) : Action PUnit := do
  requireWritable
  require (path ≠ ['/']) (.permissionDenied [.lit "cannot remove root"])
  let (parentInode, name) ← resolveParent path
  let entry ← getEntry parentInode name
  let node ← getNode entry.inode
  require (node.kind = .dir) (.notADirectory [.repr path, .lit " is not a directory"])
  ask fun s => check (¬ 0 < Entries.count s.conn entry.inode)
    (.directoryNotEmpty [.lit "directory not empty: ", .repr path])
  withConn do
    Entries.delete parentInode name
    Nodes.delete entry.inode
    let _ ← Nodes.changeNlink parentInode (-1) env.now
    touch env parentInode
  uncache entry.inode
  emit ⟨.remove, path, none, none, .dir, entry.inode, env.now⟩

def readdir (path : Str) : Action (List DirEntry) := do
  let inode ← resolvePath path true
  let node ← getNode inode
  require (node.kind = .dir) (.notADirectory [.repr path, .lit " is not a directory"])
  requireAccessTo node Access.R
  ask fun s => (Entries.list_ s.conn inode).mapM fun entry => do
    let child ← Nodes.get s.conn entry.inode
    return ⟨entry.name, child.kind, entry.inode⟩

/-! ### Metadata -/

def stat (path : Str) (followSymlinks : Bool) : Action Stat := do
  let inode ← resolvePath path followSymlinks
  let node ← getNode inode
  return ⟨node.kind, node.size, node.mode, node.uid, node.gid, node.atimeNs, node.mtimeNs,
    node.ctimeNs, node.nlink, node.inode⟩

/-- `exists`: a missing path is an answer, any other exception is passed on. -/
def exists_ (path : Str) : Action Bool := fun s =>
  let o := stat path true s
  match o.result with
  | .ok _ => { o with result := .ok true }
  | .error (.raised (.notFound _)) => { o with result := .ok false }
  | .error (.raised (.notADirectory _)) => { o with result := .ok false }
  | .error e => { o with result := .error e }

def chmod (env : Env) (path : Str) (mode : ℤ) (followSymlinks : Bool) : Action PUnit := do
  requireWritable
  let inode ← resolvePath path followSymlinks
  let node ← getNode inode
  ask fun s => check (s.uid = 0 ∨ s.uid = node.uid)
    (.permissionDenied [.lit "only owner or root may chmod"])
  withConn (Nodes.updateModeUidGid inode (some (mode.land 0o7777)) none none env.now)
  emit ⟨.metadata, path, none, none, node.kind, inode, env.now⟩

def chown (env : Env) (path : Str) (uid gid : ℤ) (followSymlinks : Bool) : Action PUnit := do
  requireWritable
  let inode ← resolvePath path followSymlinks
  let node ← getNode inode
  ask fun s => check (s.uid = 0 ∨ (uid = node.uid ∧ gid = node.gid))
    (.permissionDenied [.lit "only root may change owner/group"])
  withConn (Nodes.updateModeUidGid inode none (some uid) (some gid) env.now)
  emit ⟨.metadata, path, none, none, node.kind, inode, env.now⟩

def utimes (env : Env) (path : Str) (atimeNs mtimeNs : Option ℤ) (followSymlinks : Bool) :
    Action PUnit := do
  requireWritable
  let inode ← resolvePath path followSymlinks
  let node ← getNode inode
  ask fun s => check (s.uid = 0 ∨ s.uid = node.uid)
    (.permissionDenied [.lit "only owner or root may utimes"])
  withConn (Nodes.updateTimes inode atimeNs mtimeNs (some env.now))
  emit ⟨.metadata, path, none, none, node.kind, inode, env.now⟩

/-! ### Files -/

/-- Open a descriptor for the caller. -/
def openFd (inode : ℕ) (flags : ℤ) : Action ℕ :=
  Prog.volatile fun s =>
    let (fd, fdTable) := s.fdTable.open_ inode flags s.uid s.gid
    (.ok fd, { s with fdTable := fdTable })

/-- The access that an `open` of an existing node asks for. -/
def accessBits (flags : ℤ) : Access :=
  let mode := accessMode flags
  let r := if mode = Os.O_RDONLY ∨ mode = Os.O_RDWR then Access.R else 0
  let w := if mode = Os.O_WRONLY ∨ mode = Os.O_RDWR then Access.W else 0
  let bits := r ||| w
  if bits = 0 then Access.R else bits

/-- `entries.insert` of `open`, which reports a violated constraint as a name that is taken. -/
def insertNew (parent : ℕ) (name : Str) (inode : ℕ) (path : Str) : Sql PUnit :=
  Body.exec fun d => rowOr (d.insertEntry ⟨parent, name, inode⟩)
    (.alreadyExists [.lit "path exists: ", .repr path])

/-- The branch of `open` for a path that leads nowhere. -/
def openNew (env : Env) (path : Str) (flags mode : ℤ) : Action ℕ := do
  require (hasBits flags Os.O_CREAT) (.notFound [.lit "no such file: ", .repr path])
  requireWritable
  let (parentInode, name) ← resolveParent path
  let (uid, gid) ← ask fun s => .ok (s.uid, s.gid)
  let inode ← withConn do
    let inode ← Nodes.insert .file (mode.land 0o7777) uid gid env.now
    insertNew parentInode name inode path
    touch env parentInode
    return inode
  emit ⟨.create, path, none, none, .file, inode, env.now⟩
  let _ ← getNode inode
  openFd inode flags

/-- What `open` does to a file that it truncates. -/
def emptyFile (env : Env) (inode : ℕ) (size chunkSize : ℤ) : Sql PUnit := do
  Blobs.truncateTo inode 0 size chunkSize
  Nodes.updateSize inode 0 env.now env.now

/-- The branch of `open` for a path that leads to `inode`. -/
def openExisting (env : Env) (path : Str) (flags : ℤ) (inode : ℕ) : Action ℕ := do
  require (¬ (hasBits flags Os.O_CREAT ∧ hasBits flags Os.O_EXCL))
    (.alreadyExists [.lit "path exists: ", .repr path])
  let node ← getNode inode
  require (¬ (hasBits flags Os.O_NOFOLLOW ∧ node.kind = .symlink))
    (.symlinkLoop [.lit "O_NOFOLLOW refused: ", .repr path, .lit " is a symlink"])
  requireAccessTo node (accessBits flags)
  if hasBits flags Os.O_TRUNC ∧ node.kind = .file then do
    requireWritable
    let chunkSize ← ask fun s => .ok s.chunkSizeVal
    withConn (emptyFile env inode node.size chunkSize)
    openFd inode flags
  else openFd inode flags

/-- What `open` makes of its path: an inode, or `none` if the resolution raises `NotFound`. -/
def lookup (path : Str) (follow : Bool) : Action (Option ℕ) := ask fun s =>
  match resolvePathAs s.conn s.uid s.gid path follow with
  | .ok inode => .ok (some inode)
  | .error (.raised (.notFound _)) => .ok none
  | .error e => .error e

def open_ (env : Env) (path : Str) (flags mode : ℤ) : Action ℕ := do
  let target ← lookup path (!hasBits flags Os.O_NOFOLLOW)
  match target with
  | some inode => openExisting env path flags inode
  | none => openNew env path flags mode

def create (env : Env) (path : Str) (mode flags : ℤ) : Action ℕ :=
  open_ env path (((flags.lor Os.O_CREAT).lor Os.O_RDWR).lor Os.O_TRUNC) mode

def closeFd (env : Env) (fd : ℕ) : Action PUnit := do
  let entry ← ask fun s => s.fdTable.get fd
  Prog.volatile fun s => (.ok ⟨⟩, { s with fdTable := s.fdTable.close fd })
  Prog.volatile fun s => (.ok ⟨⟩, { s with lockMgr := s.lockMgr.onFdClose entry.inode fd env.pid })
  let (readonly, openCount) ← ask fun s => .ok (s.readonly, s.fdTable.openCount entry.inode)
  if readonly ∨ openCount ≠ 0 then pure ⟨⟩
  else do
    let node ← ask fun s => .ok (s.conn.nodes.find? entry.inode)
    match node with
    | none => pure ⟨⟩
    | some node => if node.nlink = 0 then withConn (maybeGc entry.inode openCount) else pure ⟨⟩

def read (fd : ℕ) (size offset : ℤ) : Action Bytes := do
  let entry ← ask fun s => s.fdTable.get fd
  require (accessMode entry.flags ≠ Os.O_WRONLY) (.permissionDenied [.lit "fd opened O_WRONLY"])
  let node ← getNode entry.inode
  ask fun s => Blobs.readRange s.conn entry.inode offset size node.size s.chunkSizeVal

/-- The event of a change through a descriptor, if its inode has a path. -/
def emitModify (env : Env) (inode : ℕ) : Action PUnit := do
  let path ← pathOfInode inode
  match path with
  | some path => emit ⟨.modify, path, none, none, .file, inode, env.now⟩
  | none => pure ⟨⟩

/-- The transaction of `write`. -/
def writeBody (env : Env) (inode : ℕ) (data : Bytes) (offset size chunkSize : ℤ) : Sql PUnit := do
  let newSize ← Blobs.writeRange inode data offset size chunkSize
  Nodes.updateSize inode newSize env.now env.now

def write (env : Env) (fd : ℕ) (data : Bytes) (offset : ℤ) : Action ℕ := do
  requireWritable
  let entry ← ask fun s => s.fdTable.get fd
  require (accessMode entry.flags ≠ Os.O_RDONLY) (.permissionDenied [.lit "fd opened O_RDONLY"])
  let node ← getNode entry.inode
  let chunkSize ← ask fun s => .ok s.chunkSizeVal
  withConn (writeBody env entry.inode data offset node.size chunkSize)
  emitModify env entry.inode
  return data.length

/-- The transaction of `truncate` and `truncate_fd`. -/
def truncateBody (env : Env) (inode : ℕ) (size oldSize chunkSize : ℤ) : Sql PUnit := do
  Blobs.truncateTo inode size oldSize chunkSize
  Nodes.updateSize inode size env.now env.now

def truncateFd (env : Env) (fd : ℕ) (size : ℤ) : Action PUnit := do
  requireWritable
  let entry ← ask fun s => s.fdTable.get fd
  let node ← getNode entry.inode
  let chunkSize ← ask fun s => .ok s.chunkSizeVal
  withConn (truncateBody env entry.inode size node.size chunkSize)
  emitModify env entry.inode

def truncate (env : Env) (path : Str) (size : ℤ) : Action PUnit := do
  requireWritable
  let inode ← resolvePath path true
  let node ← getNode inode
  require (node.kind ≠ .dir) (.isADirectory [.lit "is a directory: ", .repr path])
  let chunkSize ← ask fun s => .ok s.chunkSizeVal
  withConn (truncateBody env inode size node.size chunkSize)
  emit ⟨.modify, path, none, none, .file, inode, env.now⟩

/-- `fsync`: no transaction is open between calls, so that there is nothing to commit. -/
def fsync (_fd : ℕ) : Action PUnit := pure ⟨⟩

def unlink (env : Env) (path : Str) : Action PUnit := do
  requireWritable
  let (parentInode, name) ← resolveParent path
  let entry ← getEntry parentInode name
  let node ← getNode entry.inode
  require (node.kind ≠ .dir) (.isADirectory [.repr path, .lit " is a directory; use rmdir"])
  let openCount ← ask fun s => .ok (s.fdTable.openCount entry.inode)
  withConn do
    Entries.delete parentInode name
    let _ ← Nodes.changeNlink entry.inode (-1) env.now
    touch env parentInode
    maybeGc entry.inode openCount
  uncache entry.inode
  emit ⟨.remove, path, none, none, node.kind, entry.inode, env.now⟩

/-! ### Links -/

def symlink (env : Env) (target : Bytes) (linkpath : Str) : Action PUnit := do
  requireWritable
  let (parentInode, name) ← resolveParent linkpath
  requireAbsent parentInode name linkpath
  let (uid, gid) ← ask fun s => .ok (s.uid, s.gid)
  let inode ← withConn do
    let inode ← Nodes.insert .symlink 0o777 uid gid env.now
    Entries.insert parentInode name inode
    Symlinks.insert inode target
    touch env parentInode
    return inode
  emit ⟨.create, linkpath, none, none, .symlink, inode, env.now⟩

def readlink (path : Str) : Action Bytes := do
  let inode ← resolvePath path false
  let node ← getNode inode
  require (node.kind = .symlink) (.notFound [.repr path, .lit " is not a symlink"])
  ask fun s => Symlinks.get s.conn inode

def link (env : Env) (src dst : Str) : Action PUnit := do
  requireWritable
  let srcInode ← resolvePath src true
  let srcNode ← getNode srcInode
  require (srcNode.kind ≠ .dir) (.permissionDenied [.lit "cannot hard-link to a directory"])
  let (dstParent, dstName) ← resolveParent dst
  requireAbsent dstParent dstName dst
  withConn do
    Entries.insert dstParent dstName srcInode
    let _ ← Nodes.changeNlink srcInode 1 env.now
    touch env dstParent
  emit ⟨.create, dst, none, none, srcNode.kind, srcInode, env.now⟩

/-! ### Extended attributes -/

def getxattr (path name : Str) : Action Bytes := do
  let inode ← resolvePath path true
  let node ← getNode inode
  requireAccessTo node Access.R
  ask fun s => Xattrs.get s.conn inode name

def setxattr (env : Env) (path name : Str) (value : Bytes) (flags : ℤ) : Action PUnit := do
  requireWritable
  ask fun s => Xattrs.validateName name s.uid
  ask fun _ => Xattrs.validateValue value
  let inode ← resolvePath path true
  let node ← getNode inode
  requireAccessTo node Access.W
  withConn (Xattrs.set inode name value flags)
  emit ⟨.metadata, path, none, none, node.kind, inode, env.now⟩

def listxattr (path : Str) : Action (List Str) := do
  let inode ← resolvePath path true
  ask fun s => .ok (Xattrs.listNames s.conn inode)

def removexattr (env : Env) (path name : Str) : Action PUnit := do
  requireWritable
  let inode ← resolvePath path true
  let node ← getNode inode
  requireAccessTo node Access.W
  withConn (Xattrs.remove inode name)
  emit ⟨.metadata, path, none, none, node.kind, inode, env.now⟩

/-! ### rename -/

/-- The name that an exchange gives the source entry for a while. -/
def swapTmp : Str := ['_', '_', 's', 'w', 'a', 'p', '_', 't', 'm', 'p', '_', '_']

/-- The exchange of two entries, by three renames. -/
def swapEntries (srcParent : ℕ) (srcName : Str) (dstParent : ℕ) (dstName : Str) : Sql PUnit := do
  Entries.rename srcParent srcName dstParent swapTmp
  Entries.rename dstParent dstName srcParent srcName
  Entries.rename dstParent swapTmp dstParent dstName

/-- What a plain rename does about the entry that stands at its destination. -/
def replaceTarget (env : Env) (dst : Str) (noreplace : Bool) (dstParent : ℕ) (dstName : Str)
    (dstEntry : EntryRow) (openCount : ℕ) : Sql PUnit := do
  Body.ask fun _ => check (noreplace = false)
    (.alreadyExists [.lit "target exists: ", .repr dst])
  let dstNode ← Body.ask fun d => Nodes.get d dstEntry.inode
  if dstNode.kind = .dir then do
    Body.ask fun d => check (¬ 0 < Entries.count d dstEntry.inode)
      (.directoryNotEmpty [.lit "target dir not empty: ", .repr dst])
    Entries.delete dstParent dstName
    Nodes.delete dstEntry.inode
  else do
    Entries.delete dstParent dstName
    let _ ← Nodes.changeNlink dstEntry.inode (-1) env.now
    maybeGc dstEntry.inode openCount

/-- The transaction of `rename`. -/
def renameBody (env : Env) (dst : Str) (noreplace exchange : Bool) (srcParent : ℕ) (srcName : Str)
    (dstParent : ℕ) (dstName : Str) (dstEntry : Option EntryRow) (openCount : ℕ) : Sql PUnit := do
  if exchange then
    match dstEntry with
    | none => Body.ask fun _ => raise (.notFound [.lit "exchange target missing: ", .repr dst])
    | some _ => swapEntries srcParent srcName dstParent dstName
  else do
    match dstEntry with
    | none => pure ⟨⟩
    | some e => replaceTarget env dst noreplace dstParent dstName e openCount
    Entries.rename srcParent srcName dstParent dstName
  touch env srcParent
  if dstParent ≠ srcParent then touch env dstParent else pure ⟨⟩

/-- The number of descriptors on the node of an entry. -/
def openCountOf (s : Filesystem) (entry : Option EntryRow) : ℕ :=
  match entry with
  | some e => s.fdTable.openCount e.inode
  | none => 0

/-- What `rename` drops from the cache of paths. -/
def renameUncache (exchange : Bool) (srcNode : NodesRow) (srcEntry : EntryRow)
    (dstEntry : Option EntryRow) (c : KeyTable CachedPath) : KeyTable CachedPath :=
  if srcNode.kind = .dir then .empty
  else
    let c := c.deleteWhere fun r => r.inode = srcEntry.inode
    match dstEntry with
    | some e => if exchange then c.deleteWhere fun r => r.inode = e.inode else c
    | none => c

/-- The events of `rename`. -/
def emitMove (env : Env) (src dst : Str) (exchange : Bool) (srcNode : NodesRow)
    (srcEntry : EntryRow) (dstEntry : Option EntryRow) : Action PUnit := do
  emit ⟨.move, dst, some src, some dst, srcNode.kind, srcEntry.inode, env.now⟩
  match dstEntry with
  | some e =>
    if exchange then do
      let dstNode ← getNode e.inode
      emit ⟨.move, src, some dst, some src, dstNode.kind, e.inode, env.now⟩
    else pure ⟨⟩
  | none => pure ⟨⟩

/-- `rename` refuses to move a directory into its own subtree. -/
def checkSubtree (d : Db) (srcNode : NodesRow) (srcEntry : EntryRow) (dstParent : ℕ) : Res PUnit :=
  if srcNode.kind = .dir then do
    let dstAncestry ← Nodes.ancestry d dstParent
    check (¬ (srcEntry.inode ∈ dstAncestry ∨ srcEntry.inode = dstParent))
      (.invalidArgument [.lit "rename into own subtree"])
  else .ok ⟨⟩

def rename (env : Env) (src dst : Str) (noreplace exchange : Bool) : Action PUnit := do
  requireWritable
  require (¬ (noreplace ∧ exchange))
    (.invalidArgument [.lit "noreplace and exchange are mutually exclusive"])
  let (srcParent, srcName) ← resolveParent src
  let (dstParent, dstName) ← resolveParent dst
  let srcEntry ← getEntry srcParent srcName
  let srcNode ← getNode srcEntry.inode
  if srcParent = dstParent ∧ srcName = dstName then pure ⟨⟩ else do
  ask fun s => checkSubtree s.conn srcNode srcEntry dstParent
  let dstEntry ← ask fun s => .ok (s.conn.entries.find? (dstParent, dstName))
  let openCount ← ask fun s => .ok (s.openCountOf dstEntry)
  withConn (renameBody env dst noreplace exchange srcParent srcName dstParent dstName dstEntry
    openCount)
  changeCache (renameUncache exchange srcNode srcEntry dstEntry)
  emitMove env src dst exchange srcNode srcEntry dstEntry

/-! ### Locks and watchers -/

/-- Work on the lock manager. -/
def onLocks {α : Type} (f : LockManager → Res α × LockManager) : Action α :=
  Prog.volatile fun s => ((f s.lockMgr).1, { s with lockMgr := (f s.lockMgr).2 })

def posixLock (env : Env) (fd : ℕ) (op : LockOp) (start length : ℤ) : Action PUnit := do
  let entry ← ask fun s => s.fdTable.get fd
  onLocks fun m => m.posixLock entry.inode env.pid op start length

def ofdLock (fd : ℕ) (op : LockOp) (start length : ℤ) : Action PUnit := do
  let entry ← ask fun s => s.fdTable.get fd
  onLocks fun m => m.ofdLock entry.inode fd op start length

def flock (fd : ℕ) (op : LockOp) : Action PUnit := do
  let entry ← ask fun s => s.fdTable.get fd
  onLocks fun m => m.flock entry.inode fd op

def posixGetlk (env : Env) (fd : ℕ) (start length : ℤ) : Action (Option LockQuery) := do
  let entry ← ask fun s => s.fdTable.get fd
  ask fun s => .ok (s.lockMgr.posixGetlk entry.inode env.pid start length)

def ofdGetlk (fd : ℕ) (start length : ℤ) : Action (Option LockQuery) := do
  let entry ← ask fun s => s.fdTable.get fd
  ask fun s => .ok (s.lockMgr.ofdGetlk entry.inode fd start length)

/-- `watch`; a watcher is known by its position in the list. -/
def watch (path : Str) (recursive : Bool) : Action ℕ := do
  let inode ← resolvePath path true
  let node ← getNode inode
  require (node.kind = .dir) (.notADirectory [.repr path, .lit " is not a directory"])
  requireAccessTo node Access.R
  Prog.volatile fun s =>
    (.ok s.watchers.length, { s with watchers := s.watchers ++ [⟨path, recursive, [], false⟩] })

/-- `Watcher.close`. -/
def closeWatcher (id : ℕ) : Action PUnit :=
  Prog.volatile fun s => (.ok ⟨⟩, { s with
    watchers := s.watchers.modify id fun w => { w with closed := true } })

/-- `next(watcher)`. -/
def nextEvent (id : ℕ) : Action Event :=
  Prog.volatile fun s =>
    match (s.watchers[id]?).bind fun w => w.queue.head? with
    | some event => (.ok event, { s with
        watchers := s.watchers.modify id fun w => { w with queue := w.queue.tail } })
    | none => (raise .stopIteration, s)

end Filesystem

end Python

end SqliteFs
