import SqliteFs.Blobs.Basic
import SqliteFs.Locks.Basic
import SqliteFs.Paths
import SqliteFs.Runtime

/-!
# The filesystem

An operation is a program on the mounted filesystem whose durable part is the database: it reads
(`ask`), checks (`require`), works on the tables in memory (`Prog.volatile`), and changes the
database by transactions (`tx`), of which an autocommitted statement is one. The clock readings
an operation takes are its argument.
-/

namespace SqliteFs

open Txn

structure Filesystem where
  conn : Db
  /-- The connection was opened with `SQLITE_OPEN_READ_ONLY`. -/
  connReadonly : Bool
  chunkSize : ℕ
  readonly : Bool
  callerUid : UInt32
  callerGid : UInt32
  fdtable : FdTable
  locks : LockManager
  watchers : WatchRegistry
  /-- `open_fs` puts no writable filesystem on a connection that does not write. -/
  guarded : connReadonly = true → readonly = true
  deriving DecidableEq

instance : Durable Filesystem Db where
  disk := Filesystem.conn
  setDisk s d := { s with conn := d }
  disk_setDisk _ _ := rfl

/-- An operation with result `α`. -/
abbrev Action := Prog Filesystem Db Halt

namespace Filesystem

/-! ### Making and opening a filesystem -/

/-- `install_schema`: the tables without rows. -/
def installSchema (chunkSize : ℤ) : Db := ⟨chunkSize, .empty, 0, .empty, .empty, .empty, .empty⟩

/-- The row of the root directory as `mkfs` writes it. -/
def rootRow (ownerUid ownerGid : UInt32) (now : ℤ) : NodesRow :=
  ⟨ROOT_INODE, .dir, 0o755, ownerUid, ownerGid, 0, now, now, now, 2⟩

def mkfs (chunkSize : ℤ) (ownerUid ownerGid : UInt32) (now : ℤ) : Db :=
  { installSchema chunkSize with
    nodes := KeyTable.empty.put (rootRow ownerUid ownerGid now)
    nodesSeq := ROOT_INODE }

/-- `Filesystem::new`: what is read-only may have a connection that is not. -/
def new (conn : Db) (connReadonly readonly : Bool) (uid gid : UInt32)
    (guarded : connReadonly = true → readonly = true) : Filesystem :=
  ⟨conn, connReadonly, U64.ofI64 conn.chunkSize, readonly, uid, gid, .new, .new, .new, guarded⟩

def openFs (conn : Db) (readonly : Bool) (uid gid : UInt32) : Filesystem :=
  new conn readonly readonly uid gid id

/-! ### Steps -/

/-- Read the state. -/
def ask {α : Type} (q : Filesystem → Res α) : Action α := Prog.query q

/-- Return `Err e` unless `c` holds. -/
def require (c : Prop) [Decidable c] (e : Error) : Action PUnit := Prog.ensure c (.error e)

/-- Run `b` in a transaction; a connection that was opened read-only refuses to write. -/
def tx {α : Type} (b : Sql α) : Action α := do
  ask fun s => if s.connReadonly then err (.sqlite .readOnly) else .ok ()
  Prog.transaction b

def requireWritable : Action PUnit :=
  ask fun s => if s.readonly then err .readOnlyFilesystem else .ok ⟨⟩

def emit (clock : Clock) (kind : EventKind) (path : Str) (nodeKind : NodeKind) (inode : ℕ)
    (srcPath dstPath : Option Str) : Action PUnit :=
  Prog.volatile fun s => (.ok ⟨⟩, { s with
    watchers := s.watchers.emit ⟨kind, path, srcPath, dstPath, nodeKind, inode, clock.event⟩ })

/-- `nodes::get`. -/
def getNode (inode : ℕ) : Action NodeRow := ask fun s => Nodes.get s.conn inode

/-- `entries::get`. -/
def getEntry (parent : ℕ) (name : Str) : Action EntryRow :=
  ask fun s => Entries.get s.conn parent name

/-- `perms::require_access` of the caller to a node. -/
def requireAccessTo (row : NodeRow) (access : Access) : Action PUnit :=
  ask fun s => requireAccess row.mode row.uid row.gid s.callerUid s.callerGid access

/-- The caller's uid and gid. -/
def caller : Action (UInt32 × UInt32) := ask fun s => .ok (s.callerUid, s.callerGid)

/-- `fdtable.open_count`. -/
def openCount (inode : ℕ) : Action ℕ := ask fun s => .ok (s.fdtable.openCount inode)

/-- Open a descriptor for the caller. -/
def openFd (inode : ℕ) (flags : Flags) : Action ℕ :=
  Prog.volatile fun s =>
    let (fd, fdtable) := s.fdtable.open_ inode flags s.callerUid s.callerGid
    (.ok fd, { s with fdtable := fdtable })

/-! ### Paths -/

/-- The loop of `resolveToInode`. Every component but the last is looked up in a directory. -/
def walk (d : Db) (path : Str) : ℕ → List Str → Res ℕ
  | cur, [] => .ok cur
  | cur, [name] => do
    let entry ← Entries.get d cur name
    return entry.inode
  | cur, name :: rest => do
    let row ← Nodes.get d cur
    if row.kind ≠ .dir then
      err (.notADirectory [.lit "non-dir component in path ", .debug path])
    else do
      let entry ← Entries.get d cur name
      walk d path entry.inode rest

def resolveToInode (d : Db) (path : Str) : Res ℕ := do
  let components ← parsePath path
  walk d path ROOT_INODE components

def resolveParentAndName (d : Db) (path : Str) : Res (ℕ × Str) := do
  let components ← parsePath path
  match components.getLast? with
  | none =>
    err (.invalidArgument [.lit "cannot resolve parent of root or empty path: ", .debug path])
  | some name =>
    let components := components.dropLast
    let parent ← if components = [] then .ok ROOT_INODE
      else resolveToInode d (joinPath components)
    return (parent, name)

/-- The loop of `pathForInode`, cut off after `fuel` rounds. -/
def pathLoop (d : Db) : ℕ → ℕ → List Str → Res (Option Str)
  | 0, _, _ => .error .diverge
  | fuel + 1, parent, parts =>
    if parent = ROOT_INODE then .ok (some (joinPath parts))
    else match Entries.ofInode d parent with
      | some e => pathLoop d fuel e.parent (e.name :: parts)
      | none => .ok none

/-- The path of an inode that has an entry. A climb of more rounds than there are entries has met
one of them twice, and will go on forever. -/
def pathForInode (d : Db) (inode : ℕ) : Res (Option Str) :=
  match Entries.ofInode d inode with
  | some e => pathLoop d (d.entries.rows.length + 1) e.parent [e.name]
  | none => .ok none

/-- `resolve_to_inode` as a step. -/
def resolve (path : Str) : Action ℕ := ask fun s => resolveToInode s.conn path

/-- `resolve_parent_and_name` as a step. -/
def resolveParent (path : Str) : Action (ℕ × Str) := ask fun s => resolveParentAndName s.conn path

/-! ### Operations that only read -/

def pathOfInode (inode : ℕ) : Action (Option Str) :=
  if inode = ROOT_INODE then pure (some ['/']) else ask fun s => pathForInode s.conn inode

def stat (path : Str) : Action Stat := do
  let ino ← resolve path
  let row ← getNode ino
  return ⟨row.kind, row.size, row.mode, row.uid, row.gid, row.atimeNs, row.mtimeNs, row.ctimeNs,
    row.nlink, row.inode⟩

def readdir (path : Str) : Action (List DirEntry) := do
  let ino ← resolve path
  let row ← getNode ino
  require (row.kind = .dir) (.notADirectory [.debug path, .lit " is not a directory"])
  requireAccessTo row Access.R
  ask fun s => (Entries.list s.conn ino).mapM fun e => do
    let child ← Nodes.get s.conn e.inode
    return ⟨e.name, child.kind, e.inode⟩

def readFd (fd offset size : ℕ) : Action Bytes := do
  let entry ← ask fun s => s.fdtable.get fd
  let mode := entry.flags &&& Libc.O_ACCMODE
  require (mode = Libc.O_RDONLY ∨ mode = Libc.O_RDWR)
    (.permissionDenied [.lit "fd ", .num fd, .lit " not opened for read"])
  let row ← getNode entry.inode
  ask fun s => Blobs.readRange s.conn entry.inode offset size row.size s.chunkSize

def readlink (path : Str) : Action Bytes := do
  let ino ← resolve path
  let row ← getNode ino
  require (row.kind = .symlink) (.invalidArgument [.debug path, .lit " is not a symlink"])
  ask fun s => Symlinks.get s.conn ino

def getxattr (path name : Str) : Action Bytes := do
  let ino ← resolve path
  let row ← getNode ino
  requireAccessTo row Access.R
  ask fun s => Xattrs.get s.conn ino name

def listxattr (path : Str) : Action (List Str) := do
  let ino ← resolve path
  let row ← getNode ino
  requireAccessTo row Access.R
  ask fun s => .ok (Xattrs.listNames s.conn ino)

def posixGetlk (fd : ℕ) (pid : ℤ) (start length : ℕ) : Action (Option LockQuery) := do
  let entry ← ask fun s => s.fdtable.get fd
  ask fun s => .ok (s.locks.posixGetlk entry.inode fd pid start length)

def ofdGetlk (fd start length : ℕ) : Action (Option LockQuery) := do
  let entry ← ask fun s => s.fdtable.get fd
  ask fun s => .ok (s.locks.ofdGetlk entry.inode fd start length)

/-- `flush` and `fsync`: a checkpoint moves committed pages and changes no row. -/
def flush (fd : ℕ) : Action PUnit := do
  let _ ← ask fun s => s.fdtable.get fd
  return ⟨⟩

def fsync (fd : ℕ) : Action PUnit := do
  let _ ← ask fun s => s.fdtable.get fd
  return ⟨⟩

def fsyncdir (path : Str) : Action PUnit := do
  let ino ← resolve path
  let row ← getNode ino
  require (row.kind = .dir) (.notADirectory [.debug path, .lit " is not a directory"])

/-! ### Directories -/

def mkdir (clock : Clock) (path : Str) (mode : UInt32) : Action PUnit := do
  requireWritable
  let (parent, name) ← resolveParent path
  let parentRow ← getNode parent
  require (parentRow.kind = .dir)
    (.notADirectory [.lit "parent of ", .debug path, .lit " is not a directory"])
  requireAccessTo parentRow (Access.W ||| Access.X)
  let (uid, gid) ← caller
  let newIno ← tx do
    let newIno ← Nodes.insert .dir mode uid gid clock.now
    Entries.insert parent name newIno
    let _ ← Nodes.changeNlink parent 1 clock.now
    Nodes.updateTimes parent none (some clock.now) (some clock.now)
    return newIno
  emit clock .create path .dir newIno none none

def rmdir (clock : Clock) (path : Str) : Action PUnit := do
  requireWritable
  require (path ≠ ['/']) (.invalidArgument [.lit "cannot rmdir root"])
  let (parent, name) ← resolveParent path
  let entry ← getEntry parent name
  let row ← getNode entry.inode
  require (row.kind = .dir) (.notADirectory [.debug path, .lit " is not a directory"])
  ask fun s => if Entries.count s.conn entry.inode none > 0
    then err (.directoryNotEmpty [.debug path, .lit " is not empty"]) else .ok ()
  let parentRow ← getNode parent
  requireAccessTo parentRow (Access.W ||| Access.X)
  tx do
    Entries.delete parent name
    let _ ← Nodes.changeNlink parent (-1) clock.now
    Nodes.updateTimes parent none (some clock.now) (some clock.now)
    Nodes.delete entry.inode
  emit clock .remove path .dir entry.inode none none

/-! ### Files -/

def checkOpenAccess (row : NodeRow) (flags : Flags) : Action PUnit :=
  let mode := flags &&& Libc.O_ACCMODE
  let access := if mode = Libc.O_RDONLY then Access.R
    else if mode = Libc.O_WRONLY then Access.W
    else Access.R ||| Access.W
  requireAccessTo row access

/-- The branch of `create` for a name that exists. -/
def createExisting (path : Str) (flags : Flags) (existing : EntryRow) : Action ℕ := do
  require (flags &&& Libc.O_EXCL = 0) (.alreadyExists [.debug path, .lit " already exists"])
  let row ← getNode existing.inode
  checkOpenAccess row flags
  openFd existing.inode flags

/-- The branch of `create` for a new name. -/
def createNew (clock : Clock) (path : Str) (flags : Flags) (mode : UInt32) (parent : ℕ)
    (name : Str) : Action ℕ := do
  let parentRow ← getNode parent
  require (parentRow.kind = .dir)
    (.notADirectory [.lit "parent of ", .debug path, .lit " is not a dir"])
  requireAccessTo parentRow (Access.W ||| Access.X)
  let (uid, gid) ← caller
  let newIno ← tx do
    let newIno ← Nodes.insert .file (mode &&& 0o7777) uid gid clock.now
    Entries.insert parent name newIno
    Nodes.updateTimes parent none (some clock.now) (some clock.now)
    return newIno
  emit clock .create path .file newIno none none
  openFd newIno flags

def create (clock : Clock) (path : Str) (flags : Flags) (mode : UInt32) : Action ℕ := do
  requireWritable
  let (parent, name) ← resolveParent path
  let existing ← ask fun s => .ok (Entries.get s.conn parent name)
  match existing with
  | .ok existing => createExisting path flags existing
  | .error _ => createNew clock path flags mode parent name

def open_ (clock : Clock) (path : Str) (flags : Flags) : Action ℕ := do
  let ino ← resolve path
  let row ← getNode ino
  require (row.kind ≠ .dir) (.isADirectory [.debug path, .lit " is a directory"])
  checkOpenAccess row flags
  if flags &&& Libc.O_TRUNC = 0 then openFd ino flags
  else do
    requireWritable
    let chunkSize ← ask fun s => .ok s.chunkSize
    tx do
      Blobs.truncateTo ino 0 row.size chunkSize
      Nodes.updateSize ino 0 clock.now clock.now
    openFd ino flags

def writeFd (clock : Clock) (fd offset : ℕ) (data : Bytes) : Action ℕ := do
  requireWritable
  let entry ← ask fun s => s.fdtable.get fd
  let mode := entry.flags &&& Libc.O_ACCMODE
  require (mode = Libc.O_WRONLY ∨ mode = Libc.O_RDWR)
    (.permissionDenied [.lit "fd ", .num fd, .lit " not opened for write"])
  let row ← getNode entry.inode
  let chunkSize ← ask fun s => .ok s.chunkSize
  let newSize ← tx do
    let newSize ← Blobs.writeRange entry.inode data offset row.size chunkSize
    Nodes.updateSize entry.inode newSize clock.now clock.now
    return newSize
  let path ← ask fun s => pathForInode s.conn entry.inode
  match path with
  | some path => emit clock .modify path .file entry.inode none none
  | none => pure ⟨⟩
  return newSize

/-- Delete a node that has neither names nor descriptors left. -/
def collect (nlink inode : ℕ) : Action PUnit := do
  let openCount ← openCount inode
  if nlink = 0 ∧ openCount = 0 then tx (Nodes.delete inode) else pure ⟨⟩

def closeFd (fd : ℕ) : Action PUnit := do
  let inode ← Prog.volatile fun s =>
    let (inode, fdtable) := s.fdtable.close fd
    (inode, { s with fdtable := fdtable })
  Prog.volatile fun s => (.ok ⟨⟩, { s with locks := s.locks.onFdClose inode fd 0 })
  let row ← getNode inode
  collect row.nlink inode

def unlink (clock : Clock) (path : Str) : Action PUnit := do
  requireWritable
  let (parent, name) ← resolveParent path
  let entry ← getEntry parent name
  let row ← getNode entry.inode
  require (row.kind ≠ .dir) (.isADirectory [.debug path, .lit " is a directory"])
  let parentRow ← getNode parent
  requireAccessTo parentRow (Access.W ||| Access.X)
  let newNlink ← tx do
    Entries.delete parent name
    let newNlink ← Nodes.changeNlink entry.inode (-1) clock.now
    Nodes.updateTimes parent none (some clock.now) (some clock.now)
    return newNlink
  collect newNlink entry.inode
  emit clock .remove path row.kind entry.inode none none

/-! ### Links -/

def symlink (clock : Clock) (target : Bytes) (path : Str) : Action PUnit := do
  requireWritable
  let (parent, name) ← resolveParent path
  let parentRow ← getNode parent
  require (parentRow.kind = .dir)
    (.notADirectory [.lit "parent of ", .debug path, .lit " is not a directory"])
  requireAccessTo parentRow (Access.W ||| Access.X)
  let (uid, gid) ← caller
  let newIno ← tx do
    let newIno ← Nodes.insert .symlink 0o777 uid gid clock.now
    Entries.insert parent name newIno
    Symlinks.insert newIno target
    Nodes.updateTimes parent none (some clock.now) (some clock.now)
    return newIno
  emit clock .create path .symlink newIno none none

def link (clock : Clock) (target linkPath : Str) : Action PUnit := do
  requireWritable
  let targetIno ← resolve target
  let targetRow ← getNode targetIno
  require (targetRow.kind ≠ .dir)
    (.isADirectory [.lit "cannot hard-link directory ", .debug target])
  let (linkParent, linkName) ← resolveParent linkPath
  let linkParentRow ← getNode linkParent
  require (linkParentRow.kind = .dir)
    (.notADirectory [.lit "parent of ", .debug linkPath, .lit " is not a directory"])
  requireAccessTo linkParentRow (Access.W ||| Access.X)
  tx do
    Entries.insert linkParent linkName targetIno
    let _ ← Nodes.changeNlink targetIno 1 clock.now
    Nodes.updateTimes linkParent none (some clock.now) (some clock.now)
  emit clock .create linkPath targetRow.kind targetIno none none

/-! ### rename -/

/-- What `rename` does about the entry that stands at its destination. -/
def overwriteTarget (clock : Clock) (srcRow : NodeRow) (srcParent dstParent : ℕ) (dstName dst : Str)
    (dstEntry : EntryRow) : Sql PUnit := do
  let dstRow ← Body.ask fun d => Nodes.get d dstEntry.inode
  Body.ask fun d =>
    if srcRow.kind = .dir ∧ dstRow.kind = .dir then
      if Entries.count d dstEntry.inode none > 0 then
        err (.directoryNotEmpty [.lit "rename target ", .debug dst,
          .lit " is a non-empty directory"])
      else .ok ()
    else if srcRow.kind = .dir then
      err (.notADirectory [.lit "rename target ", .debug dst, .lit " is not a directory"])
    else if dstRow.kind = .dir then
      err (.isADirectory [.lit "rename target ", .debug dst, .lit " is a directory"])
    else .ok ()
  Entries.delete dstParent dstName
  let newNlink ← Nodes.changeNlink dstEntry.inode (-1) clock.now
  let _ ← (if dstRow.kind = .dir ∧ srcParent ≠ dstParent
    then Nodes.changeNlink dstParent (-1) clock.now else pure 0)
  if newNlink = 0 then Nodes.delete dstEntry.inode else pure ⟨⟩

/-- Give the source entry its new name, and settle the counts and times this changes. -/
def moveSource (clock : Clock) (srcRow : NodeRow) (srcEntry : EntryRow) (srcParent : ℕ)
    (srcName : Str) (dstParent : ℕ) (dstName : Str) : Sql PUnit := do
  Entries.rename srcParent srcName dstParent dstName
  let _ ← (if srcRow.kind = .dir ∧ srcParent ≠ dstParent then do
      let _ ← Nodes.changeNlink srcParent (-1) clock.now
      Nodes.changeNlink dstParent 1 clock.now
    else pure 0)
  Nodes.updateTimes srcParent none (some clock.now) (some clock.now)
  (if srcParent ≠ dstParent
    then Nodes.updateTimes dstParent none (some clock.now) (some clock.now) else pure ⟨⟩)
  Nodes.updateTimes srcEntry.inode none none (some clock.now)

/-- The checks that keep a directory out of its own subtree. -/
def checkSubtree (d : Db) (srcRow : NodeRow) (srcEntry : EntryRow) (dstParent : ℕ) : Res Unit :=
  if srcRow.kind = .dir then
    if srcEntry.inode = dstParent then
      err (.invalidArgument [.lit "cannot rename directory into itself"])
    else do
      let ancestry ← Entries.ancestry d dstParent
      if srcEntry.inode ∈ ancestry then
        err (.invalidArgument [.lit "cannot rename directory into its own subtree"])
      else .ok ()
  else .ok ()

def rename (clock : Clock) (src dst : Str) : Action PUnit := do
  requireWritable
  if src = dst then pure ⟨⟩ else do
  let (srcParent, srcName) ← resolveParent src
  let srcEntry ← getEntry srcParent srcName
  let srcRow ← getNode srcEntry.inode
  let (dstParent, dstName) ← resolveParent dst
  let dstParentRow ← getNode dstParent
  require (dstParentRow.kind = .dir)
    (.notADirectory [.lit "parent of ", .debug dst, .lit " is not a directory"])
  let srcParentRow ← getNode srcParent
  requireAccessTo srcParentRow (Access.W ||| Access.X)
  requireAccessTo dstParentRow (Access.W ||| Access.X)
  ask fun s => checkSubtree s.conn srcRow srcEntry dstParent
  let existingDst ← ask fun s => .ok (Entries.get s.conn dstParent dstName)
  let moved ← tx (match existingDst with
    | .ok dstEntry =>
      -- two names of one inode: nothing to do
      if dstEntry.inode = srcEntry.inode then pure false
      else do
        overwriteTarget clock srcRow srcParent dstParent dstName dst dstEntry
        moveSource clock srcRow srcEntry srcParent srcName dstParent dstName
        return true
    | .error _ => do
      moveSource clock srcRow srcEntry srcParent srcName dstParent dstName
      return true)
  if moved then emit clock .move dst srcRow.kind srcEntry.inode (some src) (some dst) else pure ⟨⟩

/-! ### Attributes -/

def chmod (clock : Clock) (path : Str) (mode : UInt32) : Action PUnit := do
  requireWritable
  let ino ← resolve path
  let row ← getNode ino
  let (uid, _) ← caller
  require (¬ (uid ≠ 0 ∧ uid ≠ row.uid))
    (.permissionDenied [.lit "chmod on ", .debug path, .lit ": not owner"])
  tx (Nodes.updateModeUidGid ino (some (mode &&& 0o7777)) none none clock.now)
  emit clock .metadata path row.kind ino none none

def chown (clock : Clock) (path : Str) (uid gid : Option UInt32) : Action PUnit := do
  requireWritable
  let ino ← resolve path
  let row ← getNode ino
  let (callerUid, _) ← caller
  let changingUid := uid.any (· ≠ row.uid)
  require (¬ (changingUid ∧ callerUid ≠ 0))
    (.permissionDenied [.lit "changing uid requires root"])
  require (¬ (gid.isSome ∧ callerUid ≠ 0 ∧ callerUid ≠ row.uid))
    (.permissionDenied [.lit "changing gid requires owner or root"])
  tx (Nodes.updateModeUidGid ino none uid gid clock.now)
  emit clock .metadata path row.kind ino none none

def utimes (clock : Clock) (path : Str) (atimeNs mtimeNs : Option ℤ) : Action PUnit := do
  requireWritable
  let ino ← resolve path
  let row ← getNode ino
  let (uid, _) ← caller
  require (¬ (uid ≠ 0 ∧ uid ≠ row.uid))
    (.permissionDenied [.lit "utimes on ", .debug path, .lit ": not owner"])
  tx (Nodes.updateTimes ino atimeNs mtimeNs (some clock.now))
  emit clock .metadata path row.kind ino none none

def setxattr (clock : Clock) (path name : Str) (value : Bytes) (flags : Xattrs.XattrFlags) :
    Action PUnit := do
  requireWritable
  let ino ← resolve path
  let row ← getNode ino
  requireAccessTo row Access.W
  ask fun s => Xattrs.validateName name s.callerUid
  ask fun _ => Xattrs.validateValue value
  tx (Xattrs.set ino name value flags)
  tx (Nodes.updateTimes ino none none (some clock.now))
  emit clock .metadata path row.kind ino none none

def removexattr (clock : Clock) (path name : Str) : Action PUnit := do
  requireWritable
  let ino ← resolve path
  let row ← getNode ino
  requireAccessTo row Access.W
  tx (Xattrs.remove ino name)
  tx (Nodes.updateTimes ino none none (some clock.now))
  emit clock .metadata path row.kind ino none none

/-! ### Locks -/

/-- A request to the lock manager for the inode of a descriptor. -/
def lockRequest (fd : ℕ) (f : LockManager → ℕ → Res Unit × LockManager) : Action PUnit := do
  let entry ← ask fun s => s.fdtable.get fd
  Prog.volatile fun s =>
    let (r, locks) := f s.locks entry.inode
    (r.map fun _ => ⟨⟩, { s with locks := locks })

def posixLock (fd : ℕ) (pid : ℤ) (op : LockOp) (start length : ℕ) (wait : Bool) : Action PUnit :=
  lockRequest fd fun locks inode => locks.posixLock inode fd pid op start length wait

def ofdLock (fd : ℕ) (op : LockOp) (start length : ℕ) (wait : Bool) : Action PUnit :=
  lockRequest fd fun locks inode => locks.ofdLock inode fd op start length wait

def flock (fd : ℕ) (op : FlockOp) (wait : Bool) : Action PUnit :=
  lockRequest fd fun locks inode => locks.flock inode fd op wait

/-! ### Watching -/

/-- Subscribe a watcher; its slot's number is the result. -/
def watch (path : Str) (recursive : Bool) : Action ℕ := do
  let ino ← resolve path
  let row ← getNode ino
  require (row.kind = .dir) (.notADirectory [.debug path, .lit " is not a directory"])
  requireAccessTo row Access.R
  Prog.volatile fun s =>
    let (id, watchers) := s.watchers.subscribe path recursive
    (.ok id, { s with watchers := watchers })

/-- Drop a watcher. -/
def unwatch (slotId : ℕ) : Action PUnit :=
  Prog.volatile fun s => (.ok ⟨⟩, { s with watchers := s.watchers.drop slotId })

end Filesystem

end SqliteFs
