import SqliteFs.Fuse.Adapter

/-!
# The other requests

Almost every request comes with the inode of a node, or with the inode of a directory and a name in
it. The adapter finds a path for it, makes one or two calls on that path for the user of the request,
and translates what comes back.
-/

namespace SqliteFs

def Libc.ERANGE : Errno := 34

namespace Access

/-- `Access::from_bits_truncate`. -/
def fromBitsTruncate (bits : UInt32) : Access := bits &&& (R ||| W ||| X)

end Access

/-- `as u32`, from a `usize`. -/
def U32.ofUsize (n : ℕ) : ℕ := n % 2 ^ 32

/-- `str::as_bytes`. -/
def Str.asBytes (s : Str) : Bytes := s.flatMap String.utf8EncodeChar

namespace Fuse

open Filesystem

/-! ### What is replied -/

structure ReplyNode where
  ttl : ℕ
  attr : FileAttr
  generation : ℕ
  deriving DecidableEq

structure ReplyOpened where
  fh : ℕ
  flags : ℕ
  deriving DecidableEq

structure ReplyCreated where
  ttl : ℕ
  attr : FileAttr
  generation : ℕ
  fh : ℕ
  flags : ℕ
  deriving DecidableEq

structure ReplyStatfs where
  blocks : ℕ
  bfree : ℕ
  bavail : ℕ
  files : ℕ
  ffree : ℕ
  bsize : ℕ
  namelen : ℕ
  frsize : ℕ
  deriving DecidableEq

inductive ReplyXattr
  | size (n : ℕ)
  | data (bytes : Bytes)
  deriving DecidableEq

/-- `reply.entry` with the attributes of a node. -/
def replyNode (st : Stat) : ReplyNode := ⟨TTL, statToAttr st, 0⟩

/-- The answer to a caller who gave `size` bytes of room, or asked how much is needed. -/
def replyXattr (size : ℕ) (v : Bytes) : Except Errno ReplyXattr :=
  if size = 0 then .ok (.size (U32.ofUsize v.length))
  else if U32.ofUsize v.length ≤ size then .ok (.data v)
  else .error Libc.ERANGE

/-- The buffer of `listxattr`: every name with a NUL behind it. -/
def listBuffer (names : List Str) : Bytes := names.flatMap fun n => n.asBytes ++ [0]

namespace Adapter

/-- Work on the path of a node, as the user of the request. -/
def onNode {α : Type} (req : Request) (ino : ℕ) (p : Str → Action α) : Action (Except Errno α) := do
  let path ← pathOfInode ino
  match path with
  | none => return .error Libc.ENOENT
  | some path =>
    let result ← asUserOf req (p path)
    return result.mapError Error.errno

/-- Work on the path of a name in a directory, as the user of the request. -/
def onChild {α : Type} (req : Request) (parent : ℕ) (name : OsStr) (p : Str → Action α) :
    Action (Except Errno α) :=
  match name with
  | none => return .error Libc.EINVAL
  | some name => onNode req parent fun path => p (childPath path name)

/-- Work on a descriptor, as the user of the request. -/
def onFd {α : Type} (req : Request) (p : Action α) : Action (Except Errno α) := do
  let result ← asUserOf req p
  return result.mapError Error.errno

/-- Work that is not done as the user of the request. -/
def onOwn {α : Type} (p : Action α) : Action (Except Errno α) := do
  let result ← attempt p
  return result.mapError Error.errno

def lookup (req : Request) (parent : ℕ) (name : OsStr) : Action (Except Errno ReplyNode) :=
  onChild req parent name fun path => do
    let st ← stat path
    return replyNode st

/-- The `umask` of the request is ignored. -/
def mkdir (clock : Clock) (req : Request) (parent : ℕ) (name : OsStr) (mode : UInt32) :
    Action (Except Errno ReplyNode) :=
  onChild req parent name fun path => do
    Filesystem.mkdir clock path mode
    let st ← stat path
    return replyNode st

def rmdir (clock : Clock) (req : Request) (parent : ℕ) (name : OsStr) : Action (Except Errno PUnit) :=
  onChild req parent name fun path => Filesystem.rmdir clock path

def unlink (clock : Clock) (req : Request) (parent : ℕ) (name : OsStr) : Action (Except Errno PUnit) :=
  onChild req parent name fun path => Filesystem.unlink clock path

def open_ (clock : Clock) (req : Request) (ino : ℕ) (flags : Flags) :
    Action (Except Errno ReplyOpened) :=
  onNode req ino fun path => do
    let fd ← Filesystem.open_ clock path flags
    return ⟨fd, 0⟩

/-- The `umask` of the request is ignored. -/
def create (clock : Clock) (req : Request) (parent : ℕ) (name : OsStr) (mode : UInt32) (flags : Flags) :
    Action (Except Errno ReplyCreated) :=
  onChild req parent name fun path => do
    let fd ← Filesystem.create clock path flags mode
    let st ← stat path
    return ⟨TTL, statToAttr st, 0, fd, 0⟩

/-- `offset.max(0) as u64` -/
def fileOffset (offset : ℤ) : ℕ := offset.toNat

def read (req : Request) (fh : ℕ) (offset : ℤ) (size : ℕ) : Action (Except Errno Bytes) :=
  onFd req (readFd fh (fileOffset offset) size)

/-- What `write_fd` returns is dropped. -/
def write (clock : Clock) (req : Request) (fh : ℕ) (offset : ℤ) (data : Bytes) :
    Action (Except Errno ℕ) :=
  onFd req do
    let _ ← writeFd clock fh (fileOffset offset) data
    return U32.ofUsize data.length

def flush (fh : ℕ) : Action (Except Errno PUnit) := onOwn (Filesystem.flush fh)

def release (req : Request) (fh : ℕ) : Action (Except Errno PUnit) := onFd req (closeFd fh)

def fsync (fh : ℕ) : Action (Except Errno PUnit) := onOwn (Filesystem.fsync fh)

def opendir : Action (Except Errno ReplyOpened) := return .ok ⟨0, 0⟩

def releasedir : Action (Except Errno PUnit) := return .ok ⟨⟩

def fsyncdir (ino : ℕ) : Action (Except Errno PUnit) := do
  let path ← pathOfInode ino
  match path with
  | none => return .error Libc.ENOENT
  | some path => onOwn (Filesystem.fsyncdir path)

def statfs : Action (Except Errno ReplyStatfs) :=
  return .ok ⟨1000000, 500000, 500000, 1000000, 500000, 4096, 255, 4096⟩

def readlink (req : Request) (ino : ℕ) : Action (Except Errno Bytes) :=
  onNode req ino fun path => Filesystem.readlink path

def symlink (clock : Clock) (req : Request) (parent : ℕ) (name : OsStr) (target : Bytes) :
    Action (Except Errno ReplyNode) :=
  onChild req parent name fun path => do
    Filesystem.symlink clock target path
    let st ← stat path
    return replyNode st

def link (clock : Clock) (req : Request) (ino newparent : ℕ) (newname : OsStr) :
    Action (Except Errno ReplyNode) :=
  match newname with
  | none => return .error Libc.EINVAL
  | some newname => do
    let targetPath ← pathOfInode ino
    match targetPath with
    | none => return .error Libc.ENOENT
    | some targetPath =>
      onNode req newparent fun newparentPath => do
        Filesystem.link clock targetPath (childPath newparentPath newname)
        let st ← stat (childPath newparentPath newname)
        return replyNode st

/-- The bits of `mask` beyond the three access rights are dropped. -/
def access (req : Request) (ino : ℕ) (mask : UInt32) : Action (Except Errno PUnit) :=
  onNode req ino fun path => do
    let row ← stat path
    ask fun _ => requireAccess row.mode row.uid row.gid req.uid req.gid (Access.fromBitsTruncate mask)

/-- The answer about attributes, with the room for them checked last. -/
def replySized {α : Type} (size : ℕ) (bytes : α → Bytes) (p : Action (Except Errno α)) :
    Action (Except Errno ReplyXattr) := do
  let result ← p
  return result.bind fun a => replyXattr size (bytes a)

def getxattr (req : Request) (ino : ℕ) (name : OsStr) (size : ℕ) : Action (Except Errno ReplyXattr) :=
  match name with
  | none => return .error Libc.EINVAL
  | some name => replySized size (fun v => v) (onNode req ino fun path => Filesystem.getxattr path name)

def listxattr (req : Request) (ino size : ℕ) : Action (Except Errno ReplyXattr) :=
  replySized size listBuffer (onNode req ino fun path => Filesystem.listxattr path)

def removexattr (clock : Clock) (req : Request) (ino : ℕ) (name : OsStr) :
    Action (Except Errno PUnit) :=
  match name with
  | none => return .error Libc.EINVAL
  | some name => onNode req ino fun path => Filesystem.removexattr clock path name

end Adapter

/-! ### Requests -/

/-- A request that is made of the adapter, with its arguments. -/
inductive Message
  | lookup (parent : ℕ) (name : OsStr)
  | getattr (ino : ℕ)
  | setattr (readings : Readings) (ino : ℕ) (changes : Changes)
  | mkdir (parent : ℕ) (name : OsStr) (mode : UInt32)
  | rmdir (parent : ℕ) (name : OsStr)
  | unlink (parent : ℕ) (name : OsStr)
  | open_ (ino : ℕ) (flags : Flags)
  | create (parent : ℕ) (name : OsStr) (mode : UInt32) (flags : Flags)
  | read (fh : ℕ) (offset : ℤ) (size : ℕ)
  | write (fh : ℕ) (offset : ℤ) (data : Bytes)
  | flush (fh : ℕ)
  | release (fh : ℕ)
  | fsync (fh : ℕ)
  | opendir
  | readdir (ino offset room : ℕ)
  | releasedir
  | fsyncdir (ino : ℕ)
  | statfs
  | readlink (ino : ℕ)
  | symlink (parent : ℕ) (name : OsStr) (target : Bytes)
  | link (ino newparent : ℕ) (newname : OsStr)
  | rename (parent : ℕ) (name : OsStr) (newparent : ℕ) (newname : OsStr) (flags : UInt32)
  | access (ino : ℕ) (mask : UInt32)
  | setxattr (ino : ℕ) (name : OsStr) (value : Bytes) (flags : Flags)
  | getxattr (ino : ℕ) (name : OsStr) (size : ℕ)
  | listxattr (ino size : ℕ)
  | removexattr (ino : ℕ) (name : OsStr)

/-- What is replied to a request. -/
inductive Answer
  | done
  | node (reply : ReplyNode)
  | attr (reply : ReplyAttr)
  | opened (reply : ReplyOpened)
  | created (reply : ReplyCreated)
  | data (bytes : Bytes)
  | written (size : ℕ)
  | directory (reply : ReplyDirectory)
  | statfs (reply : ReplyStatfs)
  | xattr (reply : ReplyXattr)
  deriving DecidableEq

/-- Answer with `f` of what is replied. -/
def reply {α : Type} (f : α → Answer) (p : Action (Except Errno α)) : Action (Except Errno Answer) := do
  let result ← p
  return result.map f

/-- Serve a request of `req`'s user. -/
def Message.run (clock : Clock) (req : Request) : Message → Action (Except Errno Answer)
  | .lookup parent name => reply .node (Adapter.lookup req parent name)
  | .getattr ino => reply .attr (Adapter.getattr req ino)
  | .setattr readings ino changes => reply .attr (Adapter.setattr readings req ino changes)
  | .mkdir parent name mode => reply .node (Adapter.mkdir clock req parent name mode)
  | .rmdir parent name => reply (fun _ => .done) (Adapter.rmdir clock req parent name)
  | .unlink parent name => reply (fun _ => .done) (Adapter.unlink clock req parent name)
  | .open_ ino flags => reply .opened (Adapter.open_ clock req ino flags)
  | .create parent name mode flags =>
    reply .created (Adapter.create clock req parent name mode flags)
  | .read fh offset size => reply .data (Adapter.read req fh offset size)
  | .write fh offset data => reply .written (Adapter.write clock req fh offset data)
  | .flush fh => reply (fun _ => .done) (Adapter.flush fh)
  | .release fh => reply (fun _ => .done) (Adapter.release req fh)
  | .fsync fh => reply (fun _ => .done) (Adapter.fsync fh)
  | .opendir => reply .opened Adapter.opendir
  | .readdir ino offset room => reply .directory (Adapter.readdir req ino offset ⟨room, []⟩)
  | .releasedir => reply (fun _ => .done) Adapter.releasedir
  | .fsyncdir ino => reply (fun _ => .done) (Adapter.fsyncdir ino)
  | .statfs => reply .statfs Adapter.statfs
  | .readlink ino => reply .data (Adapter.readlink req ino)
  | .symlink parent name target => reply .node (Adapter.symlink clock req parent name target)
  | .link ino newparent newname => reply .node (Adapter.link clock req ino newparent newname)
  | .rename parent name newparent newname flags =>
    reply (fun _ => .done) (Adapter.rename clock req parent name newparent newname flags)
  | .access ino mask => reply (fun _ => .done) (Adapter.access req ino mask)
  | .setxattr ino name value flags =>
    reply (fun _ => .done) (Adapter.setxattr clock req ino name value flags)
  | .getxattr ino name size => reply .xattr (Adapter.getxattr req ino name size)
  | .listxattr ino size => reply .xattr (Adapter.listxattr req ino size)
  | .removexattr ino name => reply (fun _ => .done) (Adapter.removexattr clock req ino name)

end Fuse

end SqliteFs
