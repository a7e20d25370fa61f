import SqliteFs.Filesystem.Machine

/-!
# The FUSE adapter

The kernel addresses a file by its inode. The adapter turns the inode into a path, and asks the
filesystem about that path as the user of the request. It answers with a reply or with an error
number.
-/

namespace SqliteFs

/-- A C `int` that names an error. -/
abbrev Errno := ℤ

namespace Libc

def ENOENT : Errno := 2
def EIO : Errno := 5
def EBADF : Errno := 9
def EAGAIN : Errno := 11
def EACCES : Errno := 13
def EEXIST : Errno := 17
def ENOTDIR : Errno := 20
def EISDIR : Errno := 21
def EINVAL : Errno := 22
def EROFS : Errno := 30
def ENAMETOOLONG : Errno := 36
def ENOTEMPTY : Errno := 39
def ELOOP : Errno := 40

end Libc

def Error.errno : Error → Errno
  | pathSyntax _ => Libc.EINVAL
  | invalidArgument _ => Libc.EINVAL
  | invalidXattr _ => Libc.EINVAL
  | nameTooLong _ => Libc.ENAMETOOLONG
  | notFound _ => Libc.ENOENT
  | alreadyExists _ => Libc.EEXIST
  | notADirectory _ => Libc.ENOTDIR
  | isADirectory _ => Libc.EISDIR
  | directoryNotEmpty _ => Libc.ENOTEMPTY
  | permissionDenied _ => Libc.EACCES
  | readOnlyFilesystem => Libc.EROFS
  | lockConflict _ => Libc.EAGAIN
  | badFileDescriptor _ => Libc.EBADF
  | symlinkLoop _ => Libc.ELOOP
  | sqlite _ => Libc.EIO

namespace Fuse

open Filesystem

/-! ### Attributes -/

inductive FileType
  | regularFile | directory | symlink
  deriving DecidableEq, Repr

/-- A `SystemTime`, as what has passed since `UNIX_EPOCH`. -/
structure SystemTime where
  secs : ℕ
  nanos : ℕ
  deriving DecidableEq

/-- A `SystemTime` that may lie before the epoch: nanoseconds from `UNIX_EPOCH`. -/
abbrev Instant := ℤ

def SystemTime.instant (t : SystemTime) : Instant := t.secs * 1000000000 + t.nanos

inductive TimeOrNow
  | specificTime (t : Instant)
  | now
  deriving DecidableEq

structure FileAttr where
  ino : ℕ
  size : ℕ
  blocks : ℕ
  atime : SystemTime
  mtime : SystemTime
  ctime : SystemTime
  crtime : SystemTime
  kind : FileType
  perm : UInt16
  nlink : ℕ
  uid : UInt32
  gid : UInt32
  rdev : ℕ
  blksize : ℕ
  flags : ℕ
  deriving DecidableEq

def kindToFt : NodeKind → FileType
  | .file => .regularFile
  | .dir => .directory
  | .symlink => .symlink

/-- Seconds are cut off towards zero and are none before the epoch; nanoseconds are the remainder
of the division with rounding down. -/
def toTs (ns : ℤ) : SystemTime :=
  ⟨(max (ns.tdiv 1000000000) 0).toNat, (ns.emod 1000000000).toNat⟩

def statToAttr (st : Stat) : FileAttr where
  ino := st.inode
  size := st.size
  blocks := U64.add st.size 511 / 512
  atime := toTs st.atimeNs
  mtime := toTs st.mtimeNs
  ctime := toTs st.ctimeNs
  crtime := toTs st.ctimeNs
  kind := kindToFt st.kind
  perm := (st.mode &&& 0o7777).toUInt16
  nlink := st.nlink
  uid := st.uid
  gid := st.gid
  rdev := 0
  blksize := 4096
  flags := 0

/-- `to_ns` of `setattr`, at the clock reading `now`: `duration_since` fails for what is before the
epoch, and what it gives is cut to 64 bits. -/
def toNs (now : ℤ) : TimeOrNow → ℤ
  | .specificTime t => if 0 ≤ t then U64.toI64 (t.toNat % 2 ^ 64) else 0
  | .now => now

/-! ### Replies -/

/-- Whom a request is made for. -/
structure Request where
  uid : UInt32
  gid : UInt32
  deriving DecidableEq

/-- How long the kernel may keep what it is told, in seconds. -/
def TTL : ℕ := 0

structure ReplyAttr where
  ttl : ℕ
  attr : FileAttr
  deriving DecidableEq

/-- An entry of a listing, with the offset at which the listing goes on behind it. -/
structure ReplyEntry where
  ino : ℕ
  offset : ℕ
  kind : FileType
  name : Str
  deriving DecidableEq

/-- A buffer for the entries of a listing; `room` is the number of those that it takes. -/
structure ReplyDirectory where
  room : ℕ
  entries : List ReplyEntry
  deriving DecidableEq

/-- Add an entry; the result tells whether the buffer was full. -/
def ReplyDirectory.add (reply : ReplyDirectory) (ino offset : ℕ) (kind : FileType) (name : Str) :
    Bool × ReplyDirectory :=
  if reply.room = 0 then (true, reply)
  else (false, ⟨reply.room - 1, reply.entries ++ [⟨ino, offset, kind, name⟩]⟩)

/-- What `p` returns as a value, if it returns. -/
def attempt {α : Type} (p : Action α) : Action (Except Error α) := fun s =>
  match p s with
  | ⟨.ok a, s', commits⟩ => ⟨.ok (.ok a), s', commits⟩
  | ⟨.error (.error e), s', commits⟩ => ⟨.ok (.error e), s', commits⟩
  | ⟨.error halt, s', commits⟩ => ⟨.error halt, s', commits⟩

/-- Run `p` as the user of the request. -/
def asUserOf {α : Type} (req : Request) (p : Action α) : Action (Except Error α) :=
  attempt (asUser (some (req.uid, req.gid)) p)

/-! ### Requests -/

/-- An `OsStr`, as `to_str` reads it: its text, or nothing if it is not UTF-8. -/
abbrev OsStr := Option Str

/-- The arguments of `setattr` that it looks at. -/
structure Changes where
  mode : Option UInt32
  uid : Option UInt32
  gid : Option UInt32
  size : Option ℕ
  atime : Option TimeOrNow
  mtime : Option TimeOrNow
  deriving DecidableEq

/-- The clock readings of a `setattr`, in the order in which they are taken. -/
structure Readings where
  chmod : Clock
  chown : Clock
  atime : ℤ
  mtime : ℤ
  utimes : Clock
  open_ : Clock

namespace Adapter

def childPath (parent name : Str) : Str :=
  if parent = ['/'] then '/' :: name else parent ++ '/' :: name

def getattr (req : Request) (ino : ℕ) : Action (Except Errno ReplyAttr) := do
  let path ← pathOfInode ino
  match path with
  | none => return .error Libc.ENOENT
  | some path =>
    let st ← asUserOf req (stat path)
    match st with
    | .ok st => return .ok ⟨TTL, statToAttr st⟩
    | .error e => return .error e.errno

/-- The part of `setattr` that changes the size. What `close_fd` returns is dropped. -/
def applySize (clock : Clock) (path : Str) : Option ℕ → Action PUnit
  | none => pure ⟨⟩
  | some newSize =>
    if newSize = 0 then do
      let fd ← open_ clock path (Libc.O_RDWR ||| Libc.O_TRUNC)
      let _ ← attempt (closeFd fd)
      return ⟨⟩
    else require False
      (.invalidArgument [.lit "non-zero truncate not supported in tier-6 FUSE adapter"])

/-- What `setattr` does under the guard: a change is made only if those before it succeeded. -/
def applyChanges (r : Readings) (path : Str) (c : Changes) : Action Stat := do
  (match c.mode with
    | some m => Filesystem.chmod r.chmod path m
    | none => pure ⟨⟩)
  (if c.uid.isSome ∨ c.gid.isSome then Filesystem.chown r.chown path c.uid c.gid else pure ⟨⟩)
  (if c.atime.isSome ∨ c.mtime.isSome then
    Filesystem.utimes r.utimes path (c.atime.map (toNs r.atime)) (c.mtime.map (toNs r.mtime))
  else pure ⟨⟩)
  applySize r.open_ path c.size
  stat path

def setattr (r : Readings) (req : Request) (ino : ℕ) (c : Changes) :
    Action (Except Errno ReplyAttr) := do
  let path ← pathOfInode ino
  match path with
  | none => return .error Libc.ENOENT
  | some path =>
    let result ← asUserOf req (applyChanges r path c)
    match result with
    | .ok st => return .ok ⟨TTL, statToAttr st⟩
    | .error e => return .error e.errno

/-- The answer of a request that returns nothing. -/
def replyEmpty (result : Except Error PUnit) : Except Errno PUnit := result.mapError Error.errno

def rename (clock : Clock) (req : Request) (parent : ℕ) (name : OsStr) (newparent : ℕ)
    (newname : OsStr) (_flags : UInt32) : Action (Except Errno PUnit) :=
  match name, newname with
  | some name, some newname => do
    let parentPath ← pathOfInode parent
    match parentPath with
    | none => return .error Libc.ENOENT
    | some parentPath =>
      let newparentPath ← pathOfInode newparent
      match newparentPath with
      | none => return .error Libc.ENOENT
      | some newparentPath =>
        let result ← asUserOf req (Filesystem.rename clock (childPath parentPath name)
          (childPath newparentPath newname))
        return replyEmpty result
  | _, _ => return .error Libc.EINVAL

/-- The flags of the request are ignored: `XattrFlags::empty()` is passed on. -/
def setxattr (clock : Clock) (req : Request) (ino : ℕ) (name : OsStr) (value : Bytes)
    (_flags : Flags) : Action (Except Errno PUnit) :=
  match name with
  | none => return .error Libc.EINVAL
  | some name => do
    let path ← pathOfInode ino
    match path with
    | none => return .error Libc.ENOENT
    | some path =>
      let result ← asUserOf req (Filesystem.setxattr clock path name value 0)
      return replyEmpty result

/-- The path up to its last slash. -/
def parentOfPath (path : Str) : Option Str :=
  if path = ['/'] then none
  else match path.reverse.dropWhile (· ≠ '/') with
    | [] => none
    | [_] => some ['/']
    | _ :: rest => some rest.reverse

/-- The loop over the entries from the resume offset on. -/
def addEntries : List ((ℕ × FileType × Str) × ℕ) → ReplyDirectory → ReplyDirectory
  | [], reply => reply
  | ((inode, kind, name), i) :: rest, reply =>
    let (isFull, reply) := reply.add inode (i + 1) kind name
    if isFull then reply else addEntries rest reply

/-- The entry for `..`, if there is one. -/
def dotDot (req : Request) (ino : ℕ) (path : Str) : Action (List (ℕ × FileType × Str)) :=
  if ino ≠ ROOT_INODE then
    match parentOfPath path with
    | none => return []
    | some ppath => do
      let parentStat ← asUserOf req (stat ppath)
      match parentStat with
      | .ok parentStat => return [(parentStat.inode, .directory, ['.', '.'])]
      | .error _ => return []
  else return [(ino, .directory, ['.', '.'])]

/-- The offsets that come back are positions in earlier listings, which were in memory. -/
def readdir (req : Request) (ino offset : ℕ) (reply : ReplyDirectory) :
    Action (Except Errno ReplyDirectory) := do
  let path ← pathOfInode ino
  match path with
  | none => return .error Libc.ENOENT
  | some path =>
    let entries ← asUserOf req (Filesystem.readdir path)
    match entries with
    | .error e => return .error e.errno
    | .ok entries =>
      let dotDot ← dotDot req ino path
      let full := (ino, .directory, ['.']) :: dotDot ++
        entries.map fun de => (de.inode, kindToFt de.kind, de.name)
      return .ok (addEntries (full.zipIdx.drop offset) reply)

end Adapter

end Fuse

end SqliteFs
