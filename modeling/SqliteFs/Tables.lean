import SqliteFs.Schema
import SqliteFs.Lib.Txn
import Mathlib.Data.List.Sort

/-!
# Row access: nodes, entries, symlinks and extended attributes

Functions that only read take the database and return a `Res`. Functions that change rows are
transaction bodies (`Sql`); each of their statements is atomic.
-/

namespace SqliteFs

open Txn

/-- Code that runs on a connection or inside a transaction. -/
abbrev Sql := Body Db Halt

/-- `conn.execute(…)?`. -/
def stmt (f : Db → Db.Stmt) : Sql PUnit :=
  Body.exec fun d => (f d).mapError fun e => .error (.sqlite e)

/-- A statement that violates no constraint. -/
def update (f : Db → Db) : Sql PUnit := Body.exec fun d => .ok (f d)

@[simp] lemma stmt_eq_ok {f : Db → Db.Stmt} {d d' : Db} {u : PUnit} :
    stmt f d = .ok (u, d') ↔ f d = .ok d' := by
  unfold stmt
  rw [Body.exec_eq_ok]
  cases f d <;> simp [Except.mapError]

lemma stmt_error {f : Db → Db.Stmt} {d : Db} {e : SqliteError} (h : f d = .error e) :
    stmt f d = .error (.error (.sqlite e)) := by
  simp only [stmt, Body.exec, h, Except.mapError]

@[simp] lemma update_eq_ok {f : Db → Db} {d d' : Db} {u : PUnit} :
    update f d = .ok (u, d') ↔ d' = f d := by
  unfold update
  rw [Body.exec_eq_ok]
  simp [eq_comm]

lemma stmt_bind_eq_ok {f : Db → Db.Stmt} {α : Type} {g : PUnit → Sql α} {d d'' : Db} {r : α} :
    (stmt f >>= g) d = .ok (r, d'') ↔ ∃ d', f d = .ok d' ∧ g ⟨⟩ d' = .ok (r, d'') := by
  simp only [Body.bind_eq_ok, stmt_eq_ok]
  constructor
  · rintro ⟨_, d', hf, hg⟩
    exact ⟨d', hf, hg⟩
  · rintro ⟨d', hf, hg⟩
    exact ⟨⟨⟩, d', hf, hg⟩

lemma update_bind_eq_ok {f : Db → Db} {α : Type} {g : PUnit → Sql α} {d d'' : Db} {r : α} :
    (update f >>= g) d = .ok (r, d'') ↔ g ⟨⟩ (f d) = .ok (r, d'') := by
  simp only [Body.bind_eq_ok, update_eq_ok]
  constructor
  · rintro ⟨_, _, rfl, hg⟩
    exact hg
  · exact fun hg => ⟨⟨⟩, _, rfl, hg⟩

/-! ### nodes -/

/-- A row of `nodes` as the program reads it. -/
structure NodeRow where
  inode : ℕ
  kind : NodeKind
  mode : UInt32
  uid : UInt32
  gid : UInt32
  size : ℕ
  atimeNs : ℤ
  mtimeNs : ℤ
  ctimeNs : ℤ
  nlink : ℕ
  deriving DecidableEq

/-- Reading truncates the stored link count to a `u32`. -/
def NodesRow.read (r : NodesRow) : NodeRow :=
  ⟨r.inode, r.kind, r.mode, r.uid, r.gid, r.size, r.atimeNs, r.mtimeNs, r.ctimeNs,
    U32.ofI64 r.nlink⟩

namespace Nodes

def insert (kind : NodeKind) (mode uid gid : UInt32) (nowNs : ℤ) : Sql ℕ := do
  let inode ← Body.ask fun d => .ok d.nextInode
  stmt fun d => d.insertNode ⟨inode, kind, mode, uid, gid, 0, nowNs, nowNs, nowNs,
    if kind = .dir then 2 else 1⟩
  return inode

def get (d : Db) (inode : ℕ) : Res NodeRow :=
  okOr ((d.nodes.find? inode).map NodesRow.read) (.notFound [.lit "no node with inode ", .num inode])

def updateModeUidGid (inode : ℕ) (mode uid gid : Option UInt32) (ctimeNs : ℤ) : Sql PUnit :=
  update fun d => d.updateNode inode
    (fun r => { r with
      mode := mode.getD r.mode
      uid := uid.getD r.uid
      gid := gid.getD r.gid
      ctimeNs := ctimeNs })
    fun _ => rfl

def updateTimes (inode : ℕ) (atimeNs mtimeNs ctimeNs : Option ℤ) : Sql PUnit :=
  if atimeNs = none ∧ mtimeNs = none ∧ ctimeNs = none then pure ⟨⟩
  else update fun d => d.updateNode inode
    (fun r => { r with
      atimeNs := atimeNs.getD r.atimeNs
      mtimeNs := mtimeNs.getD r.mtimeNs
      ctimeNs := ctimeNs.getD r.ctimeNs })
    fun _ => rfl

def updateSize (inode size : ℕ) (mtimeNs ctimeNs : ℤ) : Sql PUnit :=
  update fun d => d.updateNode inode
    (fun r => { r with size := size, mtimeNs := mtimeNs, ctimeNs := ctimeNs }) fun _ => rfl

def changeNlink (inode : ℕ) (delta : ℤ) (ctimeNs : ℤ) : Sql ℕ := do
  update fun d => d.updateNode inode
    (fun r => { r with nlink := r.nlink + delta, ctimeNs := ctimeNs })
    (inode_withNlink delta ctimeNs)
  Body.ask fun d =>
    okOr ((d.nodes.find? inode).map fun r => U32.ofI64 r.nlink) (.sqlite .queryReturnedNoRows)

def delete (inode : ℕ) : Sql PUnit := stmt fun d => d.deleteNode inode

end Nodes

/-! ### entries -/

namespace Entries

/-- Both ways to add a name report a violated constraint as a name that is taken. -/
def nameTaken (parent : ℕ) (name : Str) : Halt :=
  .error (.alreadyExists
    [.lit "entry ", .debug name, .lit " already exists under inode ", .num parent])

def insert (parent : ℕ) (name : Str) (inode : ℕ) : Sql PUnit :=
  Body.exec fun d => (d.insertEntry ⟨parent, name, inode⟩).mapError fun
    | .constraintViolation => nameTaken parent name
    | e => .error (.sqlite e)

def get (d : Db) (parent : ℕ) (name : Str) : Res EntryRow :=
  okOr (d.entries.find? (parent, name))
    (.notFound [.lit "no entry ", .debug name, .lit " under inode ", .num parent])

def delete (parent : ℕ) (name : Str) : Sql PUnit := update fun d => d.deleteEntry parent name

/-- `ORDER BY name ASC`: the order of code points is the order of UTF-8 bytes. -/
def list (d : Db) (parent : ℕ) : List EntryRow :=
  (d.entries.select fun e => e.parent = parent).insertionSort fun a b => a.name ≤ b.name

def count (d : Db) (parent : ℕ) (kind : Option NodeKind) : ℕ :=
  match kind with
  | none => d.entries.count fun e => e.parent = parent
  | some k => d.entries.count fun e =>
      e.parent = parent ∧ (d.nodes.find? e.inode).map NodesRow.kind = some k

def rename (oldParent : ℕ) (oldName : Str) (newParent : ℕ) (newName : Str) : Sql PUnit :=
  Body.exec fun d => (d.moveEntry oldParent oldName newParent newName).mapError fun
    | .constraintViolation => nameTaken newParent newName
    | e => .error (.sqlite e)

/-- `SELECT … FROM entries WHERE inode = ? LIMIT 1`: the first row in table order. -/
def ofInode (d : Db) (inode : ℕ) : Option EntryRow :=
  (d.entries.select fun e => e.inode = inode).head?

def parentOf (d : Db) (inode : ℕ) : Option ℕ := (ofInode d inode).map EntryRow.parent

/-- The loop of `ancestry`, cut off after `fuel` rounds. -/
def ancestryLoop (d : Db) : ℕ → ℕ → List ℕ → Res (List ℕ)
  | 0, _, _ => .error .diverge
  | fuel + 1, cur, out =>
    match parentOf d cur with
    | some p => ancestryLoop d fuel p (out ++ [p])
    | none => .ok out

/-- A walk that takes more rounds than there are entries has met one of them twice, and will
go on forever. -/
def ancestry (d : Db) (inode : ℕ) : Res (List ℕ) :=
  ancestryLoop d (d.entries.rows.length + 1) inode []

@[simp] lemma insert_eq_ok {d d' : Db} {parent inode : ℕ} {name : Str} {u : PUnit} :
    insert parent name inode d = .ok (u, d') ↔ d.insertEntry ⟨parent, name, inode⟩ = .ok d' := by
  unfold insert
  rw [Body.exec_eq_ok]
  cases d.insertEntry ⟨parent, name, inode⟩ <;> simp [Except.mapError]

@[simp] lemma rename_eq_ok {d d' : Db} {p q : ℕ} {m n : Str} {u : PUnit} :
    rename p m q n d = .ok (u, d') ↔ d.moveEntry p m q n = .ok d' := by
  unfold rename
  rw [Body.exec_eq_ok]
  cases d.moveEntry p m q n <;> simp [Except.mapError]

end Entries

/-! ### symlinks -/

namespace Symlinks

def insert (inode : ℕ) (target : Bytes) : Sql PUnit :=
  stmt fun d => d.insertSymlink ⟨inode, target⟩

def get (d : Db) (inode : ℕ) : Res Bytes :=
  okOr ((d.symlinks.find? inode).map SymlinksRow.target)
    (.notFound [.lit "inode ", .num inode, .lit " has no symlinks row"])

end Symlinks

/-! ### xattrs -/

namespace Xattrs

def XATTR_NAME_MAX : ℕ := 255
def XATTR_VALUE_MAX : ℕ := 65536

/-- The `bitflags` set of `setxattr` flags. -/
abbrev XattrFlags := UInt32

def XattrFlags.CREATE : XattrFlags := 0x1
def XattrFlags.REPLACE : XattrFlags := 0x2
def XattrFlags.contains (a b : XattrFlags) : Bool := a &&& b = b

/-- `"trusted."` -/
def trustedPrefix : Str := ['t', 'r', 'u', 's', 't', 'e', 'd', '.']

def validateName (name : Str) (callerUid : UInt32) : Res Unit :=
  if name = [] then err (.invalidXattr [.lit "xattr name must be non-empty"])
  else if '\x00' ∈ name then err (.invalidXattr [.lit "xattr name contains NUL"])
  else if name.len > XATTR_NAME_MAX then
    err (.invalidXattr [.lit "xattr name exceeds ", .num XATTR_NAME_MAX, .lit " bytes: ",
      .debug name])
  else if '.' ∉ name then
    err (.invalidXattr [.lit "xattr name must have a namespace: ", .debug name])
  else if trustedPrefix.isPrefixOf name ∧ callerUid ≠ 0 then
    err (.permissionDenied [.lit "setting trusted.* xattrs requires root"])
  else .ok ()

def validateValue (value : Bytes) : Res Unit :=
  if value.length > XATTR_VALUE_MAX then
    err (.invalidXattr [.lit "xattr value exceeds ", .num XATTR_VALUE_MAX, .lit " bytes"])
  else .ok ()

/-- The message of a missing attribute. -/
def notSet (inode : ℕ) (name : Str) : Error :=
  .notFound [.lit "xattr ", .debug name, .lit " not set on inode ", .num inode]

def get (d : Db) (inode : ℕ) (name : Str) : Res Bytes :=
  okOr ((d.xattrs.find? (inode, name)).map XattrsRow.value) (notSet inode name)

/-- The flag checks of `set`; returns whether the attribute exists. -/
def checkFlags (d : Db) (inode : ℕ) (name : Str) (flags : XattrFlags) : Res Bool :=
  let exists_ := (d.xattrs.find? (inode, name)).isSome
  if flags.contains XattrFlags.CREATE ∧ exists_ then
    err (.alreadyExists [.lit "xattr ", .debug name, .lit " already exists on inode ", .num inode])
  else if flags.contains XattrFlags.REPLACE ∧ ¬ exists_ then err (notSet inode name)
  else .ok exists_

def set (inode : ℕ) (name : Str) (value : Bytes) (flags : XattrFlags) : Sql PUnit := do
  let exists_ ← Body.ask fun d => checkFlags d inode name flags
  if exists_ then update fun d => d.updateXattr inode name value
  else stmt fun d => d.insertXattr ⟨inode, name, value⟩

/-- `ORDER BY name ASC`. -/
def listNames (d : Db) (inode : ℕ) : List Str :=
  ((d.xattrs.select fun r => r.inode = inode).map XattrsRow.name).insertionSort (· ≤ ·)

def remove (inode : ℕ) (name : Str) : Sql PUnit := do
  let changed ← Body.ask fun d => .ok (d.xattrs.count fun r => r.inode = inode ∧ r.name = name)
  update fun d => d.deleteXattr inode name
  if changed = 0 then Body.exec fun _ => err (notSet inode name) else pure ⟨⟩

end Xattrs

end SqliteFs
