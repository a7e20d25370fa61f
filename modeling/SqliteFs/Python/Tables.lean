import SqliteFs.Python.Types
import SqliteFs.Schema
import SqliteFs.Lib.Txn
import Mathlib.Data.List.Sort

/-!
# The tables and their row access in the Python library

The schema is that of the Rust port, and a statement fails as it does there: when it would violate
a primary or a foreign key. Where a parameter comes from the caller, it has to be storable; clock
readings, inodes and constants always are.
-/

namespace SqliteFs

open Txn

namespace Python

/-! ### The database -/

structure NodesRow where
  inode : ℕ
  kind : NodeKind
  mode : ℤ
  uid : ℤ
  gid : ℤ
  size : ℤ
  atimeNs : ℤ
  mtimeNs : ℤ
  ctimeNs : ℤ
  nlink : ℤ
  deriving DecidableEq

instance : Keyed NodesRow ℕ := ⟨NodesRow.inode⟩

@[simp] lemma key_nodesRow (r : NodesRow) : Keyed.key r = r.inode := rfl

structure Db where
  chunkSize : ℤ
  nodes : KeyTable NodesRow
  nodesSeq : ℕ
  entries : KeyTable EntryRow
  blobs : KeyTable BlobsRow
  xattrs : KeyTable XattrsRow
  symlinks : KeyTable SymlinksRow
  deriving DecidableEq

namespace Db

/-- The outcome of a statement; `none` is a violated constraint. -/
abbrev Stmt := Option Db

/-- Does `nodes` have a row for `inode`? -/
def hasNode (d : Db) (inode : ℕ) : Bool := (d.nodes.find? inode).isSome

/-- The `AUTOINCREMENT` rule: one more than every inode that is or ever was in use. -/
def nextInode (d : Db) : ℕ := d.nodes.rows.foldl (fun m r => max m r.inode) d.nodesSeq + 1

/-- `INSERT INTO nodes`, for a row with the inode it carries. -/
def insertNode (d : Db) (row : NodesRow) : Stmt :=
  (d.nodes.insert? row).map fun t => { d with nodes := t, nodesSeq := max d.nodesSeq row.inode }

/-- `UPDATE nodes SET … WHERE inode = ?`. -/
def updateNode (d : Db) (inode : ℕ) (f : NodesRow → NodesRow)
    (hf : ∀ r, (f r).inode = r.inode) : Db :=
  { d with nodes := d.nodes.updateAt inode f hf }

/-- `DELETE FROM nodes WHERE inode = ?`, with its cascades. -/
def deleteNode (d : Db) (inode : ℕ) : Stmt :=
  if d.hasNode inode then
    let entries := d.entries.deleteWhere fun e => e.parent = inode
    if 0 < entries.count fun e => e.inode = inode then none
    else some { d with
      nodes := d.nodes.deleteWhere fun r => r.inode = inode
      entries := entries
      blobs := d.blobs.deleteWhere fun r => r.inode = inode
      xattrs := d.xattrs.deleteWhere fun r => r.inode = inode
      symlinks := d.symlinks.deleteWhere fun r => r.inode = inode }
  else some d

/-- `INSERT INTO entries`. -/
def insertEntry (d : Db) (row : EntryRow) : Stmt :=
  if d.hasNode row.parent && d.hasNode row.inode then
    (d.entries.insert? row).map fun t => { d with entries := t }
  else none

/-- `DELETE FROM entries WHERE parent = ? AND name = ?`. -/
def deleteEntry (d : Db) (parent : ℕ) (name : Str) : Db :=
  { d with entries := d.entries.deleteWhere fun e => e.parent = parent ∧ e.name = name }

/-- `UPDATE entries SET parent = ?, name = ? WHERE parent = ? AND name = ?`. -/
def moveEntry (d : Db) (oldParent : ℕ) (oldName : Str) (newParent : ℕ) (newName : Str) : Stmt :=
  if (d.entries.find? (oldParent, oldName)).isSome then
    if d.hasNode newParent then
      (d.entries.rekey? (oldParent, oldName) (newParent, newName)
        (fun r => ⟨newParent, newName, r.inode⟩) (key_moved newParent newName)).map
        fun t => { d with entries := t }
    else none
  else some d

/-- `INSERT OR REPLACE INTO blobs`. -/
def putBlob (d : Db) (inode : ℕ) (chunkId : ℤ) (data : Bytes) : Stmt :=
  if d.hasNode inode then some { d with blobs := d.blobs.put ⟨inode, chunkId, data⟩ } else none

/-- `UPDATE blobs SET data = ? WHERE inode = ? AND chunk_id = ?`. -/
def updateBlob (d : Db) (inode : ℕ) (chunkId : ℤ) (data : Bytes) : Db :=
  { d with
    blobs := d.blobs.updateAt (inode, chunkId) (fun r => { r with data := data })
      (key_withData data) }

/-- `DELETE FROM blobs WHERE …`. -/
def deleteBlobs (d : Db) (p : BlobsRow → Bool) : Db := { d with blobs := d.blobs.deleteWhere p }

/-- `INSERT INTO xattrs`. -/
def insertXattr (d : Db) (row : XattrsRow) : Stmt :=
  if d.hasNode row.inode then
    (d.xattrs.insert? row).map fun t => { d with xattrs := t }
  else none

/-- `UPDATE xattrs SET value = ? WHERE inode = ? AND name = ?`. -/
def updateXattr (d : Db) (inode : ℕ) (name : Str) (value : Bytes) : Db :=
  { d with
    xattrs := d.xattrs.updateAt (inode, name) (fun r => { r with value := value })
      (key_withValue value) }

/-- `DELETE FROM xattrs WHERE inode = ? AND name = ?`. -/
def deleteXattr (d : Db) (inode : ℕ) (name : Str) : Db :=
  { d with xattrs := d.xattrs.deleteWhere fun r => r.inode = inode ∧ r.name = name }

/-- `INSERT INTO symlinks`. -/
def insertSymlink (d : Db) (row : SymlinksRow) : Stmt :=
  if d.hasNode row.inode then
    (d.symlinks.insert? row).map fun t => { d with symlinks := t }
  else none

end Db

/-- Code that runs inside `with self._conn`. -/
abbrev Sql := Body Db Halt

/-- `conn.execute(…)` with a statement that may violate a constraint. -/
def execute (f : Db → Db.Stmt) : Sql PUnit := Body.exec fun d => rowOr (f d) .integrityError

/-- A statement that violates no constraint. -/
def update (f : Db → Db) : Sql PUnit := Body.exec fun d => .ok (f d)

/-- Pass integers to the next statement. -/
def params (ns : List ℤ) : Sql PUnit := Body.ask fun _ => bindParams ns

section Steps
variable {α : Type} {d d' : Db} {u : PUnit} {g : PUnit → Sql α} {r : α}

lemma execute_eq_ok {f : Db → Db.Stmt} : execute f d = .ok (u, d') ↔ f d = some d' := by
  unfold execute
  rw [Body.exec_eq_ok, rowOr_eq_ok]

lemma update_eq_ok {f : Db → Db} : update f d = .ok (u, d') ↔ d' = f d := by
  unfold update
  rw [Body.exec_eq_ok]
  simp [eq_comm]

lemma execute_bind_eq_ok {f : Db → Db.Stmt} :
    (execute f >>= g) d = .ok (r, d') ↔ ∃ d₁, f d = some d₁ ∧ g ⟨⟩ d₁ = .ok (r, d') := by
  unfold execute
  simp only [Body.exec_bind_eq_ok, rowOr_eq_ok]

lemma update_bind_eq_ok {f : Db → Db} :
    (update f >>= g) d = .ok (r, d') ↔ g ⟨⟩ (f d) = .ok (r, d') := by
  unfold update
  rw [Body.exec_bind_eq_ok]
  simp

lemma params_bind_eq_ok {ns : List ℤ} :
    (params ns >>= g) d = .ok (r, d') ↔ (∀ n ∈ ns, Storable n) ∧ g ⟨⟩ d = .ok (r, d') := by
  unfold params
  rw [Body.ask_bind_eq_ok]
  constructor
  · rintro ⟨_, h, hg⟩
    exact ⟨bindParams_eq_ok.mp h, hg⟩
  · rintro ⟨h, hg⟩
    exact ⟨⟨⟩, bindParams_eq_ok.mpr h, hg⟩

end Steps

/-! ### nodes.py -/

namespace Nodes

def insert (kind : NodeKind) (mode uid gid nowNs : ℤ) : Sql ℕ := do
  let nlink := if kind = .dir then 2 else 1
  params [mode, uid, gid]
  let inode ← Body.ask fun d => .ok d.nextInode
  execute fun d => d.insertNode ⟨inode, kind, mode, uid, gid, 0, nowNs, nowNs, nowNs, nlink⟩
  return inode

def get (d : Db) (inode : ℕ) : Res NodesRow :=
  rowOr (d.nodes.find? inode) (.notFound [.lit "no node with inode ", .num inode])

def updateModeUidGid (inode : ℕ) (mode uid gid : Option ℤ) (ctimeNs : ℤ) : Sql PUnit := do
  params (mode.toList ++ uid.toList ++ gid.toList)
  update fun d => d.updateNode inode
    (fun r => { r with
      mode := mode.getD r.mode
      uid := uid.getD r.uid
      gid := gid.getD r.gid
      ctimeNs := ctimeNs })
    fun _ => rfl

def updateTimes (inode : ℕ) (atimeNs mtimeNs ctimeNs : Option ℤ) : Sql PUnit :=
  if atimeNs = none ∧ mtimeNs = none ∧ ctimeNs = none then pure ⟨⟩
  else do
    params (atimeNs.toList ++ mtimeNs.toList)
    update fun d => d.updateNode inode
      (fun r => { r with
        atimeNs := atimeNs.getD r.atimeNs
        mtimeNs := mtimeNs.getD r.mtimeNs
        ctimeNs := ctimeNs.getD r.ctimeNs })
      fun _ => rfl

def updateSize (inode : ℕ) (size mtimeNs ctimeNs : ℤ) : Sql PUnit := do
  params [size]
  update fun d => d.updateNode inode
    (fun r => { r with size := size, mtimeNs := mtimeNs, ctimeNs := ctimeNs }) fun _ => rfl

/-- Unpacking `None`, where no row has the inode, is a `TypeError`. -/
def changeNlink (inode : ℕ) (delta ctimeNs : ℤ) : Sql ℤ := do
  update fun d => d.updateNode inode
    (fun r => { r with nlink := r.nlink + delta, ctimeNs := ctimeNs }) fun _ => rfl
  Body.ask fun d => rowOr ((d.nodes.find? inode).map NodesRow.nlink) .typeError

def delete (inode : ℕ) : Sql PUnit := execute fun d => d.deleteNode inode

end Nodes

/-! ### entries.py -/

namespace Entries

def insert (parent : ℕ) (name : Str) (inode : ℕ) : Sql PUnit :=
  execute fun d => d.insertEntry ⟨parent, name, inode⟩

/-- The message of a missing entry. -/
def noEntry (parent : ℕ) (name : Str) : Exc :=
  .notFound [.lit "no entry ", .repr name, .lit " under inode ", .num parent]

def get (d : Db) (parent : ℕ) (name : Str) : Res EntryRow :=
  rowOr (d.entries.find? (parent, name)) (noEntry parent name)

def delete (parent : ℕ) (name : Str) : Sql PUnit := update fun d => d.deleteEntry parent name

/-- `ORDER BY name ASC`: the order of code points is the order of UTF-8 bytes. -/
def list_ (d : Db) (parent : ℕ) : List EntryRow :=
  (d.entries.select fun e => e.parent = parent).insertionSort fun a b => a.name ≤ b.name

/-- `count` without a kind, the only way in which the filesystem calls it. -/
def count (d : Db) (parent : ℕ) : ℕ := d.entries.count fun e => e.parent = parent

def rename (oldParent : ℕ) (oldName : Str) (newParent : ℕ) (newName : Str) : Sql PUnit :=
  execute fun d => d.moveEntry oldParent oldName newParent newName

/-- `SELECT parent, name FROM entries WHERE inode = ? LIMIT 1`: the first row in table order. -/
def ofInode (d : Db) (inode : ℕ) : Option EntryRow :=
  (d.entries.select fun e => e.inode = inode).head?

def parentOf (d : Db) (inode : ℕ) : Option ℕ := (ofInode d inode).map EntryRow.parent

end Entries

namespace Nodes

/-- The loop of `ancestry`, cut off after `fuel` rounds. -/
def ancestryLoop (d : Db) : ℕ → ℕ → List ℕ → Res (List ℕ)
  | 0, _, _ => .error .diverge
  | fuel + 1, cur, result =>
    match Entries.parentOf d cur with
    | some p => ancestryLoop d fuel p (result ++ [p])
    | none => .ok result

/-- A walk that takes more rounds than there are entries has met one of them twice, and will
go on forever. -/
def ancestry (d : Db) (inode : ℕ) : Res (List ℕ) :=
  ancestryLoop d (d.entries.rows.length + 1) inode []

end Nodes

/-! ### symlinks.py -/

namespace Symlinks

def insert (inode : ℕ) (target : Bytes) : Sql PUnit :=
  execute fun d => d.insertSymlink ⟨inode, target⟩

def get (d : Db) (inode : ℕ) : Res Bytes :=
  rowOr ((d.symlinks.find? inode).map SymlinksRow.target)
    (.notFound [.lit "inode ", .num inode, .lit " has no symlinks row"])

end Symlinks

/-! ### xattrs.py -/

namespace Xattrs

def XATTR_NAME_MAX : ℕ := 255
def XATTR_VALUE_MAX : ℕ := 65536

/-- `"trusted."` -/
def trustedPrefix : Str := ['t', 'r', 'u', 's', 't', 'e', 'd', '.']

def validateName (name : Str) (callerUid : ℤ) : Res PUnit := do
  check (name ≠ []) (.invalidXattr [.lit "xattr name must be non-empty"])
  check ('\x00' ∉ name) (.invalidXattr [.lit "xattr name contains NUL"])
  check (name.len ≤ XATTR_NAME_MAX)
    (.invalidXattr [.lit "xattr name exceeds ", .num XATTR_NAME_MAX, .lit " bytes: ", .repr name])
  check ('.' ∈ name) (.invalidXattr [.lit "xattr name must have a namespace: ", .repr name])
  check (¬ (trustedPrefix.isPrefixOf name ∧ callerUid ≠ 0))
    (.permissionDenied [.lit "setting trusted.* xattrs requires root"])

def validateValue (value : Bytes) : Res PUnit :=
  check (value.length ≤ XATTR_VALUE_MAX)
    (.invalidXattr [.lit "xattr value exceeds ", .num XATTR_VALUE_MAX, .lit " bytes"])

/-- The message of a missing attribute. -/
def notSet (inode : ℕ) (name : Str) : Exc :=
  .notFound [.lit "xattr ", .repr name, .lit " not set on inode ", .num inode]

def get (d : Db) (inode : ℕ) (name : Str) : Res Bytes :=
  rowOr ((d.xattrs.find? (inode, name)).map XattrsRow.value) (notSet inode name)

/-- The flag checks of `set`; returns whether the attribute exists. -/
def checkFlags (d : Db) (inode : ℕ) (name : Str) (flags : ℤ) : Res Bool := do
  let exists_ := (d.xattrs.find? (inode, name)).isSome
  check (¬ (hasBits flags Os.XATTR_CREATE ∧ exists_))
    (.alreadyExists [.lit "xattr ", .repr name, .lit " already exists on inode ", .num inode])
  check (¬ (hasBits flags Os.XATTR_REPLACE ∧ ¬ exists_)) (notSet inode name)
  return exists_

def set (inode : ℕ) (name : Str) (value : Bytes) (flags : ℤ) : Sql PUnit := do
  let exists_ ← Body.ask fun d => checkFlags d inode name flags
  if exists_ then update fun d => d.updateXattr inode name value
  else execute fun d => d.insertXattr ⟨inode, name, value⟩

/-- `ORDER BY name ASC`. -/
def listNames (d : Db) (inode : ℕ) : List Str :=
  ((d.xattrs.select fun r => r.inode = inode).map XattrsRow.name).insertionSort (· ≤ ·)

def remove (inode : ℕ) (name : Str) : Sql PUnit := do
  let rowcount ← Body.ask fun d => .ok (d.xattrs.count fun r => r.inode = inode ∧ r.name = name)
  update fun d => d.deleteXattr inode name
  Body.ask fun _ => check (rowcount ≠ 0) (notSet inode name)

end Xattrs

end Python

end SqliteFs
