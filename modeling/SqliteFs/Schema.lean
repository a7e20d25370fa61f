import SqliteFs.Types
import SqliteFs.Lib.KeyTable

/-!
# The tables and the statements on them

The database holds the five tables of the schema, the chunk size stored at `mkfs`, and the
`AUTOINCREMENT` counter of `nodes`. A statement is a function on the database that fails when it
would violate a primary key or, with `PRAGMA foreign_keys = ON`, a foreign key. Deleting a node
cascades as the schema says, except to entries that name the node as their child, which make the
deletion fail.
-/

namespace SqliteFs

def DEFAULT_CHUNK_SIZE : ℤ := 65536
def ROOT_INODE : ℕ := 1

structure NodesRow where
  inode : ℕ
  kind : NodeKind
  mode : UInt32
  uid : UInt32
  gid : UInt32
  size : ℕ
  atimeNs : ℤ
  mtimeNs : ℤ
  ctimeNs : ℤ
  nlink : ℤ
  deriving DecidableEq

structure EntryRow where
  parent : ℕ
  name : Str
  inode : ℕ
  deriving DecidableEq

structure BlobsRow where
  inode : ℕ
  chunkId : ℤ
  data : Bytes
  deriving DecidableEq

structure XattrsRow where
  inode : ℕ
  name : Str
  value : Bytes
  deriving DecidableEq

structure SymlinksRow where
  inode : ℕ
  target : Bytes
  deriving DecidableEq

instance : Keyed NodesRow ℕ := ⟨NodesRow.inode⟩
instance : Keyed EntryRow (ℕ × Str) := ⟨fun r => (r.parent, r.name)⟩
instance : Keyed BlobsRow (ℕ × ℤ) := ⟨fun r => (r.inode, r.chunkId)⟩
instance : Keyed XattrsRow (ℕ × Str) := ⟨fun r => (r.inode, r.name)⟩
instance : Keyed SymlinksRow ℕ := ⟨SymlinksRow.inode⟩

@[simp] lemma key_nodesRow (r : NodesRow) : Keyed.key r = r.inode := rfl
@[simp] lemma key_entryRow (r : EntryRow) : Keyed.key r = (r.parent, r.name) := rfl
@[simp] lemma key_blobsRow (r : BlobsRow) : Keyed.key r = (r.inode, r.chunkId) := rfl
@[simp] lemma key_xattrsRow (r : XattrsRow) : Keyed.key r = (r.inode, r.name) := rfl
@[simp] lemma key_symlinksRow (r : SymlinksRow) : Keyed.key r = r.inode := rfl

lemma inode_withNlink (delta ctimeNs : ℤ) (r : NodesRow) :
    { r with nlink := r.nlink + delta, ctimeNs := ctimeNs }.inode = r.inode :=
  rfl

lemma key_moved (parent : ℕ) (name : Str) (r : EntryRow) :
    Keyed.key (⟨parent, name, r.inode⟩ : EntryRow) = (parent, name) :=
  rfl

lemma key_withData (data : Bytes) (r : BlobsRow) :
    Keyed.key { r with data := data } = Keyed.key r :=
  rfl

lemma key_withValue (value : Bytes) (r : XattrsRow) :
    Keyed.key { r with value := value } = Keyed.key r :=
  rfl

structure Db where
  chunkSize : ℤ
  nodes : KeyTable NodesRow
  nodesSeq : ℕ
  entries : KeyTable EntryRow
  blobs : KeyTable BlobsRow
  xattrs : KeyTable XattrsRow
  symlinks : KeyTable SymlinksRow
  deriving DecidableEq

namespace Db

/-- The outcome of a statement. -/
abbrev Stmt := Except SqliteError Db

/-- Does `nodes` have a row for `inode`? -/
def hasNode (d : Db) (inode : ℕ) : Bool := (d.nodes.find? inode).isSome

/-! ### nodes -/

/-- The `AUTOINCREMENT` rule: one more than every inode that is or ever was in use. -/
def nextInode (d : Db) : ℕ := d.nodes.rows.foldl (fun m r => max m r.inode) d.nodesSeq + 1

/-- `INSERT INTO nodes`, for a row with the inode it carries. -/
def insertNode (d : Db) (row : NodesRow) : Stmt :=
  match d.nodes.insert? row with
  | some t => .ok { d with nodes := t, nodesSeq := max d.nodesSeq row.inode }
  | none => .error .constraintViolation

/-- `UPDATE nodes SET … WHERE inode = ?`. -/
def updateNode (d : Db) (inode : ℕ) (f : NodesRow → NodesRow)
    (hf : ∀ r, (f r).inode = r.inode) : Db :=
  { d with nodes := d.nodes.updateAt inode f hf }

/-- `DELETE FROM nodes WHERE inode = ?`, with its cascades. -/
def deleteNode (d : Db) (inode : ℕ) : Stmt :=
  if d.hasNode inode then
    let entries := d.entries.deleteWhere fun e => e.parent = inode
    if 0 < entries.count fun e => e.inode = inode then .error .constraintViolation
    else .ok { d with
      nodes := d.nodes.deleteWhere fun r => r.inode = inode
      entries := entries
      blobs := d.blobs.deleteWhere fun r => r.inode = inode
      xattrs := d.xattrs.deleteWhere fun r => r.inode = inode
      symlinks := d.symlinks.deleteWhere fun r => r.inode = inode }
  else .ok d

/-! ### entries -/

/-- `INSERT INTO entries`. -/
def insertEntry (d : Db) (row : EntryRow) : Stmt :=
  if d.hasNode row.parent && d.hasNode row.inode then
    match d.entries.insert? row with
    | some t => .ok { d with entries := t }
    | none => .error .constraintViolation
  else .error .constraintViolation

/-- `DELETE FROM entries WHERE parent = ? AND name = ?`. -/
def deleteEntry (d : Db) (parent : ℕ) (name : Str) : Db :=
  { d with entries := d.entries.deleteWhere fun e => e.parent = parent ∧ e.name = name }

/-- `UPDATE entries SET parent = ?, name = ? WHERE parent = ? AND name = ?`. -/
def moveEntry (d : Db) (oldParent : ℕ) (oldName : Str) (newParent : ℕ) (newName : Str) : Stmt :=
  if (d.entries.find? (oldParent, oldName)).isSome then
    if d.hasNode newParent then
      match d.entries.rekey? (oldParent, oldName) (newParent, newName)
          (fun r => ⟨newParent, newName, r.inode⟩) (key_moved newParent newName) with
      | some t => .ok { d with entries := t }
      | none => .error .constraintViolation
    else .error .constraintViolation
  else .ok d

/-! ### blobs -/

/-- `INSERT OR REPLACE INTO blobs`. -/
def putBlob (d : Db) (inode : ℕ) (chunkId : ℤ) (data : Bytes) : Stmt :=
  if d.hasNode inode then .ok { d with blobs := d.blobs.put ⟨inode, chunkId, data⟩ }
  else .error .constraintViolation

/-- `UPDATE blobs SET data = ? WHERE inode = ? AND chunk_id = ?`. -/
def updateBlob (d : Db) (inode : ℕ) (chunkId : ℤ) (data : Bytes) : Db :=
  { d with
    blobs := d.blobs.updateAt (inode, chunkId) (fun r => { r with data := data })
      (key_withData data) }

/-- `DELETE FROM blobs WHERE …`. -/
def deleteBlobs (d : Db) (p : BlobsRow → Bool) : Db := { d with blobs := d.blobs.deleteWhere p }

/-! ### xattrs and symlinks -/

/-- `INSERT INTO xattrs`. -/
def insertXattr (d : Db) (row : XattrsRow) : Stmt :=
  if d.hasNode row.inode then
    match d.xattrs.insert? row with
    | some t => .ok { d with xattrs := t }
    | none => .error .constraintViolation
  else .error .constraintViolation

/-- `UPDATE xattrs SET value = ? WHERE inode = ? AND name = ?`. -/
def updateXattr (d : Db) (inode : ℕ) (name : Str) (value : Bytes) : Db :=
  { d with
    xattrs := d.xattrs.updateAt (inode, name) (fun r => { r with value := value })
      (key_withValue value) }

/-- `DELETE FROM xattrs WHERE inode = ? AND name = ?`. -/
def deleteXattr (d : Db) (inode : ℕ) (name : Str) : Db :=
  { d with xattrs := d.xattrs.deleteWhere fun r => r.inode = inode ∧ r.name = name }

/-- `INSERT INTO symlinks`. -/
def insertSymlink (d : Db) (row : SymlinksRow) : Stmt :=
  if d.hasNode row.inode then
    match d.symlinks.insert? row with
    | some t => .ok { d with symlinks := t }
    | none => .error .constraintViolation
  else .error .constraintViolation

/-! ### When a statement succeeds, and with what -/

section Success
variable {d d' : Db}

lemma insertNode_eq_ok {row : NodesRow} : d.insertNode row = .ok d' ↔
    ∃ t, d.nodes.insert? row = some t ∧
      d' = { d with nodes := t, nodesSeq := max d.nodesSeq row.inode } := by
  unfold insertNode
  cases d.nodes.insert? row <;> simp [eq_comm]

lemma deleteNode_eq_ok {inode : ℕ} (h : d.hasNode inode = true) : d.deleteNode inode = .ok d' ↔
    (d.entries.deleteWhere fun e => e.parent = inode).count (fun e => e.inode = inode) = 0 ∧
      d' = { d with
        nodes := d.nodes.deleteWhere fun r => r.inode = inode
        entries := d.entries.deleteWhere fun e => e.parent = inode
        blobs := d.blobs.deleteWhere fun r => r.inode = inode
        xattrs := d.xattrs.deleteWhere fun r => r.inode = inode
        symlinks := d.symlinks.deleteWhere fun r => r.inode = inode } := by
  unfold deleteNode
  rw [if_pos h]
  dsimp only
  split_ifs with hc
  · simp only [false_iff, not_and]
    omega
  · simp only [Except.ok.injEq, eq_comm (b := d')]
    exact ⟨fun hd => ⟨by omega, hd⟩, And.right⟩

lemma insertEntry_eq_ok {row : EntryRow} : d.insertEntry row = .ok d' ↔
    d.hasNode row.parent = true ∧ d.hasNode row.inode = true ∧
      ∃ t, d.entries.insert? row = some t ∧ d' = { d with entries := t } := by
  unfold insertEntry
  split_ifs with h
  · simp only [Bool.and_eq_true] at h
    cases d.entries.insert? row <;> simp [h, eq_comm]
  · simp only [Bool.and_eq_true, not_and] at h
    simp only [false_iff, not_and]
    exact fun h1 h2 => absurd h2 (h h1)

lemma moveEntry_eq_ok {p q : ℕ} {m n : Str} (h : (d.entries.find? (p, m)).isSome) :
    d.moveEntry p m q n = .ok d' ↔ d.hasNode q = true ∧
      ∃ t, d.entries.rekey? (p, m) (q, n) (fun r => ⟨q, n, r.inode⟩) (fun _ => rfl) = some t ∧
        d' = { d with entries := t } := by
  unfold moveEntry
  rw [if_pos h]
  split_ifs with hq
  · cases d.entries.rekey? (p, m) (q, n) (fun r => ⟨q, n, r.inode⟩) (fun _ => rfl) <;>
      simp [hq, eq_comm]
  · simp [hq]

lemma putBlob_eq_ok {inode : ℕ} {i : ℤ} {data : Bytes} : d.putBlob inode i data = .ok d' ↔
    d.hasNode inode = true ∧ d' = { d with blobs := d.blobs.put ⟨inode, i, data⟩ } := by
  unfold putBlob
  split_ifs with h <;> simp [h, eq_comm]

lemma insertXattr_eq_ok {row : XattrsRow} : d.insertXattr row = .ok d' ↔
    d.hasNode row.inode = true ∧
      ∃ t, d.xattrs.insert? row = some t ∧ d' = { d with xattrs := t } := by
  unfold insertXattr
  split_ifs with h
  · cases d.xattrs.insert? row <;> simp [h, eq_comm]
  · simp [h]

lemma insertSymlink_eq_ok {row : SymlinksRow} : d.insertSymlink row = .ok d' ↔
    d.hasNode row.inode = true ∧
      ∃ t, d.symlinks.insert? row = some t ∧ d' = { d with symlinks := t } := by
  unfold insertSymlink
  split_ifs with h
  · cases d.symlinks.insert? row <;> simp [h, eq_comm]
  · simp [h]

end Success

end Db

end SqliteFs
