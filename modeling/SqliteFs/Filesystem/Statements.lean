import SqliteFs.Filesystem.Calls
import SqliteFs.Lib.Writes

/-!
# The statements of every operation

The operations change the database by statements on its tables. For each operation this file says
which statements it may issue, with what the operation has checked by then. What is to be shown
about who changes which columns follows from these lists, one statement at a time.
-/

namespace SqliteFs

open Txn

/-- A statement that changes the database. -/
inductive Statement
  | insertNode (row : NodesRow)
  | updateTimes (inode : ℕ) (atimeNs mtimeNs ctimeNs : Option ℤ)
  | updateModeUidGid (inode : ℕ) (mode uid gid : Option UInt32) (ctimeNs : ℤ)
  | updateSize (inode size : ℕ) (mtimeNs ctimeNs : ℤ)
  | changeNlink (inode : ℕ) (delta ctimeNs : ℤ)
  | deleteNode (inode : ℕ)
  | insertEntry (row : EntryRow)
  | deleteEntry (parent : ℕ) (name : Str)
  | moveEntry (parent : ℕ) (name : Str) (newParent : ℕ) (newName : Str)
  | putBlob (inode : ℕ) (chunkId : ℤ) (data : Bytes)
  | updateBlob (inode : ℕ) (chunkId : ℤ) (data : Bytes)
  | deleteBlobs (inode : ℕ) (p : BlobsRow → Bool)
  | insertXattr (row : XattrsRow)
  | updateXattr (inode : ℕ) (name : Str) (value : Bytes)
  | deleteXattr (inode : ℕ) (name : Str)
  | insertSymlink (row : SymlinksRow)

/-- The statement turns `d` into `d'`. -/
def Statement.Does (d d' : Db) : Statement → Prop
  | .insertNode row => row.inode = d.nextInode ∧ d.insertNode row = .ok d'
  | .updateTimes inode atimeNs mtimeNs ctimeNs =>
    Nodes.updateTimes inode atimeNs mtimeNs ctimeNs d = .ok (⟨⟩, d')
  | .updateModeUidGid inode mode uid gid ctimeNs =>
    Nodes.updateModeUidGid inode mode uid gid ctimeNs d = .ok (⟨⟩, d')
  | .updateSize inode size mtimeNs ctimeNs =>
    Nodes.updateSize inode size mtimeNs ctimeNs d = .ok (⟨⟩, d')
  | .changeNlink inode delta ctimeNs => d' = d.updateNode inode
      (fun r => { r with nlink := r.nlink + delta, ctimeNs := ctimeNs })
      (inode_withNlink delta ctimeNs)
  | .deleteNode inode => d.deleteNode inode = .ok d'
  | .insertEntry row => d.insertEntry row = .ok d'
  | .deleteEntry parent name => d' = d.deleteEntry parent name
  | .moveEntry parent name newParent newName => d.moveEntry parent name newParent newName = .ok d'
  | .putBlob inode chunkId data => d.putBlob inode chunkId data = .ok d'
  | .updateBlob inode chunkId data => d' = d.updateBlob inode chunkId data
  | .deleteBlobs inode p => d' = d.deleteBlobs fun r => r.inode = inode ∧ p r
  | .insertXattr row => d.insertXattr row = .ok d'
  | .updateXattr inode name value => d' = d.updateXattr inode name value
  | .deleteXattr inode name => d' = d.deleteXattr inode name
  | .insertSymlink row => d.insertSymlink row = .ok d'

/-- Statements in `A` lead from `d` to `d'`. -/
abbrev Db.Writes (d : Db) (A : Statement → Prop) (d' : Db) : Prop :=
  Txn.Writes (fun st d d' => st.Does d d') A d d'

/-- The statements of `b` are in `A`. -/
abbrev Issues {α : Type} (A : Statement → Prop) (b : Sql α) : Prop :=
  Body.Issues (fun st d d' => Statement.Does d d' st) A b

/-! ### The table functions -/

section Tables
variable {A : Statement → Prop}

lemma stmt_issues {g : Db → Db.Stmt} {st : Statement} (hst : A st)
    (hg : ∀ d d', g d = .ok d' → st.Does d d') : Issues A (stmt g) :=
  fun d _ d' h => .single hst (hg d d' (stmt_eq_ok.mp h))

lemma update_issues {g : Db → Db} {st : Statement} (hst : A st) (hg : ∀ d, st.Does d (g d)) :
    Issues A (update g) := by
  intro d _ d' h
  rw [update_eq_ok.mp h]
  exact .single hst (hg d)

lemma Nodes.insert_does {kind : NodeKind} {mode uid gid : UInt32} {now : ℤ} {d d' : Db} {i : ℕ}
    (h : Nodes.insert kind mode uid gid now d = .ok (i, d')) :
    (Statement.insertNode ⟨i, kind, mode, uid, gid, 0, now, now, now,
      if kind = .dir then 2 else 1⟩).Does d d' := by
  obtain ⟨j, hj, h⟩ := Body.ask_bind_eq_ok.mp h
  obtain ⟨d₁, hins, h⟩ := stmt_bind_eq_ok.mp h
  obtain ⟨rfl, rfl⟩ := Body.pure_eq_ok.mp h
  exact ⟨(Except.ok.inj hj).symm, hins⟩

lemma Nodes.insert_issues {kind : NodeKind} {mode uid gid : UInt32} {now : ℤ}
    (h : ∀ inode, A (.insertNode ⟨inode, kind, mode, uid, gid, 0, now, now, now,
      if kind = .dir then 2 else 1⟩)) : Issues A (Nodes.insert kind mode uid gid now) :=
  fun _ inode _ hd => .single (h inode) (Nodes.insert_does hd)

lemma Nodes.updateTimes_issues {inode : ℕ} {a m c : Option ℤ} (h : A (.updateTimes inode a m c)) :
    Issues A (Nodes.updateTimes inode a m c) :=
  fun _ _ _ hd => .single h hd

lemma Nodes.updateModeUidGid_issues {inode : ℕ} {mode uid gid : Option UInt32} {c : ℤ}
    (h : A (.updateModeUidGid inode mode uid gid c)) :
    Issues A (Nodes.updateModeUidGid inode mode uid gid c) :=
  fun _ _ _ hd => .single h hd

lemma Nodes.updateSize_issues {inode size : ℕ} {m c : ℤ} (h : A (.updateSize inode size m c)) :
    Issues A (Nodes.updateSize inode size m c) :=
  fun _ _ _ hd => .single h hd

lemma Nodes.changeNlink_issues {inode : ℕ} {delta c : ℤ} (h : A (.changeNlink inode delta c)) :
    Issues A (Nodes.changeNlink inode delta c) :=
  .bind (update_issues h fun _ => rfl) fun _ => .ask _

lemma Nodes.delete_issues {inode : ℕ} (h : A (.deleteNode inode)) : Issues A (Nodes.delete inode) :=
  stmt_issues h fun _ _ hd => hd

lemma Entries.insert_issues {parent inode : ℕ} {name : Str} (h : A (.insertEntry ⟨parent, name, inode⟩)) :
    Issues A (Entries.insert parent name inode) :=
  fun _ _ _ hd => .single h (Entries.insert_eq_ok.mp hd)

lemma Entries.delete_issues {parent : ℕ} {name : Str} (h : A (.deleteEntry parent name)) :
    Issues A (Entries.delete parent name) :=
  update_issues h fun _ => rfl

lemma Entries.rename_issues {p q : ℕ} {m n : Str} (h : A (.moveEntry p m q n)) :
    Issues A (Entries.rename p m q n) :=
  fun _ _ _ hd => .single h (Entries.rename_eq_ok.mp hd)

lemma Symlinks.insert_issues {inode : ℕ} {target : Bytes} (h : A (.insertSymlink ⟨inode, target⟩)) :
    Issues A (Symlinks.insert inode target) :=
  stmt_issues h fun _ _ hd => hd

lemma Xattrs.set_issues {inode : ℕ} {name : Str} {value : Bytes} {flags : Xattrs.XattrFlags}
    (hins : A (.insertXattr ⟨inode, name, value⟩)) (hupd : A (.updateXattr inode name value)) :
    Issues A (Xattrs.set inode name value flags) :=
  .bind (.ask _) fun _ => .ite (fun _ => update_issues hupd fun _ => rfl)
    fun _ => stmt_issues hins fun _ _ hd => hd

lemma Blobs.writeLoop_issues {inode offset n chunkSize : ℕ} {existing : List (ℕ × Bytes)}
    {data : Bytes} (h : ∀ chunk bytes, A (.putBlob inode chunk bytes)) (cids : List ℕ) :
    ∀ cursor, Issues A (Blobs.writeLoop inode existing data offset n chunkSize cids cursor) := by
  induction cids with
  | nil => exact fun _ => .pure _
  | cons cid cids ih =>
    exact fun _ => .bind (.ask _) fun _ => .bind (stmt_issues (h _ _) fun _ _ hd => hd) fun _ => ih _

lemma Blobs.writeRange_issues {inode offset fileSize chunkSize : ℕ} {data : Bytes}
    (h : ∀ chunk bytes, A (.putBlob inode chunk bytes)) :
    Issues A (Blobs.writeRange inode data offset fileSize chunkSize) :=
  .ite (fun _ => .pure _) fun _ => .bind (.ask _) fun _ => .bind (.ask _) fun _ =>
    .bind (.ask _) fun _ => .bind (Blobs.writeLoop_issues h _ _) fun _ => .pure _

lemma Blobs.truncateTo_issues {inode newSize oldSize chunkSize : ℕ}
    (hdel : ∀ p, A (.deleteBlobs inode p)) (hupd : ∀ chunk bytes, A (.updateBlob inode chunk bytes)) :
    Issues A (Blobs.truncateTo inode newSize oldSize chunkSize) := by
  have hdelete : ∀ (p : BlobsRow → Prop) [DecidablePred p],
      Issues A (update fun d => d.deleteBlobs fun r => r.inode = inode ∧ p r) := by
    intro p _
    refine update_issues (hdel fun r => p r) fun d => ?_
    simp only [Statement.Does, decide_eq_true_eq]
  refine .ite (fun _ => .pure _) fun _ => .bind (.ask _) fun boundary => .bind (.ask _) fun _ =>
    .bind (hdelete fun r => r.chunkId > U64.toI64 boundary) fun _ => .ite (fun _ => ?_) fun _ => ?_
  · exact hdelete fun r => r.chunkId = U64.toI64 boundary
  · refine .bind (.ask _) fun bytes => ?_
    cases bytes with
    | none => exact .pure _
    | some bytes => exact update_issues (hupd _ _) fun _ => rfl

end Tables

namespace Filesystem

/-! ### The operations -/

/-- `open` gets past its checks for the inode `i`, which it then truncates. -/
structure MayTruncate (s : Filesystem) (path : Str) (flags : Flags) (i : ℕ) (row : NodeRow) :
    Prop where
  resolved : resolveToInode s.conn path = .ok i
  node : Nodes.get s.conn i = .ok row
  notDir : row.kind ≠ .dir
  access : (checkOpenAccess row flags s).result = .ok ⟨⟩
  truncates : flags &&& Libc.O_TRUNC ≠ 0
  writable : s.readonly = false

/-- `chmod` gets past its checks. -/
structure MayChmod (s : Filesystem) (path : Str) (i : ℕ) (row : NodeRow) : Prop where
  resolved : resolveToInode s.conn path = .ok i
  node : Nodes.get s.conn i = .ok row
  owner : ¬ (s.callerUid ≠ 0 ∧ s.callerUid ≠ row.uid)

/-- `chown` gets past its checks. -/
structure MayChown (s : Filesystem) (path : Str) (uid gid : Option UInt32) (i : ℕ)
    (row : NodeRow) : Prop where
  resolved : resolveToInode s.conn path = .ok i
  node : Nodes.get s.conn i = .ok row
  uid : ¬ ((uid.any (· ≠ row.uid)) ∧ s.callerUid ≠ 0)
  gid : ¬ (gid.isSome ∧ s.callerUid ≠ 0 ∧ s.callerUid ≠ row.uid)

/-- The new node belongs to the caller. -/
structure CallersNode (s : Filesystem) (kind : NodeKind) (row : NodesRow) : Prop where
  kind : row.kind = kind
  uid : row.uid = s.callerUid
  size : row.size = 0

/-- The operation may issue the statement, in the state where it is called. -/
def Op.Issues (s : Filesystem) : Op → Statement → Prop
  | .mkdir _ _, .insertNode row => CallersNode s .dir row
  | .mkdir path _, .insertEntry row =>
    resolveParentAndName s.conn path = .ok (row.parent, row.name)
  | .mkdir .., .changeNlink .. => True
  | .mkdir .., .updateTimes .. => True
  | .rmdir path, .deleteEntry parent name => resolveParentAndName s.conn path = .ok (parent, name)
  | .rmdir .., .changeNlink .. => True
  | .rmdir .., .updateTimes .. => True
  | .rmdir .., .deleteNode _ => True
  | .create .., .insertNode row => CallersNode s .file row
  | .create path _ _, .insertEntry row =>
    resolveParentAndName s.conn path = .ok (row.parent, row.name)
  | .create .., .updateTimes .. => True
  | .open_ path flags, .deleteBlobs i _ => ∃ row, MayTruncate s path flags i row
  | .open_ path flags, .updateBlob i _ _ => ∃ row, MayTruncate s path flags i row
  | .open_ path flags, .updateSize i _ _ _ => ∃ row, MayTruncate s path flags i row
  | .writeFd fd _ _, .putBlob i _ _ =>
    ∃ f, s.fdtable.entries.find? fd = some f ∧ f.Writable ∧ f.inode = i
  | .writeFd fd _ _, .updateSize i _ _ _ =>
    ∃ f, s.fdtable.entries.find? fd = some f ∧ f.Writable ∧ f.inode = i
  | .closeFd _, .deleteNode _ => True
  | .unlink path, .deleteEntry parent name => resolveParentAndName s.conn path = .ok (parent, name)
  | .unlink _, .changeNlink .. => True
  | .unlink _, .updateTimes .. => True
  | .unlink _, .deleteNode _ => True
  | .symlink .., .insertNode row => CallersNode s .symlink row
  | .symlink _ path, .insertEntry row =>
    resolveParentAndName s.conn path = .ok (row.parent, row.name)
  | .symlink .., .insertSymlink _ => True
  | .symlink .., .updateTimes .. => True
  | .link _ linkPath, .insertEntry row =>
    resolveParentAndName s.conn linkPath = .ok (row.parent, row.name)
  | .link .., .changeNlink .. => True
  | .link .., .updateTimes .. => True
  | .rename _ dst, .deleteEntry parent name =>
    resolveParentAndName s.conn dst = .ok (parent, name)
  | .rename .., .changeNlink .. => True
  | .rename .., .updateTimes .. => True
  | .rename .., .deleteNode _ => True
  | .rename src dst, .moveEntry p m q n =>
    resolveParentAndName s.conn src = .ok (p, m) ∧ resolveParentAndName s.conn dst = .ok (q, n)
  | .chmod path mode, .updateModeUidGid i mode' uid gid _ =>
    mode' = some (mode &&& 0o7777) ∧ uid = none ∧ gid = none ∧ ∃ row, MayChmod s path i row
  | .chown path uid gid, .updateModeUidGid i mode uid' gid' _ =>
    mode = none ∧ uid' = uid ∧ gid' = gid ∧ ∃ row, MayChown s path uid gid i row
  | .utimes .., .updateTimes .. => True
  | .setxattr _ name value _, .insertXattr row => row.name = name ∧ row.value = value ∧
    Xattrs.validateName name s.callerUid = .ok ()
  | .setxattr _ name value _, .updateXattr _ name' value' => name' = name ∧ value' = value ∧
    Xattrs.validateName name s.callerUid = .ok ()
  | .setxattr .., .updateTimes .. => True
  | .removexattr path name, .deleteXattr i name' => name' = name ∧ ∃ row,
    MayRemovexattr s path name i row
  | .removexattr .., .updateTimes .. => True
  | _, _ => False

/-- The statements of `p` are in `A`. -/
abbrev Wrote {α : Type} (A : Statement → Prop) (p : Action α) (s : Filesystem) : Prop :=
  Prog.Wrote (fun st d d' => Statement.Does d d' st) A p s

section Rules
variable {α β : Type} {A : Statement → Prop} {s : Filesystem}

lemma Wrote.ask {q : Filesystem → Res β} {f : β → Action α}
    (h : ∀ b, q s = .ok b → Wrote A (f b) s) : Wrote A (Filesystem.ask q >>= f) s :=
  Prog.Wrote.bind_query h

lemma Wrote.requireWritable {f : PUnit → Action α} (h : s.readonly = false → Wrote A (f ⟨⟩) s) :
    Wrote A (Filesystem.requireWritable >>= f) s := by
  refine .ask fun _ hq => h ?_
  cases hr : s.readonly with
  | false => rfl
  | true => rw [hr] at hq; cases hq

lemma Wrote.require {c : Prop} [Decidable c] {e : Error} {f : PUnit → Action α}
    (h : c → Wrote A (f ⟨⟩) s) : Wrote A (Filesystem.require c e >>= f) s := by
  refine Prog.Wrote.bind_query fun _ hq => h ?_
  by_contra hc
  simp [hc] at hq

lemma Wrote.andThen {p : Action β} {f : β → Action α} (hp : Wrote A p s)
    (hf : ∀ a s', Wrote A (f a) s') : Wrote A (p >>= f) s :=
  Prog.Wrote.bind hp fun a _ => hf a _

/-- Work in memory issues no statement. -/
lemma Wrote.idle {p : Action α} (h : (p s).state.conn = s.conn) : Wrote A p s := Prog.Wrote.of_disk h

lemma Wrote.tx {b : Sql α} (hb : SqliteFs.Issues A b) : Wrote A (Filesystem.tx b) s :=
  .ask fun _ _ => Prog.Wrote.transaction hb

lemma Wrote.collect {n i : ℕ} (h : A (.deleteNode i)) : Wrote A (Filesystem.collect n i) s := by
  refine .ask fun openCount _ => ?_
  split_ifs
  · exact .tx (Nodes.delete_issues h)
  · exact .idle rfl

lemma Wrote.answer {f : α → Reply} {p : Action α} (hp : Wrote A p s) :
    Wrote A (Filesystem.answer f p) s :=
  .andThen hp fun _ _ => .idle rfl

lemma Reads.wrote {p : Action α} (h : Reads p) : Wrote A p s := .idle (congrArg conn (h s).1)

end Rules

section Operations
variable (s : Filesystem) (clock : Clock)

lemma mkdir_wrote (path : Str) (mode : UInt32) :
    Wrote (Op.Issues s (.mkdir path mode)) (mkdir clock path mode) s := by
  apply Wrote.requireWritable
  intro _
  apply Wrote.ask
  rintro ⟨parent, name⟩ hparent
  apply Wrote.ask
  intro parentRow _
  apply Wrote.require
  intro _
  apply Wrote.ask
  intro _ _
  apply Wrote.ask
  rintro ⟨uid, gid⟩ hcaller
  cases hcaller
  refine .andThen (.tx ?_) fun _ _ => .idle rfl
  exact .bind (Nodes.insert_issues fun _ => ⟨rfl, rfl, rfl⟩) fun newIno =>
    .bind (Entries.insert_issues hparent) fun _ => .bind (Nodes.changeNlink_issues trivial) fun _ =>
      .bind (Nodes.updateTimes_issues trivial) fun _ => .pure _

lemma rmdir_wrote (path : Str) : Wrote (Op.Issues s (.rmdir path)) (rmdir clock path) s := by
  apply Wrote.requireWritable
  intro _
  apply Wrote.require
  intro _
  apply Wrote.ask
  rintro ⟨parent, name⟩ hparent
  apply Wrote.ask
  intro entry _
  apply Wrote.ask
  intro row _
  apply Wrote.require
  intro _
  apply Wrote.ask
  intro _ _
  apply Wrote.ask
  intro parentRow _
  apply Wrote.ask
  intro _ _
  refine .andThen (.tx ?_) fun _ _ => .idle rfl
  exact .bind (Entries.delete_issues hparent) fun _ => .bind (Nodes.changeNlink_issues trivial) fun _ =>
    .bind (Nodes.updateTimes_issues trivial) fun _ => Nodes.delete_issues trivial

lemma create_wrote (path : Str) (flags : Flags) (mode : UInt32) :
    Wrote (Op.Issues s (.create path flags mode)) (create clock path flags mode) s := by
  apply Wrote.requireWritable
  intro _
  apply Wrote.ask
  rintro ⟨parent, name⟩ hparent
  apply Wrote.ask
  intro existing _
  cases existing with
  | ok existing =>
    refine .require fun _ => .ask fun row _ => ?_
    refine .andThen ?_ fun _ _ => .idle rfl
    exact .idle rfl
  | error _ =>
    refine .ask fun parentRow _ => .require fun _ => .ask fun _ _ => .ask ?_
    rintro ⟨uid, gid⟩ hcaller
    cases hcaller
    refine .andThen (.tx ?_) fun _ _ => .andThen (.idle rfl) fun _ _ => .idle rfl
    exact .bind (Nodes.insert_issues fun _ => ⟨rfl, rfl, rfl⟩) fun newIno =>
      .bind (Entries.insert_issues hparent) fun _ =>
        .bind (Nodes.updateTimes_issues trivial) fun _ => .pure _

lemma open_wrote (path : Str) (flags : Flags) :
    Wrote (Op.Issues s (.open_ path flags)) (open_ clock path flags) s := by
  apply Wrote.ask
  intro ino hino
  apply Wrote.ask
  intro row hrow
  apply Wrote.require
  intro hfile
  apply Wrote.ask
  intro _ haccess
  split_ifs with htrunc
  · exact .idle rfl
  · apply Wrote.requireWritable
    intro hw
    apply Wrote.ask
    intro chunkSize _
    have hmay : ∃ row, MayTruncate s path flags ino row :=
      ⟨row, hino, hrow, hfile, haccess, htrunc, hw⟩
    refine .andThen (.tx ?_) fun _ _ => .idle rfl
    exact .bind (Blobs.truncateTo_issues (fun _ => hmay) fun _ _ => hmay) fun _ =>
      Nodes.updateSize_issues hmay

lemma writeFd_wrote (fd offset : ℕ) (data : Bytes) :
    Wrote (Op.Issues s (.writeFd fd offset data)) (writeFd clock fd offset data) s := by
  apply Wrote.requireWritable
  intro _
  apply Wrote.ask
  intro f hf
  apply Wrote.require
  intro hmode
  apply Wrote.ask
  intro row _
  apply Wrote.ask
  intro chunkSize _
  have hmay : ∃ g, s.fdtable.entries.find? fd = some g ∧ g.Writable ∧ g.inode = f.inode :=
    ⟨f, FdTable.get_eq_ok.mp hf, hmode, rfl⟩
  refine .andThen (.tx ?_) fun newSize s' => .ask fun path _ => ?_
  · exact .bind (Blobs.writeRange_issues fun _ _ => hmay) fun _ =>
      .bind (Nodes.updateSize_issues hmay) fun _ => .pure _
  · cases path with
    | none => exact .idle rfl
    | some path => exact .andThen (.idle rfl) fun _ _ => .idle rfl

lemma closeFd_wrote (fd : ℕ) : Wrote (Op.Issues s (.closeFd fd)) (closeFd fd) s := by
  refine .andThen (.idle rfl) fun inode s' => .andThen (.idle rfl) fun _ s'' => .ask fun row _ => ?_
  exact .collect trivial

lemma unlink_wrote (path : Str) : Wrote (Op.Issues s (.unlink path)) (unlink clock path) s := by
  apply Wrote.requireWritable
  intro _
  apply Wrote.ask
  rintro ⟨parent, name⟩ hparent
  apply Wrote.ask
  intro entry _
  apply Wrote.ask
  intro row _
  apply Wrote.require
  intro _
  apply Wrote.ask
  intro parentRow _
  apply Wrote.ask
  intro _ _
  refine .andThen (.tx ?_) fun _ _ => .andThen (.collect trivial) fun _ _ => .idle rfl
  exact .bind (Entries.delete_issues hparent) fun _ => .bind (Nodes.changeNlink_issues trivial) fun _ =>
    .bind (Nodes.updateTimes_issues trivial) fun _ => .pure _

lemma symlink_wrote (target : Bytes) (path : Str) :
    Wrote (Op.Issues s (.symlink target path)) (symlink clock target path) s := by
  apply Wrote.requireWritable
  intro _
  apply Wrote.ask
  rintro ⟨parent, name⟩ hparent
  apply Wrote.ask
  intro parentRow _
  apply Wrote.require
  intro _
  apply Wrote.ask
  intro _ _
  apply Wrote.ask
  rintro ⟨uid, gid⟩ hcaller
  cases hcaller
  refine .andThen (.tx ?_) fun _ _ => .idle rfl
  exact .bind (Nodes.insert_issues fun _ => ⟨rfl, rfl, rfl⟩) fun newIno =>
    .bind (Entries.insert_issues hparent) fun _ => .bind (Symlinks.insert_issues trivial) fun _ =>
      .bind (Nodes.updateTimes_issues trivial) fun _ => .pure _

lemma link_wrote (target linkPath : Str) :
    Wrote (Op.Issues s (.link target linkPath)) (link clock target linkPath) s := by
  apply Wrote.requireWritable
  intro _
  apply Wrote.ask
  intro ino _
  apply Wrote.ask
  intro targetRow _
  apply Wrote.require
  intro _
  apply Wrote.ask
  rintro ⟨parent, name⟩ hparent
  apply Wrote.ask
  intro parentRow _
  apply Wrote.require
  intro _
  apply Wrote.ask
  intro _ _
  refine .andThen (.tx ?_) fun _ _ => .idle rfl
  exact .bind (Entries.insert_issues hparent) fun _ => .bind (Nodes.changeNlink_issues trivial) fun _ =>
    Nodes.updateTimes_issues trivial

lemma overwriteTarget_issues {A : Statement → Prop} {srcRow : NodeRow} {srcParent dstParent : ℕ}
    {dstName dst : Str} {dstEntry : EntryRow} (hdelete : A (.deleteEntry dstParent dstName))
    (hnlink : ∀ i c, A (.changeNlink i c clock.now)) (hnode : A (.deleteNode dstEntry.inode)) :
    Issues A (overwriteTarget clock srcRow srcParent dstParent dstName dst dstEntry) := by
  refine .bind (.ask _) fun dstRow => .bind (.ask _) fun _ => .bind (Entries.delete_issues hdelete)
    fun _ => .bind (Nodes.changeNlink_issues (hnlink _ _)) fun newNlink => .bind ?_ fun _ => ?_
  · exact .ite (fun _ => Nodes.changeNlink_issues (hnlink _ _)) fun _ => .pure _
  · exact .ite (fun _ => Nodes.delete_issues hnode) fun _ => .pure _

lemma moveSource_issues {A : Statement → Prop} {srcRow : NodeRow} {srcEntry : EntryRow}
    {srcParent dstParent : ℕ} {srcName dstName : Str}
    (hmove : A (.moveEntry srcParent srcName dstParent dstName))
    (hnlink : ∀ i c, A (.changeNlink i c clock.now)) (htimes : ∀ i a m c, A (.updateTimes i a m c)) :
    Issues A (moveSource clock srcRow srcEntry srcParent srcName dstParent dstName) := by
  refine .bind (Entries.rename_issues hmove) fun _ => .bind ?_ fun _ =>
    .bind (Nodes.updateTimes_issues (htimes _ _ _ _)) fun _ => .bind ?_ fun _ =>
      Nodes.updateTimes_issues (htimes _ _ _ _)
  · exact .ite (fun _ => .bind (Nodes.changeNlink_issues (hnlink _ _)) fun _ =>
      Nodes.changeNlink_issues (hnlink _ _)) fun _ => .pure _
  · exact .ite (fun _ => Nodes.updateTimes_issues (htimes _ _ _ _)) fun _ => .pure _

lemma rename_wrote (src dst : Str) :
    Wrote (Op.Issues s (.rename src dst)) (rename clock src dst) s := by
  apply Wrote.requireWritable
  intro _
  split_ifs
  · exact .idle rfl
  apply Wrote.ask
  rintro ⟨srcParent, srcName⟩ hsrc
  apply Wrote.ask
  intro srcEntry _
  apply Wrote.ask
  intro srcRow _
  apply Wrote.ask
  rintro ⟨dstParent, dstName⟩ hdst
  apply Wrote.ask
  intro dstParentRow _
  apply Wrote.require
  intro _
  apply Wrote.ask
  intro srcParentRow _
  apply Wrote.ask
  intro _ _
  apply Wrote.ask
  intro _ _
  apply Wrote.ask
  intro _ _
  apply Wrote.ask
  intro existingDst _
  have hmove : Issues (Op.Issues s (.rename src dst))
      (moveSource clock srcRow srcEntry srcParent srcName dstParent dstName) :=
    moveSource_issues clock ⟨hsrc, hdst⟩ (fun _ _ => trivial) fun _ _ _ _ => trivial
  refine .andThen (.tx ?_) fun moved _ => ?_
  · cases existingDst with
    | error _ => exact .bind hmove fun _ => .pure _
    | ok dstEntry =>
      exact .ite (fun _ => .pure _) fun _ =>
        .bind (overwriteTarget_issues clock hdst (fun _ _ => trivial) trivial) fun _ =>
          .bind hmove fun _ => .pure _
  · split_ifs
    · exact .idle rfl
    · exact .idle rfl

lemma chmod_wrote (path : Str) (mode : UInt32) :
    Wrote (Op.Issues s (.chmod path mode)) (chmod clock path mode) s := by
  apply Wrote.requireWritable
  intro _
  apply Wrote.ask
  intro ino hino
  apply Wrote.ask
  intro row hrow
  apply Wrote.ask
  rintro ⟨uid, gid⟩ hcaller
  cases hcaller
  apply Wrote.require
  intro howner
  refine .andThen (.tx (Nodes.updateModeUidGid_issues ?_)) fun _ _ => .idle rfl
  exact ⟨rfl, rfl, rfl, row, hino, hrow, howner⟩

lemma chown_wrote (path : Str) (uid gid : Option UInt32) :
    Wrote (Op.Issues s (.chown path uid gid)) (chown clock path uid gid) s := by
  apply Wrote.requireWritable
  intro _
  apply Wrote.ask
  intro ino hino
  apply Wrote.ask
  intro row hrow
  apply Wrote.ask
  rintro ⟨callerUid, callerGid⟩ hcaller
  cases hcaller
  apply Wrote.require
  intro huid
  apply Wrote.require
  intro hgid
  refine .andThen (.tx (Nodes.updateModeUidGid_issues ?_)) fun _ _ => .idle rfl
  exact ⟨rfl, rfl, rfl, row, hino, hrow, huid, hgid⟩

lemma utimes_wrote (path : Str) (atimeNs mtimeNs : Option ℤ) :
    Wrote (Op.Issues s (.utimes path atimeNs mtimeNs)) (utimes clock path atimeNs mtimeNs) s := by
  apply Wrote.requireWritable
  intro _
  apply Wrote.ask
  intro ino _
  apply Wrote.ask
  intro row _
  apply Wrote.ask
  rintro ⟨uid, gid⟩ _
  apply Wrote.require
  intro _
  exact .andThen (.tx (Nodes.updateTimes_issues trivial)) fun _ _ => .idle rfl

lemma setxattr_wrote (path name : Str) (value : Bytes) (flags : Xattrs.XattrFlags) :
    Wrote (Op.Issues s (.setxattr path name value flags)) (setxattr clock path name value flags) s := by
  apply Wrote.requireWritable
  intro _
  apply Wrote.ask
  intro ino _
  apply Wrote.ask
  intro row _
  apply Wrote.ask
  intro _ _
  apply Wrote.ask
  intro _ hname
  apply Wrote.ask
  intro _ _
  exact .andThen (.tx (Xattrs.set_issues ⟨rfl, rfl, hname⟩ ⟨rfl, rfl, hname⟩)) fun _ _ =>
    .andThen (.tx (Nodes.updateTimes_issues trivial)) fun _ _ => .idle rfl

lemma removexattr_wrote (path name : Str) :
    Wrote (Op.Issues s (.removexattr path name)) (removexattr clock path name) s := by
  rcases removexattr_may with ⟨x, hx⟩ | ⟨ino, row, h⟩
  · refine .idle ?_
    rw [hx]
  · unfold Wrote Prog.Wrote
    rw [removexattr_run h]
    have hdelete : (Op.removexattr path name).Issues s (.deleteXattr ino name) := ⟨rfl, row, h⟩
    have htimes : (Op.removexattr path name).Issues s
        (.updateTimes ino none none (some clock.now)) := trivial
    exact .head hdelete rfl (.single htimes updateTimes_stamp)

end Operations

/-- Every operation issues only the statements that it may. -/
theorem Op.wrote (operation : Op) (s : Filesystem) (clock : Clock) :
    Wrote (operation.Issues s) (operation.run clock) s := by
  cases operation with
  | pathOfInode inode => exact .answer (pathOfInode_reads inode).wrote
  | stat path => exact .answer (stat_reads path).wrote
  | readdir path => exact .answer (readdir_reads path).wrote
  | readFd fd offset size => exact .answer (readFd_reads fd offset size).wrote
  | readlink path => exact .answer (readlink_reads path).wrote
  | getxattr path name => exact .answer (getxattr_reads path name).wrote
  | listxattr path => exact .answer (listxattr_reads path).wrote
  | posixGetlk fd pid start length => exact .answer (posixGetlk_reads fd pid start length).wrote
  | ofdGetlk fd start length => exact .answer (ofdGetlk_reads fd start length).wrote
  | flush fd => exact .answer (flush_reads fd).wrote
  | fsync fd => exact .answer (fsync_reads fd).wrote
  | fsyncdir path => exact .answer (fsyncdir_reads path).wrote
  | mkdir path mode => exact .answer (mkdir_wrote s clock path mode)
  | rmdir path => exact .answer (rmdir_wrote s clock path)
  | create path flags mode => exact .answer (create_wrote s clock path flags mode)
  | open_ path flags => exact .answer (open_wrote s clock path flags)
  | writeFd fd offset data => exact .answer (writeFd_wrote s clock fd offset data)
  | closeFd fd => exact .answer (closeFd_wrote s fd)
  | unlink path => exact .answer (unlink_wrote s clock path)
  | symlink target path => exact .answer (symlink_wrote s clock target path)
  | link target linkPath => exact .answer (link_wrote s clock target linkPath)
  | rename src dst => exact .answer (rename_wrote s clock src dst)
  | chmod path mode => exact .answer (chmod_wrote s clock path mode)
  | chown path uid gid => exact .answer (chown_wrote s clock path uid gid)
  | utimes path atimeNs mtimeNs => exact .answer (utimes_wrote s clock path atimeNs mtimeNs)
  | setxattr path name value flags => exact .answer (setxattr_wrote s clock path name value flags)
  | removexattr path name => exact .answer (removexattr_wrote s clock path name)
  | posixLock fd pid op start length wait => exact .answer (.ask fun _ _ => .idle rfl)
  | ofdLock fd op start length wait => exact .answer (.ask fun _ _ => .idle rfl)
  | flock fd op wait => exact .answer (.ask fun _ _ => .idle rfl)
  | watch path recursive =>
    exact .answer (.ask fun _ _ => .ask fun _ _ => .require fun _ => .ask fun _ _ => .idle rfl)
  | unwatch slotId => exact .answer (.idle rfl)

/-- Every call of an operation issues only the statements that it may. -/
theorem Call.writes (user : Option (UInt32 × UInt32)) (clock : Clock) (operation : Op)
    (s : Filesystem) : s.conn.Writes (operation.Issues (s.actAs user))
      ((Call.op user clock operation).exec s).conn := by
  have h := operation.wrote (s.actAs user) clock
  rw [exec_op, asUser_conn, ← actAs_conn s user]
  exact h

end Filesystem

end SqliteFs
