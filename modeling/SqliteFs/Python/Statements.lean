import SqliteFs.Python.WritePermission
import SqliteFs.Lib.Writes

/-!
# The statements of every operation in the Python library

As in the Rust port, the operations change the database by statements on its tables. For each operation
this file says which statements it may issue, and for the names which it has resolved by then. What
every statement keeps holds in every state: so the rows of the other tables belong to nodes.
-/

namespace SqliteFs

open Txn

namespace Python

/-- A statement that changes the database. -/
inductive Statement
  | insertNode (row : NodesRow)
  | updateNode (inode : ℕ) (f : NodesRow → NodesRow)
  | deleteNode (inode : ℕ)
  | insertEntry (row : EntryRow)
  | deleteEntry (parent : ℕ) (name : Str)
  | moveEntry (parent : ℕ) (name : Str) (newParent : ℕ) (newName : Str)
  | putBlob (inode : ℕ) (chunkId : ℤ) (data : Bytes)
  | updateBlob (inode : ℕ) (chunkId : ℤ) (data : Bytes)
  | deleteBlobs (p : BlobsRow → Bool)
  | insertXattr (row : XattrsRow)
  | updateXattr (inode : ℕ) (name : Str) (value : Bytes)
  | deleteXattr (inode : ℕ) (name : Str)
  | insertSymlink (row : SymlinksRow)

/-- The statement turns `d` into `d'`. No update of a node changes its kind. -/
def Statement.Does (d d' : Db) : Statement → Prop
  | .insertNode row => row.inode = d.nextInode ∧ d.insertNode row = some d'
  | .updateNode inode f => (∀ r, (f r).kind = r.kind) ∧ ∃ hf, d' = d.updateNode inode f hf
  | .deleteNode inode => d.deleteNode inode = some d'
  | .insertEntry row => d.insertEntry row = some d'
  | .deleteEntry parent name => d' = d.deleteEntry parent name
  | .moveEntry parent name newParent newName => d.moveEntry parent name newParent newName = some d'
  | .putBlob inode chunkId data => d.putBlob inode chunkId data = some d'
  | .updateBlob inode chunkId data => d' = d.updateBlob inode chunkId data
  | .deleteBlobs p => d' = d.deleteBlobs p
  | .insertXattr row => d.insertXattr row = some d'
  | .updateXattr inode name value => d' = d.updateXattr inode name value
  | .deleteXattr inode name => d' = d.deleteXattr inode name
  | .insertSymlink row => d.insertSymlink row = some d'

/-- Statements in `A` lead from `d` to `d'`. -/
abbrev Db.Writes (d : Db) (A : Statement → Prop) (d' : Db) : Prop :=
  Txn.Writes (fun st d d' => st.Does d d') A d d'

/-- The statements of `b` are in `A`. -/
abbrev Issues {α : Type} (A : Statement → Prop) (b : Sql α) : Prop :=
  Body.Issues (fun st d d' => Statement.Does d d' st) A b

/-! ### The table functions -/

section Tables
variable {A : Statement → Prop} {inode : ℕ} {name : Str}

lemma execute_issues {g : Db → Db.Stmt} {st : Statement} (hst : A st)
    (hg : ∀ d d', g d = some d' → st.Does d d') : Issues A (execute g) :=
  fun d _ d' h => .single hst (hg d d' (execute_eq_ok.mp h))

lemma update_issues {g : Db → Db} {st : Statement} (hst : A st) (hg : ∀ d, st.Does d (g d)) :
    Issues A (update g) := by
  intro d _ d' h
  rw [update_eq_ok.mp h]
  exact .single hst (hg d)

lemma updateNode_issues {f : NodesRow → NodesRow} {hf : ∀ r, (f r).inode = r.inode}
    (h : ∀ f, A (.updateNode inode f)) (hkind : ∀ r, (f r).kind = r.kind) :
    Issues A (update fun d => d.updateNode inode f hf) :=
  update_issues (h f) fun _ => ⟨hkind, hf, rfl⟩

lemma Nodes.insert_issues {kind : NodeKind} {mode uid gid now : ℤ}
    (h : ∀ row : NodesRow, row.kind = kind → row.size = 0 → A (.insertNode row)) :
    Issues A (Nodes.insert kind mode uid gid now) := by
  refine .bind (.ask _) fun _ => ?_
  intro d i d' hd
  obtain ⟨j, hj, hd⟩ := Body.ask_bind_eq_ok.mp hd
  obtain ⟨d₁, hins, hd⟩ := execute_bind_eq_ok.mp hd
  obtain ⟨rfl, rfl⟩ := Body.pure_eq_ok.mp hd
  exact .single (h _ rfl rfl) ⟨(Except.ok.inj hj).symm, hins⟩

lemma Nodes.updateModeUidGid_issues {mode uid gid : Option ℤ} {c : ℤ} (h : ∀ f, A (.updateNode inode f)) :
    Issues A (Nodes.updateModeUidGid inode mode uid gid c) :=
  .bind (.ask _) fun _ => updateNode_issues h fun _ => rfl

lemma Nodes.updateTimes_issues {a m c : Option ℤ} (h : ∀ f, A (.updateNode inode f)) :
    Issues A (Nodes.updateTimes inode a m c) :=
  .ite (fun _ => .pure _) fun _ => .bind (.ask _) fun _ => updateNode_issues h fun _ => rfl

lemma Nodes.updateSize_issues {size m c : ℤ} (h : ∀ f, A (.updateNode inode f)) :
    Issues A (Nodes.updateSize inode size m c) :=
  .bind (.ask _) fun _ => updateNode_issues h fun _ => rfl

lemma Nodes.changeNlink_issues {delta c : ℤ} (h : ∀ f, A (.updateNode inode f)) :
    Issues A (Nodes.changeNlink inode delta c) :=
  .bind (updateNode_issues h fun _ => rfl) fun _ => .ask _

lemma Nodes.delete_issues (h : A (.deleteNode inode)) : Issues A (Nodes.delete inode) :=
  execute_issues h fun _ _ hd => hd

lemma Entries.insert_issues {parent : ℕ} (h : A (.insertEntry ⟨parent, name, inode⟩)) :
    Issues A (Entries.insert parent name inode) :=
  execute_issues h fun _ _ hd => hd

lemma Entries.delete_issues {parent : ℕ} (h : A (.deleteEntry parent name)) :
    Issues A (Entries.delete parent name) :=
  update_issues h fun _ => rfl

lemma Entries.rename_issues {p q : ℕ} {m n : Str} (h : A (.moveEntry p m q n)) :
    Issues A (Entries.rename p m q n) :=
  execute_issues h fun _ _ hd => hd

lemma Symlinks.insert_issues {target : Bytes} (h : A (.insertSymlink ⟨inode, target⟩)) :
    Issues A (Symlinks.insert inode target) :=
  execute_issues h fun _ _ hd => hd

lemma Xattrs.set_issues {value : Bytes} {flags : ℤ} (hins : A (.insertXattr ⟨inode, name, value⟩))
    (hupd : A (.updateXattr inode name value)) : Issues A (Xattrs.set inode name value flags) :=
  .bind (.ask _) fun _ => .ite (fun _ => update_issues hupd fun _ => rfl)
    fun _ => execute_issues hins fun _ _ hd => hd

lemma Xattrs.remove_issues (h : A (.deleteXattr inode name)) : Issues A (Xattrs.remove inode name) :=
  .bind (.ask _) fun _ => .bind (update_issues h fun _ => rfl) fun _ => .ask _

lemma Blobs.putAll_issues (h : ∀ chunk data, A (.putBlob inode chunk data)) (rows : List (ℤ × Bytes)) :
    Issues A (Blobs.putAll inode rows) := by
  induction rows with
  | nil => exact .pure _
  | cons row rows ih => exact .bind (execute_issues (h _ _) fun _ _ hd => hd) fun _ => ih

lemma Blobs.writeRange_issues {data : Bytes} {offset fileSize chunkSize : ℤ}
    (h : ∀ chunk data, A (.putBlob inode chunk data)) :
    Issues A (Blobs.writeRange inode data offset fileSize chunkSize) :=
  .ite (fun _ => .pure _) fun _ => .bind (.ask _) fun _ => .bind (.ask _) fun _ => .bind (.ask _)
    fun _ => .bind (.ask _) fun _ => .bind (Blobs.putAll_issues h _) fun _ => .pure _

lemma Blobs.truncateTo_issues {newSize oldSize chunkSize : ℤ} (hdel : ∀ p, A (.deleteBlobs p))
    (hupd : ∀ chunk data, A (.updateBlob inode chunk data)) :
    Issues A (Blobs.truncateTo inode newSize oldSize chunkSize) := by
  refine .ite (fun _ => .pure _) fun _ => .ite (fun _ => ?_) fun _ => .pure _
  refine .bind (.ask _) fun _ => .bind (.ask _) fun _ => .bind (.ask _) fun _ =>
    .bind (update_issues (hdel _) fun _ => rfl) fun _ => .ite (fun _ => ?_) fun _ => ?_
  · exact update_issues (hdel _) fun _ => rfl
  · refine .bind (.ask _) fun row => ?_
    cases row with
    | none => exact .pure _
    | some data => exact update_issues (hupd _ _) fun _ => rfl

end Tables

namespace Filesystem

/-! ### The operations -/

/-- The operation may issue the statement, in the state where it is called. -/
def Op.Issues (s : Filesystem) : Op → Statement → Prop
  | .mkdir .., .insertNode row => row.kind = .dir ∧ row.size = 0
  | .mkdir path _, .insertEntry row =>
    resolveParentAs s.conn s.uid s.gid path = .ok (row.parent, row.name)
  | .mkdir .., .updateNode .. => True
  | .rmdir path, .deleteEntry parent name => resolveParentAs s.conn s.uid s.gid path = .ok (parent, name)
  | .rmdir .., .updateNode .. => True
  | .rmdir .., .deleteNode _ => True
  | .chmod .., .updateNode .. => True
  | .chown .., .updateNode .. => True
  | .utimes .., .updateNode .. => True
  | .create .., .insertNode row => row.kind = .file ∧ row.size = 0
  | .create path _ _, .insertEntry row =>
    resolveParentAs s.conn s.uid s.gid path = .ok (row.parent, row.name)
  | .create .., .updateNode .. => True
  | .create .., .deleteBlobs _ => True
  | .create .., .updateBlob .. => True
  | .open_ .., .insertNode row => row.kind = .file ∧ row.size = 0
  | .open_ path _ _, .insertEntry row =>
    resolveParentAs s.conn s.uid s.gid path = .ok (row.parent, row.name)
  | .open_ .., .updateNode .. => True
  | .open_ .., .deleteBlobs _ => True
  | .open_ .., .updateBlob .. => True
  | .closeFd _, .deleteNode _ => True
  | .write .., .putBlob .. => True
  | .write .., .updateNode .. => True
  | .truncateFd .., .deleteBlobs _ => True
  | .truncateFd .., .updateBlob .. => True
  | .truncateFd .., .updateNode .. => True
  | .truncate .., .deleteBlobs _ => True
  | .truncate .., .updateBlob .. => True
  | .truncate .., .updateNode .. => True
  | .unlink path, .deleteEntry parent name => resolveParentAs s.conn s.uid s.gid path = .ok (parent, name)
  | .unlink _, .updateNode .. => True
  | .unlink _, .deleteNode _ => True
  | .symlink .., .insertNode row => row.kind = .symlink ∧ row.size = 0
  | .symlink _ path, .insertEntry row =>
    resolveParentAs s.conn s.uid s.gid path = .ok (row.parent, row.name)
  | .symlink target _, .insertSymlink row => row.target = target
  | .symlink .., .updateNode .. => True
  | .link _ dst, .insertEntry row =>
    resolveParentAs s.conn s.uid s.gid dst = .ok (row.parent, row.name)
  | .link .., .updateNode .. => True
  | .setxattr _ name value _, .insertXattr row => row.name = name ∧ row.value = value ∧
    Xattrs.validateName name s.uid = .ok ⟨⟩ ∧ Xattrs.validateValue value = .ok ⟨⟩
  | .setxattr _ name value _, .updateXattr _ name' value' => name' = name ∧ value' = value ∧
    Xattrs.validateName name s.uid = .ok ⟨⟩ ∧ Xattrs.validateValue value = .ok ⟨⟩
  | .removexattr _ name, .deleteXattr _ name' => name' = name
  | .rename .., .deleteEntry .. => True
  | .rename .., .deleteNode _ => True
  | .rename .., .updateNode .. => True
  | .rename .., .moveEntry .. => True
  | _, _ => False

/-- The statements of `p` are in `A`. -/
abbrev Wrote {α : Type} (A : Statement → Prop) (p : Action α) (s : Filesystem) : Prop :=
  Prog.Wrote (fun st d d' => Statement.Does d d' st) A p s

section Rules
variable {α β : Type} {A : Statement → Prop} {s : Filesystem}

lemma Wrote.ask {q : Filesystem → Res β} {f : β → Action α}
    (h : ∀ b, q s = .ok b → Wrote A (f b) s) : Wrote A (Filesystem.ask q >>= f) s :=
  Prog.Wrote.bind_query h

lemma Wrote.require {c : Prop} [Decidable c] {e : Exc} {f : PUnit → Action α}
    (h : c → Wrote A (f ⟨⟩) s) : Wrote A (Filesystem.require c e >>= f) s := by
  by_cases hc : c
  · unfold Wrote Prog.Wrote
    rw [require_bind hc]
    exact h hc
  · unfold Wrote Prog.Wrote
    rw [require_bind_error hc]
    exact .refl

lemma Wrote.andThen {p : Action β} {f : β → Action α} (hp : Wrote A p s)
    (hf : ∀ a s', Wrote A (f a) s') : Wrote A (p >>= f) s :=
  Prog.Wrote.bind hp fun a _ => hf a _

/-- Work in memory issues no statement. -/
lemma Wrote.idle {p : Action α} (h : (p s).state.conn = s.conn) : Wrote A p s := Prog.Wrote.of_disk h

lemma Wrote.withConn {b : Sql α} (hb : Python.Issues A b) : Wrote A (Filesystem.withConn b) s :=
  Prog.Wrote.transaction hb

lemma Wrote.answer {f : α → Reply} {p : Action α} (hp : Wrote A p s) :
    Wrote A (Filesystem.answer f p) s :=
  .andThen hp fun _ _ => .idle rfl

/-- What keeps the database as it is issues no statement. -/
lemma Wrote.of_keeps {p : Action α} (h : ∀ d, Prog.Keeps (· = d) p) : Wrote A p s :=
  .idle (h s.conn s rfl).1

end Rules

section Operations
variable (s : Filesystem) (env : Env)

lemma mkdir_wrote (path : Str) (mode : ℤ) :
    Wrote (Op.Issues s (.mkdir path mode)) (mkdir env path mode) s := by
  apply Wrote.ask
  intro _ _
  apply Wrote.ask
  rintro ⟨parent, name⟩ hparent
  apply Wrote.ask
  intro _ _
  apply Wrote.ask
  rintro ⟨uid, gid⟩ _
  refine .andThen (.withConn ?_) fun _ _ => .idle rfl
  exact .bind (Nodes.insert_issues fun _ hkind hsize => ⟨hkind, hsize⟩) fun newInode =>
    .bind (Entries.insert_issues hparent) fun _ => .bind (Nodes.changeNlink_issues fun _ => trivial)
      fun _ => .bind (Nodes.updateTimes_issues fun _ => trivial) fun _ => .pure _

lemma rmdir_wrote (path : Str) : Wrote (Op.Issues s (.rmdir path)) (rmdir env path) s := by
  apply Wrote.ask
  intro _ _
  apply Wrote.require
  intro _
  apply Wrote.ask
  rintro ⟨parent, name⟩ hparent
  apply Wrote.ask
  intro entry _
  apply Wrote.ask
  intro node _
  apply Wrote.require
  intro _
  apply Wrote.ask
  intro _ _
  refine .andThen (.withConn ?_) fun _ _ => .idle rfl
  exact .bind (Entries.delete_issues hparent) fun _ => .bind (Nodes.delete_issues trivial) fun _ =>
    .bind (Nodes.changeNlink_issues fun _ => trivial) fun _ =>
      Nodes.updateTimes_issues fun _ => trivial

lemma chmod_wrote (path : Str) (mode : ℤ) (follow : Bool) :
    Wrote (Op.Issues s (.chmod path mode follow)) (chmod env path mode follow) s := by
  refine .ask fun _ _ => .ask fun inode _ => .ask fun node _ => .ask fun _ _ => ?_
  exact .andThen (.withConn (Nodes.updateModeUidGid_issues fun _ => trivial)) fun _ _ => .idle rfl

lemma chown_wrote (path : Str) (uid gid : ℤ) (follow : Bool) :
    Wrote (Op.Issues s (.chown path uid gid follow)) (chown env path uid gid follow) s := by
  refine .ask fun _ _ => .ask fun inode _ => .ask fun node _ => .ask fun _ _ => ?_
  exact .andThen (.withConn (Nodes.updateModeUidGid_issues fun _ => trivial)) fun _ _ => .idle rfl

lemma utimes_wrote (path : Str) (a m : Option ℤ) (follow : Bool) :
    Wrote (Op.Issues s (.utimes path a m follow)) (utimes env path a m follow) s := by
  refine .ask fun _ _ => .ask fun inode _ => .ask fun node _ => .ask fun _ _ => ?_
  exact .andThen (.withConn (Nodes.updateTimes_issues fun _ => trivial)) fun _ _ => .idle rfl

/-- What `open` issues, which `create` calls. -/
lemma open_wrote {A : Statement → Prop} (path : Str) (flags mode : ℤ)
    (hnode : ∀ row : NodesRow, row.kind = .file → row.size = 0 → A (.insertNode row))
    (hentry : ∀ row : EntryRow, resolveParentAs s.conn s.uid s.gid path = .ok (row.parent, row.name) →
      A (.insertEntry row))
    (hupdate : ∀ i f, A (.updateNode i f)) (hdelete : ∀ p, A (.deleteBlobs p))
    (hblob : ∀ i chunk data, A (.updateBlob i chunk data)) :
    Wrote A (open_ env path flags mode) s := by
  refine .ask fun target _ => ?_
  cases target with
  | some inode =>
    refine .require fun _ => .ask fun node _ => .require fun _ => .ask fun _ _ => ?_
    split_ifs
    · refine .ask fun _ _ => .ask fun chunkSize _ => .andThen (.withConn ?_) fun _ _ => .idle rfl
      exact .bind (Blobs.truncateTo_issues hdelete (hblob inode)) fun _ =>
        Nodes.updateSize_issues (hupdate inode)
    · exact .idle rfl
  | none =>
    apply Wrote.require
    intro _
    apply Wrote.ask
    intro _ _
    apply Wrote.ask
    rintro ⟨parent, name⟩ hparent
    apply Wrote.ask
    rintro ⟨uid, gid⟩ _
    refine .andThen (.withConn ?_) fun _ _ => .andThen (.idle rfl) fun _ _ =>
      .ask fun _ _ => .idle rfl
    refine .bind (Nodes.insert_issues hnode) fun newInode => .bind (?_ : Issues A _) fun _ =>
      .bind (Nodes.updateTimes_issues (hupdate parent)) fun _ => .pure _
    intro d _ d' hd
    exact .single (hentry ⟨parent, name, newInode⟩ hparent) (rowOr_eq_ok.mp (Body.exec_eq_ok.mp hd))

lemma truncateBody_issues {A : Statement → Prop} {inode : ℕ} {size oldSize chunkSize : ℤ}
    (hupdate : ∀ f, A (.updateNode inode f)) (hdelete : ∀ p, A (.deleteBlobs p))
    (hblob : ∀ chunk data, A (.updateBlob inode chunk data)) :
    Issues A (truncateBody env inode size oldSize chunkSize) :=
  .bind (Blobs.truncateTo_issues hdelete hblob) fun _ => Nodes.updateSize_issues hupdate

lemma write_wrote (fd : ℕ) (data : Bytes) (offset : ℤ) :
    Wrote (Op.Issues s (.write fd data offset)) (write env fd data offset) s := by
  refine .ask fun _ _ => .ask fun entry _ => .require fun _ => .ask fun node _ =>
    .ask fun chunkSize _ => .andThen (.withConn ?_) fun _ _ => .andThen (.of_keeps fun _ => keeps_emitModify)
      fun _ _ => .idle rfl
  exact .bind (Blobs.writeRange_issues fun _ _ => trivial) fun _ =>
    Nodes.updateSize_issues fun _ => trivial

lemma truncateFd_wrote (fd : ℕ) (size : ℤ) :
    Wrote (Op.Issues s (.truncateFd fd size)) (truncateFd env fd size) s := by
  refine .ask fun _ _ => .ask fun entry _ => .ask fun node _ => .ask fun chunkSize _ =>
    .andThen (.withConn ?_) fun _ _ => .of_keeps fun _ => keeps_emitModify
  exact truncateBody_issues env (fun _ => trivial) (fun _ => trivial) fun _ _ => trivial

lemma truncate_wrote (path : Str) (size : ℤ) :
    Wrote (Op.Issues s (.truncate path size)) (truncate env path size) s := by
  refine .ask fun _ _ => .ask fun inode _ => .ask fun node _ => .require fun _ => .ask fun chunkSize _ =>
    .andThen (.withConn ?_) fun _ _ => .idle rfl
  exact truncateBody_issues env (fun _ => trivial) (fun _ => trivial) fun _ _ => trivial

lemma maybeGc_issues {A : Statement → Prop} {inode openCount : ℕ} (h : A (.deleteNode inode)) :
    Issues A (maybeGc inode openCount) := by
  refine .bind (.ask _) fun node => ?_
  cases node with
  | none => exact .pure _
  | some node => exact .ite (fun _ => Nodes.delete_issues h) fun _ => .pure _

lemma closeFd_wrote (fd : ℕ) : Wrote (Op.Issues s (.closeFd fd)) (closeFd env fd) s := by
  refine .ask fun entry _ => .andThen (.idle rfl) fun _ s' => .andThen (.idle rfl) fun _ s'' =>
    .ask ?_
  rintro ⟨readonly, openCount⟩ _
  dsimp only
  split_ifs
  · exact .idle rfl
  · refine .ask fun node _ => ?_
    cases node with
    | none => exact .idle rfl
    | some node =>
      dsimp only
      split_ifs
      · exact .withConn (maybeGc_issues trivial)
      · exact .idle rfl

lemma unlink_wrote (path : Str) : Wrote (Op.Issues s (.unlink path)) (unlink env path) s := by
  apply Wrote.ask
  intro _ _
  apply Wrote.ask
  rintro ⟨parent, name⟩ hparent
  apply Wrote.ask
  intro entry _
  apply Wrote.ask
  intro node _
  apply Wrote.require
  intro _
  apply Wrote.ask
  intro openCount _
  refine .andThen (.withConn ?_) fun _ _ => .idle rfl
  exact .bind (Entries.delete_issues hparent) fun _ => .bind (Nodes.changeNlink_issues fun _ => trivial)
    fun _ => .bind (Nodes.updateTimes_issues fun _ => trivial) fun _ => maybeGc_issues trivial

lemma symlink_wrote (target : Bytes) (linkpath : Str) :
    Wrote (Op.Issues s (.symlink target linkpath)) (symlink env target linkpath) s := by
  apply Wrote.ask
  intro _ _
  apply Wrote.ask
  rintro ⟨parent, name⟩ hparent
  apply Wrote.ask
  intro _ _
  apply Wrote.ask
  rintro ⟨uid, gid⟩ _
  refine .andThen (.withConn ?_) fun _ _ => .idle rfl
  exact .bind (Nodes.insert_issues fun _ hkind hsize => ⟨hkind, hsize⟩) fun newInode =>
    .bind (Entries.insert_issues hparent) fun _ => .bind (Symlinks.insert_issues rfl)
      fun _ => .bind (Nodes.updateTimes_issues fun _ => trivial) fun _ => .pure _

lemma link_wrote (src dst : Str) : Wrote (Op.Issues s (.link src dst)) (link env src dst) s := by
  apply Wrote.ask
  intro _ _
  apply Wrote.ask
  intro srcInode _
  apply Wrote.ask
  intro srcNode _
  apply Wrote.require
  intro _
  apply Wrote.ask
  rintro ⟨parent, name⟩ hparent
  apply Wrote.ask
  intro _ _
  refine .andThen (.withConn ?_) fun _ _ => .idle rfl
  exact .bind (Entries.insert_issues hparent) fun _ => .bind (Nodes.changeNlink_issues fun _ => trivial)
    fun _ => Nodes.updateTimes_issues fun _ => trivial

lemma setxattr_wrote (path name : Str) (value : Bytes) (flags : ℤ) :
    Wrote (Op.Issues s (.setxattr path name value flags)) (setxattr env path name value flags) s := by
  refine .ask fun _ _ => .ask fun _ hname => .ask fun _ hvalue => .ask fun inode _ => .ask fun node _ =>
    .ask fun _ _ => .andThen (.withConn ?_) fun _ _ => .idle rfl
  exact Xattrs.set_issues ⟨rfl, rfl, hname, hvalue⟩ ⟨rfl, rfl, hname, hvalue⟩

lemma removexattr_wrote (path name : Str) :
    Wrote (Op.Issues s (.removexattr path name)) (removexattr env path name) s := by
  refine .ask fun _ _ => .ask fun inode _ => .ask fun node _ => .ask fun _ _ =>
    .andThen (.withConn ?_) fun _ _ => .idle rfl
  exact Xattrs.remove_issues rfl

lemma renameBody_issues {A : Statement → Prop} {dst : Str} {noreplace exchange : Bool}
    {p q openCount : ℕ} {m n : Str} {t : Option EntryRow} (hentry : ∀ q n, A (.deleteEntry q n))
    (hnode : ∀ i, A (.deleteNode i)) (hupdate : ∀ i f, A (.updateNode i f))
    (hmove : ∀ p m q n, A (.moveEntry p m q n)) :
    Issues A (renameBody env dst noreplace exchange p m q n t openCount) := by
  have hrename (p q : ℕ) (m n : Str) : Issues A (Entries.rename p m q n) :=
    Entries.rename_issues (hmove p m q n)
  have htouch : Issues A (do
      touch env p
      if q ≠ p then touch env q else pure ⟨⟩) :=
    .bind (Nodes.updateTimes_issues (hupdate p)) fun _ =>
      .ite (fun _ => Nodes.updateTimes_issues (hupdate q)) fun _ => .pure _
  unfold renameBody
  cases exchange with
  | true =>
    cases t with
    | none => exact .bind (.ask _) fun _ => htouch
    | some t =>
      exact .bind (.bind (hrename _ _ _ _) fun _ => .bind (hrename _ _ _ _) fun _ => hrename _ _ _ _)
        fun _ => htouch
  | false =>
    cases t with
    | none => exact .bind (hrename _ _ _ _) fun _ => htouch
    | some t =>
      refine .bind (.bind (.ask _) fun _ => .bind (.ask _) fun node => .ite (fun _ => ?_) fun _ => ?_)
        fun _ => .bind (hrename _ _ _ _) fun _ => htouch
      · exact .bind (.ask _) fun _ => .bind (Entries.delete_issues (hentry _ _)) fun _ =>
          Nodes.delete_issues (hnode _)
      · exact .bind (Entries.delete_issues (hentry _ _)) fun _ =>
          .bind (Nodes.changeNlink_issues (hupdate _)) fun _ => maybeGc_issues (hnode _)

lemma rename_wrote (src dst : Str) (noreplace exchange : Bool) :
    Wrote (Op.Issues s (.rename src dst noreplace exchange)) (rename env src dst noreplace exchange) s := by
  apply Wrote.ask
  intro _ _
  apply Wrote.require
  intro _
  apply Wrote.ask
  rintro ⟨p, m⟩ _
  apply Wrote.ask
  rintro ⟨q, n⟩ _
  refine .ask fun srcEntry _ => .ask fun srcNode _ => ?_
  split_ifs
  · exact .idle rfl
  refine .ask fun _ _ => .ask fun dstEntry _ => .ask fun openCount _ => .andThen (.withConn ?_) fun _ s₁ =>
    .andThen (.idle rfl) fun _ s₂ => .andThen (.idle rfl) fun _ s₃ => ?_
  · exact renameBody_issues env (fun _ _ => trivial) (fun _ => trivial) (fun _ _ => trivial)
      fun _ _ _ _ => trivial
  · cases dstEntry with
    | none => exact .idle rfl
    | some t =>
      dsimp only
      split_ifs
      · exact .ask fun _ _ => .idle rfl
      · exact .idle rfl

end Operations

/-- Every operation issues only the statements that it may. -/
theorem Op.wrote (operation : Op) (s : Filesystem) (env : Env) :
    Wrote (operation.Issues s) (operation.run env) s := by
  cases operation with
  | mkdir path mode => exact .answer (mkdir_wrote s env path mode)
  | rmdir path => exact .answer (rmdir_wrote s env path)
  | chmod path mode follow => exact .answer (chmod_wrote s env path mode follow)
  | chown path uid gid follow => exact .answer (chown_wrote s env path uid gid follow)
  | utimes path a m follow => exact .answer (utimes_wrote s env path a m follow)
  | create path mode flags =>
    exact .answer (open_wrote s env path _ mode (fun _ hkind hsize => ⟨hkind, hsize⟩) (fun _ h => h)
      (fun _ _ => trivial) (fun _ => trivial) fun _ _ _ => trivial)
  | open_ path flags mode =>
    exact .answer (open_wrote s env path flags mode (fun _ hkind hsize => ⟨hkind, hsize⟩) (fun _ h => h)
      (fun _ _ => trivial) (fun _ => trivial) fun _ _ _ => trivial)
  | closeFd fd => exact .answer (closeFd_wrote s env fd)
  | write fd data offset => exact .answer (write_wrote s env fd data offset)
  | truncateFd fd size => exact .answer (truncateFd_wrote s env fd size)
  | truncate path size => exact .answer (truncate_wrote s env path size)
  | unlink path => exact .answer (unlink_wrote s env path)
  | symlink target linkpath => exact .answer (symlink_wrote s env target linkpath)
  | link src dst => exact .answer (link_wrote s env src dst)
  | setxattr path name value flags => exact .answer (setxattr_wrote s env path name value flags)
  | removexattr path name => exact .answer (removexattr_wrote s env path name)
  | rename src dst noreplace exchange => exact .answer (rename_wrote s env src dst noreplace exchange)
  | readdir | stat | exists_ | read | fsync | readlink | getxattr | listxattr | posixLock | ofdLock
  | flock | posixGetlk | ofdGetlk | watch | closeWatcher | nextEvent =>
    exact .of_keeps fun _ => Op.Reads.keeps trivial

/-- Every call of an operation issues only the statements that it may. -/
theorem Call.writes (user : Option (ℤ × ℤ)) (env : Env) (operation : Op) (s : Filesystem) :
    s.conn.Writes (operation.Issues (s.actAs user)) ((Call.op user env operation).exec s).conn := by
  have h := operation.wrote (s.actAs user) env
  rw [exec_conn, ← actAs_conn s user]
  exact h

/-- What every statement keeps holds along a run. -/
lemma of_statements {init : Filesystem → Prop} {Ok : Filesystem → Call → Prop} {P : Db → Prop}
    (hinit : ∀ s, init s → P s.conn) (hP : ∀ st d d', Statement.Does d d' st → P d → P d')
    {s : Filesystem} (h : Run init Call.exec Ok s) : P s.conn := by
  refine Run.invariant (P := fun s => P s.conn) hinit (fun s call _ _ hs => ?_) h
  cases call with
  | reopen => exact hs
  | op user env operation =>
    exact (Call.writes user env operation s).keeps (fun st d d' _ hst hd => hP st d d' hst hd) hs

end Filesystem

/-! ### Rows that belong to nodes -/

/-- Chunks, extended attributes and link targets belong to nodes. -/
structure Db.Owned (d : Db) : Prop where
  blobs : ∀ b ∈ d.blobs, d.hasNode b.inode = true
  xattrs : ∀ x ∈ d.xattrs, d.hasNode x.inode = true
  symlinks : ∀ l ∈ d.symlinks, d.hasNode l.inode = true

namespace Db.Owned

variable {d d' : Db}

/-- Where no node goes, rows that are new have to be rows of nodes. -/
lemma grow (h : d.Owned) (hnode : ∀ i, d.hasNode i = true → d'.hasNode i = true)
    (hblobs : ∀ b ∈ d'.blobs, d.hasNode b.inode = true ∨ b ∈ d.blobs)
    (hxattrs : ∀ x ∈ d'.xattrs, d.hasNode x.inode = true ∨ x ∈ d.xattrs)
    (hsymlinks : ∀ l ∈ d'.symlinks, d.hasNode l.inode = true ∨ l ∈ d.symlinks) : d'.Owned where
  blobs b hb := hnode _ ((hblobs b hb).elim id (h.blobs b))
  xattrs x hx := hnode _ ((hxattrs x hx).elim id (h.xattrs x))
  symlinks l hl := hnode _ ((hsymlinks l hl).elim id (h.symlinks l))

lemma deleteNode {i : ℕ} (h : d.Owned) (hd : d.deleteNode i = some d') : d'.Owned := by
  unfold Db.deleteNode at hd
  dsimp only at hd
  split_ifs at hd
  · cases hd
    have hstays : ∀ {j}, d.hasNode j = true → j ≠ i →
        ((d.nodes.deleteWhere fun r => r.inode = i).find? j).isSome = true := by
      intro j hj hne
      rw [KeyTable.find?_deleteWhere_of]
      · exact hj
      · rintro r rfl
        exact decide_eq_false hne
    refine ⟨fun b hb => ?_, fun x hx => ?_, fun l hl => ?_⟩
    · obtain ⟨hb, hne⟩ := KeyTable.mem_deleteWhere.mp hb
      exact hstays (h.blobs b hb) (of_decide_eq_false hne)
    · obtain ⟨hx, hne⟩ := KeyTable.mem_deleteWhere.mp hx
      exact hstays (h.xattrs x hx) (of_decide_eq_false hne)
    · obtain ⟨hl, hne⟩ := KeyTable.mem_deleteWhere.mp hl
      exact hstays (h.symlinks l hl) (of_decide_eq_false hne)
  · cases hd
    exact h

/-- The foreign keys see to it that every statement keeps this. -/
lemma does {st : Statement} (h : d.Owned) (hst : st.Does d d') : d'.Owned := by
  cases st with
  | insertNode row =>
    obtain ⟨-, hins⟩ := hst
    obtain ⟨t, ht, rfl⟩ := Option.map_eq_some_iff.mp hins
    refine h.grow (fun i hi => ?_) (fun _ => Or.inr) (fun _ => Or.inr) fun _ => Or.inr
    obtain ⟨r, hr, rfl⟩ := KeyTable.find?_isSome.mp hi
    exact KeyTable.find?_isSome.mpr ⟨r, (KeyTable.mem_insert? ht).mpr (Or.inl hr), rfl⟩
  | updateNode inode f =>
    obtain ⟨-, hf, rfl⟩ := hst
    refine h.grow (fun i hi => ?_) (fun _ => Or.inr) (fun _ => Or.inr) fun _ => Or.inr
    change ((d.nodes.updateAt inode f hf).find? i).isSome = true
    rw [KeyTable.find?_updateAt]
    split_ifs
    · rw [Option.isSome_map]
      exact hi
    · exact hi
  | deleteNode inode => exact h.deleteNode hst
  | insertEntry row =>
    change d.insertEntry row = some d' at hst
    unfold Db.insertEntry at hst
    split_ifs at hst
    obtain ⟨t, -, rfl⟩ := Option.map_eq_some_iff.mp hst
    exact ⟨h.blobs, h.xattrs, h.symlinks⟩
  | deleteEntry parent name =>
    cases hst
    exact ⟨h.blobs, h.xattrs, h.symlinks⟩
  | moveEntry parent name newParent newName =>
    change d.moveEntry parent name newParent newName = some d' at hst
    unfold Db.moveEntry at hst
    split_ifs at hst
    · obtain ⟨t, -, rfl⟩ := Option.map_eq_some_iff.mp hst
      exact ⟨h.blobs, h.xattrs, h.symlinks⟩
    · cases hst
      exact h
  | putBlob inode chunkId data =>
    change d.putBlob inode chunkId data = some d' at hst
    unfold Db.putBlob at hst
    split_ifs at hst with hnode
    cases hst
    refine h.grow (fun _ hi => hi) (fun b hb => ?_) (fun _ => Or.inr) fun _ => Or.inr
    rcases KeyTable.mem_put.mp hb with rfl | ⟨hb, -⟩
    · exact Or.inl hnode
    · exact Or.inr hb
  | updateBlob inode chunkId data =>
    cases hst
    refine ⟨fun b hb => ?_, h.xattrs, h.symlinks⟩
    obtain ⟨b₀, hb₀, rfl⟩ := (KeyTable.mem_updateAt _ _ _ (key_withData data)).mp hb
    split_ifs <;> exact h.blobs b₀ hb₀
  | deleteBlobs p =>
    cases hst
    exact ⟨fun b hb => h.blobs b (KeyTable.mem_deleteWhere.mp hb).1, h.xattrs, h.symlinks⟩
  | insertXattr row =>
    change d.insertXattr row = some d' at hst
    unfold Db.insertXattr at hst
    split_ifs at hst with hnode
    obtain ⟨t, ht, rfl⟩ := Option.map_eq_some_iff.mp hst
    refine h.grow (fun _ hi => hi) (fun _ => Or.inr) (fun x hx => ?_) fun _ => Or.inr
    exact ((KeyTable.mem_insert? ht).mp hx).elim Or.inr fun heq => Or.inl (heq ▸ hnode)
  | updateXattr inode name value =>
    cases hst
    refine ⟨h.blobs, fun x hx => ?_, h.symlinks⟩
    obtain ⟨x₀, hx₀, rfl⟩ := (KeyTable.mem_updateAt _ _ _ (key_withValue value)).mp hx
    split_ifs <;> exact h.xattrs x₀ hx₀
  | deleteXattr inode name =>
    cases hst
    exact ⟨h.blobs, fun x hx => h.xattrs x (KeyTable.mem_deleteWhere.mp hx).1, h.symlinks⟩
  | insertSymlink row =>
    change d.insertSymlink row = some d' at hst
    unfold Db.insertSymlink at hst
    split_ifs at hst with hnode
    obtain ⟨t, ht, rfl⟩ := Option.map_eq_some_iff.mp hst
    refine h.grow (fun _ hi => hi) (fun _ => Or.inr) (fun _ => Or.inr) fun l hl => ?_
    exact ((KeyTable.mem_insert? ht).mp hl).elim Or.inr fun heq => Or.inl (heq ▸ hnode)

end Db.Owned

namespace Filesystem

variable {s : Filesystem}

lemma owned_fresh (h : Fresh s) : s.conn.Owned := by
  obtain ⟨chunkSize, ownerUid, ownerGid, now, d, readonly, uid, gid, hd, rfl⟩ := h
  unfold mkfs at hd
  obtain ⟨_, -, hd⟩ := bind_res_eq_ok.mp hd
  obtain ⟨_, -, hd⟩ := bind_res_eq_ok.mp hd
  cases hd
  exact ⟨fun b hb => absurd hb (KeyTable.not_mem_empty b),
    fun x hx => absurd hx (KeyTable.not_mem_empty x),
    fun l hl => absurd hl (KeyTable.not_mem_empty l)⟩

/-- Along every run, chunks, extended attributes and link targets belong to nodes. -/
theorem owned_runsTo {Ok : Filesystem → Call → Prop} (h : RunsTo Ok s) : s.conn.Owned :=
  of_statements (fun _ => owned_fresh) (fun _ _ _ hst hd => hd.does hst) h

end Filesystem

end Python

end SqliteFs
