import SqliteFs.Python.Overwriting
import SqliteFs.Python.Calls

/-!
# Changing contents in the Python library

Most operations leave the contents of the nodes alone that they do not delete. Those that change
contents do not all ask for the right to write: `truncate` and `truncate_fd` ask for nothing, a
descriptor whose access mode is none of the three of `open(2)` may be written through, and `open`
wants no more than the right to read before it truncates for such a mode or for reading only.
-/

namespace SqliteFs

open Txn

namespace Python

namespace Filesystem

variable {s : Filesystem} {env : Env} {path src dst name : Str} {i : ℕ}

/-! ### Operations that leave contents alone -/

section Bodies
variable {d : Db} {fd : ℕ}

lemma shrinks_update {f : Db → Db} (hf : ∀ d : Db, d.Shrinks (f d)) :
    Body.Keeps d.Shrinks (update f) := by
  refine .exec fun d₁ d₂ hd h => ?_
  obtain rfl := Except.ok.inj h
  exact hd.trans (hf d₁)

lemma shrinks_execute {f : Db → Db.Stmt} (hf : ∀ d d' : Db, f d = some d' → d.Shrinks d') :
    Body.Keeps d.Shrinks (execute f) :=
  .exec fun d₁ d₂ hd h => hd.trans (hf d₁ d₂ (rowOr_eq_ok.mp h))

lemma shrinks_updateTimes {a m c : Option ℤ} : Body.Keeps d.Shrinks (Nodes.updateTimes i a m c) :=
  .ite (.pure _) (.bind (.ask _) fun _ =>
    shrinks_update fun _ => Db.shrinks_updateNode fun _ => rfl)

lemma shrinks_touch : Body.Keeps d.Shrinks (touch env i) := shrinks_updateTimes

lemma shrinks_updateModeUidGid {mode uid gid : Option ℤ} {now : ℤ} :
    Body.Keeps d.Shrinks (Nodes.updateModeUidGid i mode uid gid now) :=
  .bind (.ask _) fun _ => shrinks_update fun _ => Db.shrinks_updateNode fun _ => rfl

lemma shrinks_changeNlink {delta now : ℤ} : Body.Keeps d.Shrinks (Nodes.changeNlink i delta now) :=
  .bind (shrinks_update fun _ => Db.shrinks_updateNode fun _ => rfl) fun _ => .ask _

lemma shrinks_delete : Body.Keeps d.Shrinks (Nodes.delete i) :=
  shrinks_execute fun _ _ => Db.shrinks_deleteNode

lemma shrinks_deleteEntry {p : ℕ} : Body.Keeps d.Shrinks (Entries.delete p name) :=
  shrinks_update fun _ => Db.shrinks_of_tables rfl rfl

lemma shrinks_insertEntry {e : EntryRow} {d' : Db} (h : d.insertEntry e = some d') :
    d.Shrinks d' := by
  unfold Db.insertEntry at h
  split_ifs at h
  obtain ⟨t, -, rfl⟩ := Option.map_eq_some_iff.mp h
  exact Db.shrinks_of_tables rfl rfl

lemma shrinks_moveEntry {p q : ℕ} {m n : Str} {d' : Db} (h : d.moveEntry p m q n = some d') :
    d.Shrinks d' := by
  unfold Db.moveEntry at h
  split_ifs at h
  · obtain ⟨t, -, rfl⟩ := Option.map_eq_some_iff.mp h
    exact Db.shrinks_of_tables rfl rfl
  · cases h
    exact .refl

lemma shrinks_rename {p q : ℕ} {m n : Str} : Body.Keeps d.Shrinks (Entries.rename p m q n) :=
  shrinks_execute fun _ _ => shrinks_moveEntry

lemma shrinks_maybeGc {n : ℕ} : Body.Keeps d.Shrinks (maybeGc i n) := by
  refine .bind (.ask _) fun node => ?_
  cases node with
  | none => exact .pure _
  | some node => exact .ite shrinks_delete (.pure _)

lemma shrinks_insertXattr {r : XattrsRow} {d' : Db} (h : d.insertXattr r = some d') :
    d.Shrinks d' := by
  unfold Db.insertXattr at h
  split_ifs at h
  obtain ⟨t, -, rfl⟩ := Option.map_eq_some_iff.mp h
  exact Db.shrinks_of_tables rfl rfl

lemma shrinks_insertSymlink {r : SymlinksRow} {d' : Db} (h : d.insertSymlink r = some d') :
    d.Shrinks d' := by
  unfold Db.insertSymlink at h
  split_ifs at h
  obtain ⟨t, -, rfl⟩ := Option.map_eq_some_iff.mp h
  exact Db.shrinks_of_tables rfl rfl

lemma shrinks_xattrsSet {value : Bytes} {flags : ℤ} :
    Body.Keeps d.Shrinks (Xattrs.set i name value flags) :=
  .bind (.ask _) fun _ => .ite (shrinks_update fun _ => Db.shrinks_of_tables rfl rfl)
    (shrinks_execute fun _ _ => shrinks_insertXattr)

lemma shrinks_xattrsRemove : Body.Keeps d.Shrinks (Xattrs.remove i name) :=
  .bind (.ask _) fun _ => .bind (shrinks_update fun _ => Db.shrinks_of_tables rfl rfl) fun _ =>
    .ask _

lemma shrinks_replaceTarget {noreplace : Bool} {q n : ℕ} {t : EntryRow} :
    Body.Keeps d.Shrinks (replaceTarget env dst noreplace q name t n) :=
  .bind (.ask _) fun _ => .bind (.ask _) fun _ =>
    .ite (.bind (.ask _) fun _ => .bind shrinks_deleteEntry fun _ => shrinks_delete)
      (.bind shrinks_deleteEntry fun _ => .bind shrinks_changeNlink fun _ => shrinks_maybeGc)

lemma shrinks_renameBody {noreplace exchange : Bool} {p q n : ℕ} {m m' : Str}
    {t : Option EntryRow} :
    Body.Keeps d.Shrinks (renameBody env dst noreplace exchange p m q m' t n) := by
  have htouch : Body.Keeps d.Shrinks (do
      touch env p
      if q ≠ p then touch env q else pure ⟨⟩) :=
    .bind shrinks_touch fun _ => .ite shrinks_touch (.pure _)
  unfold renameBody
  cases exchange with
  | true =>
    cases t with
    | none => exact .bind (.ask _) fun _ => htouch
    | some t =>
      exact .bind (.bind shrinks_rename fun _ => .bind shrinks_rename fun _ => shrinks_rename)
        fun _ => htouch
  | false =>
    cases t with
    | none => exact .bind shrinks_rename fun _ => htouch
    | some t => exact .bind shrinks_replaceTarget fun _ => .bind shrinks_rename fun _ => htouch

end Bodies

section Programs
variable {α : Type} {P : Db → Prop} {fd : ℕ}

lemma keeps_emit {event : Event} : Prog.Keeps P (emit event) := .volatile fun _ => rfl

lemma keeps_changeCache {f : KeyTable CachedPath → KeyTable CachedPath} :
    Prog.Keeps P (changeCache f) := .volatile fun _ => rfl

lemma keeps_onLocks {f : LockManager → Res α × LockManager} : Prog.Keeps P (onLocks f) :=
  .volatile fun _ => rfl

lemma keeps_openFd {flags : ℤ} : Prog.Keeps P (openFd i flags) := .volatile fun _ => rfl

lemma keeps_stat {follow : Bool} : Prog.Keeps P (stat path follow) :=
  .bind (.query _) fun _ => .bind (.query _) fun _ => .pure _

lemma keeps_exists : Prog.Keeps P (exists_ path) := by
  intro s hs
  have hstat : Prog.Keeps P (stat path true) := keeps_stat
  obtain ⟨hstate, hcommits⟩ := hstat s hs
  unfold exists_
  dsimp only
  split <;> exact ⟨hstate, hcommits⟩

lemma keeps_pathOfInode : Prog.Keeps P (pathOfInode i) := by
  refine .ite (.pure _) (.bind (.query _) fun cached => ?_)
  cases cached with
  | some p => exact .pure _
  | none =>
    refine .bind (.query _) fun path => ?_
    cases path with
    | some p => exact .bind keeps_changeCache fun _ => .pure _
    | none => exact .pure _

lemma keeps_emitModify : Prog.Keeps P (emitModify env i) := by
  refine .bind keeps_pathOfInode fun path => ?_
  cases path with
  | some p => exact keeps_emit
  | none => exact .pure _

/-- The operations that write nothing to the database. -/
def Op.Reads : Op → Prop
  | .readdir _ | .stat .. | .exists_ _ | .read .. | .fsync _ | .readlink _ | .getxattr ..
  | .listxattr _ | .posixLock .. | .ofdLock .. | .flock .. | .posixGetlk .. | .ofdGetlk ..
  | .watch .. | .closeWatcher _ | .nextEvent _ => True
  | _ => False

lemma Op.Reads.keeps {operation : Op} (h : operation.Reads) :
    Prog.Keeps P (operation.run env) := by
  cases operation with
  | readdir path =>
    exact .bind (.bind (.query _) fun _ => .bind (.query _) fun _ => .bind (.query _) fun _ =>
      .bind (.query _) fun _ => .query _) fun _ => .pure _
  | stat path follow => exact .bind keeps_stat fun _ => .pure _
  | exists_ path => exact .bind keeps_exists fun _ => .pure _
  | read fd size offset =>
    exact .bind (.bind (.query _) fun _ => .bind (.query _) fun _ => .bind (.query _) fun _ =>
      .query _) fun _ => .pure _
  | fsync fd => exact .bind (.pure _) fun _ => .pure _
  | readlink path =>
    exact .bind (.bind (.query _) fun _ => .bind (.query _) fun _ => .bind (.query _) fun _ =>
      .query _) fun _ => .pure _
  | getxattr path name =>
    exact .bind (.bind (.query _) fun _ => .bind (.query _) fun _ => .bind (.query _) fun _ =>
      .query _) fun _ => .pure _
  | listxattr path => exact .bind (.bind (.query _) fun _ => .query _) fun _ => .pure _
  | posixLock fd op start length =>
    exact .bind (.bind (.query _) fun _ => keeps_onLocks) fun _ => .pure _
  | ofdLock fd op start length =>
    exact .bind (.bind (.query _) fun _ => keeps_onLocks) fun _ => .pure _
  | flock fd op => exact .bind (.bind (.query _) fun _ => keeps_onLocks) fun _ => .pure _
  | posixGetlk fd start length =>
    exact .bind (.bind (.query _) fun _ => .query _) fun _ => .pure _
  | ofdGetlk fd start length => exact .bind (.bind (.query _) fun _ => .query _) fun _ => .pure _
  | watch path recursive =>
    exact .bind (.bind (.query _) fun _ => .bind (.query _) fun _ => .bind (.query _) fun _ =>
      .bind (.query _) fun _ => .volatile fun _ => rfl) fun _ => .pure _
  | closeWatcher id => exact .bind (.volatile fun _ => rfl) fun _ => .pure _
  | nextEvent id =>
    refine .bind (.volatile fun s => ?_) fun _ => .pure _
    split <;> rfl
  | _ => exact h.elim

end Programs

section Programs
variable {d : Db} {fd : ℕ}

lemma keeps_closeFd : Prog.Keeps d.Shrinks (closeFd env fd) := by
  refine .bind (.query _) fun f => .bind (.volatile fun _ => rfl) fun _ =>
    .bind (.volatile fun _ => rfl) fun _ => .bind (.query _) ?_
  rintro ⟨readonly, openCount⟩
  refine .ite (.pure _) (.bind (.query _) fun node => ?_)
  cases node with
  | none => exact .pure _
  | some node => exact .ite (.transaction shrinks_maybeGc) (.pure _)

lemma keeps_rename {noreplace exchange : Bool} :
    Prog.Keeps d.Shrinks (rename env src dst noreplace exchange) := by
  refine .bind (.query _) fun _ => .bind (.query _) fun _ => .bind (.query _) ?_
  rintro ⟨p, m⟩
  refine .bind (.query _) ?_
  rintro ⟨q, m'⟩
  refine .bind (.query _) fun e => .bind (.query _) fun row => .ite (.pure _)
    (.bind (.query _) fun _ => .bind (.query _) fun t => .bind (.query _) fun n =>
      .bind (.transaction shrinks_renameBody) fun _ => .bind keeps_changeCache fun _ =>
        .bind keeps_emit fun _ => ?_)
  cases t with
  | none => exact .pure _
  | some t => exact .ite (.bind (.query _) fun _ => keeps_emit) (.pure _)

lemma keeps_unlink : Prog.Keeps d.Shrinks (unlink env path) := by
  refine .bind (.query _) fun _ => .bind (.query _) ?_
  rintro ⟨p, m⟩
  exact .bind (.query _) fun e => .bind (.query _) fun row => .bind (.query _) fun _ =>
    .bind (.query _) fun n => .bind (.transaction (.bind shrinks_deleteEntry fun _ =>
      .bind shrinks_changeNlink fun _ => .bind shrinks_touch fun _ => shrinks_maybeGc)) fun _ =>
    .bind keeps_changeCache fun _ => keeps_emit

lemma keeps_rmdir : Prog.Keeps d.Shrinks (rmdir env path) := by
  refine .bind (.query _) fun _ => .bind (.query _) fun _ => .bind (.query _) ?_
  rintro ⟨p, m⟩
  exact .bind (.query _) fun e => .bind (.query _) fun row => .bind (.query _) fun _ =>
    .bind (.query _) fun _ => .bind (.transaction (.bind shrinks_deleteEntry fun _ =>
      .bind shrinks_delete fun _ => .bind shrinks_changeNlink fun _ => shrinks_touch)) fun _ =>
    .bind keeps_changeCache fun _ => keeps_emit

lemma keeps_link : Prog.Keeps d.Shrinks (link env src dst) := by
  refine .bind (.query _) fun _ => .bind (.query _) fun i => .bind (.query _) fun row =>
    .bind (.query _) fun _ => .bind (.query _) ?_
  rintro ⟨p, m⟩
  exact .bind (.query _) fun _ => .bind (.transaction
    (.bind (shrinks_execute fun _ _ => shrinks_insertEntry) fun _ =>
      .bind shrinks_changeNlink fun _ => shrinks_touch)) fun _ => keeps_emit

/-- The operations that write to the database, but not to a file nor a new node. -/
def Op.Rearranges : Op → Prop
  | .rmdir _ | .chmod .. | .chown .. | .utimes .. | .closeFd _ | .unlink _ | .link .. | .setxattr ..
  | .removexattr .. | .rename .. => True
  | _ => False

lemma Op.Rearranges.keeps {operation : Op} (h : operation.Rearranges) :
    Prog.Keeps d.Shrinks (operation.run env) := by
  cases operation with
  | rmdir path => exact .bind keeps_rmdir fun _ => .pure _
  | chmod path mode follow =>
    exact .bind (.bind (.query _) fun _ => .bind (.query _) fun _ => .bind (.query _) fun _ =>
      .bind (.query _) fun _ => .bind (.transaction shrinks_updateModeUidGid) fun _ => keeps_emit)
      fun _ => .pure _
  | chown path uid gid follow =>
    exact .bind (.bind (.query _) fun _ => .bind (.query _) fun _ => .bind (.query _) fun _ =>
      .bind (.query _) fun _ => .bind (.transaction shrinks_updateModeUidGid) fun _ => keeps_emit)
      fun _ => .pure _
  | utimes path atimeNs mtimeNs follow =>
    exact .bind (.bind (.query _) fun _ => .bind (.query _) fun _ => .bind (.query _) fun _ =>
      .bind (.query _) fun _ => .bind (.transaction shrinks_updateTimes) fun _ => keeps_emit)
      fun _ => .pure _
  | closeFd fd => exact .bind keeps_closeFd fun _ => .pure _
  | unlink path => exact .bind keeps_unlink fun _ => .pure _
  | link src dst => exact .bind keeps_link fun _ => .pure _
  | setxattr path name value flags =>
    exact .bind (.bind (.query _) fun _ => .bind (.query _) fun _ => .bind (.query _) fun _ =>
      .bind (.query _) fun _ => .bind (.query _) fun _ => .bind (.query _) fun _ =>
      .bind (.transaction shrinks_xattrsSet) fun _ => keeps_emit) fun _ => .pure _
  | removexattr path name =>
    exact .bind (.bind (.query _) fun _ => .bind (.query _) fun _ => .bind (.query _) fun _ =>
      .bind (.query _) fun _ => .bind (.transaction shrinks_xattrsRemove) fun _ => keeps_emit)
      fun _ => .pure _
  | rename src dst noreplace exchange => exact .bind keeps_rename fun _ => .pure _
  | _ => exact h.elim

end Programs

/-! ### Operations that make a node -/

section Creation
variable {α β : Type} {kind : NodeKind} {mode uid gid : ℤ}

/-- The program leaves the contents of the nodes alone that are there before and after it. -/
abbrev LeavesContents (s : Filesystem) (p : Action α) : Prop :=
  Prog.RefusesOr p s fun o => s.conn.Spares o.state.conn

lemma LeavesContents.spares {p : Action α} (h : LeavesContents s p) :
    s.conn.Spares (p s).state.conn := by
  rcases h with ⟨e, he⟩ | h
  · rw [he]
    exact Db.Shrinks.refl.spares
  · exact h

lemma insert_inserts {d d' : Db} {now : ℤ} (h : Nodes.insert kind mode uid gid now d = .ok (i, d')) :
    ∃ row, d.insertNode row = some d' := by
  obtain ⟨-, h₁⟩ := params_bind_eq_ok.mp h
  obtain ⟨i', -, h₂⟩ := Body.ask_bind_eq_ok.mp h₁
  obtain ⟨d₁, hins, h₃⟩ := execute_bind_eq_ok.mp h₂
  rw [(Body.pure_eq_ok.mp h₃).2]
  exact ⟨_, hins⟩

lemma bind_newNode {b : ℕ → Sql β} {f : β → Action α} (hb : ∀ i d, Body.Keeps (Db.Shrinks d) (b i))
    (hf : ∀ a (d : Db), Prog.Keeps (· = d) (f a)) :
    LeavesContents s (withConn (Nodes.insert kind mode uid gid env.now >>= b) >>= f) := by
  refine .bind_transaction fun a d hd => ?_
  obtain ⟨i, d₁, hins, hrest⟩ := Body.bind_eq_ok.mp hd
  obtain ⟨row, hrow⟩ := insert_inserts hins
  have hstate : (f a (setDisk s d)).state.conn = d := (hf a d (setDisk s d) rfl).1
  dsimp only
  rw [hstate]
  exact .of_insertNode hrow (hb i d₁ d₁ a d .refl hrest)

lemma mkdir_spares : LeavesContents s (mkdir env path mode) := by
  apply bind_requireWritable
  intro _
  refine bind_resolveParent fun p m _ => ?_
  dsimp only
  refine bind_requireAbsent fun _ => bind_ask fun ids _ => ?_
  exact bind_newNode (fun i d => .bind (shrinks_execute fun _ _ => shrinks_insertEntry) fun _ =>
    .bind shrinks_changeNlink fun _ => .bind shrinks_touch fun _ => .pure _) fun _ _ => keeps_emit

lemma symlink_spares {target : Bytes} : LeavesContents s (symlink env target path) := by
  apply bind_requireWritable
  intro _
  refine bind_resolveParent fun p m _ => ?_
  dsimp only
  refine bind_requireAbsent fun _ => bind_ask fun ids _ => ?_
  exact bind_newNode (fun i d => .bind (shrinks_execute fun _ _ => shrinks_insertEntry) fun _ =>
    .bind (shrinks_execute fun _ _ => shrinks_insertSymlink) fun _ =>
    .bind shrinks_touch fun _ => .pure _) fun _ _ => keeps_emit

lemma openNew_spares {flags : ℤ} : LeavesContents s (openNew env path flags mode) := by
  apply bind_require
  intro _
  apply bind_requireWritable
  intro _
  refine bind_resolveParent fun p m _ => ?_
  dsimp only
  refine bind_ask fun ids _ => ?_
  exact bind_newNode (fun i d => .bind (.exec fun _ _ hd h =>
      hd.trans (shrinks_insertEntry (rowOr_eq_ok.mp h))) fun _ =>
    .bind shrinks_touch fun _ => .pure _) fun _ _ =>
      .bind keeps_emit fun _ => .bind (.query _) fun _ => keeps_openFd

end Creation

/-! ### Operations that change contents -/

/-- `check_access` holds with `W` for the caller on node `i`. -/
def CanWrite (s : Filesystem) (i : ℕ) : Prop := ∃ row, Nodes.get s.conn i = .ok row ∧
  checkAccess row.mode row.uid row.gid s.uid s.gid Access.W = true

/-- The descriptor was opened with `O_WRONLY` or `O_RDWR`. -/
def ForWriting (f : FdEntry) : Prop :=
  accessMode f.flags = Os.O_WRONLY ∨ accessMode f.flags = Os.O_RDWR

/-- `open` gets to truncate the file `i`. -/
structure MayEmpty (s : Filesystem) (path : Str) (flags : ℤ) (i : ℕ) (row : NodesRow) : Prop where
  resolved : resolvePathAs s.conn s.uid s.gid path (!hasBits flags Os.O_NOFOLLOW) = .ok i
  notExcl : ¬ (hasBits flags Os.O_CREAT ∧ hasBits flags Os.O_EXCL)
  node : Nodes.get s.conn i = .ok row
  access : checkAccess row.mode row.uid row.gid s.uid s.gid (accessBits flags) = true
  truncates : hasBits flags Os.O_TRUNC = true
  file : row.kind = .file
  writable : s.readonly = false

/-- `truncate` gets to truncate node `i`. -/
structure MayTruncate (s : Filesystem) (path : Str) (i : ℕ) (row : NodesRow) : Prop where
  writable : s.readonly = false
  resolved : resolvePathAs s.conn s.uid s.gid path true = .ok i
  node : Nodes.get s.conn i = .ok row
  notDir : row.kind ≠ .dir

/-- There is a descriptor `fd` with a node, and the filesystem may be written. -/
structure HasFd (s : Filesystem) (fd : ℕ) (f : FdEntry) (row : NodesRow) : Prop where
  writable : s.readonly = false
  entry : s.fdTable.entries.find? fd = some f
  node : Nodes.get s.conn f.inode = .ok row

section Contents
variable {α β : Type} {fd : ℕ} {f : FdEntry} {row : NodesRow} {flags size : ℤ}

lemma withConn_conn {b : Sql β} {f : β → Action α} (hf : ∀ a (d : Db), Prog.Keeps (· = d) (f a)) :
    ((withConn b >>= f) s).state.conn = committed b s.conn := by
  unfold committed
  cases hb : b s.conn with
  | error e =>
    have hrun : withConn b s = ⟨.error e, s, []⟩ := by
      unfold withConn Prog.transaction
      rw [show b (disk s) = .error e from hb]
    rw [Prog.bind_apply_error hrun]
  | ok r =>
    have hrun : withConn b s = ⟨.ok r.1, { s with conn := r.2 }, [r.2]⟩ := by
      unfold withConn Prog.transaction
      rw [show b (disk s) = .ok r from hb]
      rfl
    rw [Prog.bind_apply_ok hrun]
    exact (hf r.1 r.2 { s with conn := r.2 } rfl).1

lemma truncate_conn (h : MayTruncate s path i row) : (truncate env path size s).state.conn =
    committed (truncateBody env i size row.size s.chunkSizeVal) s.conn := by
  unfold truncate
  rw [requireWritable_bind h.writable, resolvePath_bind h.resolved, getNode_bind h.node,
    require_bind h.notDir, ask_bind (b := s.chunkSizeVal) rfl]
  exact withConn_conn fun _ _ => keeps_emit

/-- Otherwise it refuses. -/
lemma truncate_spares (h : ¬ ∃ i row, MayTruncate s path i row) :
    LeavesContents s (truncate env path size) :=
  bind_requireWritable fun hw => bind_resolvePath fun _ hi => bind_getNode fun _ hrow =>
    bind_require fun hk => absurd ⟨_, _, hw, hi, hrow, hk⟩ h

lemma truncateFd_conn (h : HasFd s fd f row) : (truncateFd env fd size s).state.conn =
    committed (truncateBody env f.inode size row.size s.chunkSizeVal) s.conn := by
  have hfd : s.fdTable.get fd = .ok f := rowOr_eq_ok.mpr h.entry
  unfold truncateFd
  rw [requireWritable_bind h.writable, ask_bind hfd, getNode_bind h.node, ask_bind (b := s.chunkSizeVal) rfl]
  exact withConn_conn fun _ _ => keeps_emitModify

lemma truncateFd_spares (h : ¬ ∃ f row, HasFd s fd f row) :
    LeavesContents s (truncateFd env fd size) :=
  bind_requireWritable fun hw => bind_ask fun _ hf => bind_getNode fun _ hrow =>
    absurd ⟨_, _, hw, rowOr_eq_ok.mp hf, hrow⟩ h

lemma write_conn {data : Bytes} {offset : ℤ} (h : HasFd s fd f row)
    (hmode : accessMode f.flags ≠ Os.O_RDONLY) : (write env fd data offset s).state.conn =
    committed (writeBody env f.inode data offset row.size s.chunkSizeVal) s.conn := by
  have hfd : s.fdTable.get fd = .ok f := rowOr_eq_ok.mpr h.entry
  unfold write
  rw [requireWritable_bind h.writable, ask_bind hfd, require_bind hmode, getNode_bind h.node,
    ask_bind (b := s.chunkSizeVal) rfl]
  exact withConn_conn fun _ _ => .bind keeps_emitModify fun _ => .pure _

lemma write_spares {data : Bytes} {offset : ℤ}
    (h : ¬ ∃ f row, HasFd s fd f row ∧ accessMode f.flags ≠ Os.O_RDONLY) :
    LeavesContents s (write env fd data offset) :=
  bind_requireWritable fun hw => bind_ask fun _ hf => bind_require fun hmode =>
    bind_getNode fun _ hrow => absurd ⟨_, _, ⟨hw, rowOr_eq_ok.mp hf, hrow⟩, hmode⟩ h

lemma open_conn {mode : ℤ} (h : MayEmpty s path flags i row) :
    (open_ env path flags mode s).state.conn =
      committed (truncateBody env i 0 row.size s.chunkSizeVal) s.conn := by
  have hlink : ¬ (hasBits flags Os.O_NOFOLLOW ∧ row.kind = .symlink) := by
    rw [h.file]
    exact fun hlink => absurd hlink.2 (by decide)
  unfold open_
  rw [lookup, ask_bind (b := some i) (by rw [h.resolved])]
  dsimp only
  unfold openExisting
  rw [require_bind h.notExcl, getNode_bind h.node, require_bind hlink,
    requireAccessTo_bind h.access, if_pos ⟨h.truncates, h.file⟩, requireWritable_bind h.writable,
    ask_bind (b := s.chunkSizeVal) rfl]
  exact withConn_conn fun _ _ => keeps_openFd

lemma open_spares {mode : ℤ} (h : ¬ ∃ i row, MayEmpty s path flags i row) :
    LeavesContents s (open_ env path flags mode) := by
  refine bind_ask fun target htarget => ?_
  cases target with
  | none => exact openNew_spares
  | some i =>
    have hres : resolvePathAs s.conn s.uid s.gid path (!hasBits flags Os.O_NOFOLLOW) = .ok i := by
      split at htarget
      · cases htarget
        assumption
      · cases htarget
      · cases htarget
    refine bind_require fun hexcl => bind_getNode fun row hrow => bind_require fun _ =>
      bind_requireAccessTo fun haccess => ?_
    split_ifs with htrunc
    · exact bind_requireWritable fun hw =>
        absurd ⟨i, row, hres, hexcl, hrow, haccess, htrunc.1, htrunc.2, hw⟩ h
    · exact .of_run Db.Shrinks.refl.spares

end Contents

/-! ### Who changes contents -/

/-- The operation acts on node `i` through a descriptor that was opened for writing. -/
def ThroughWritableFd (s : Filesystem) (i : ℕ) : Op → Prop
  | .write fd _ _ | .truncateFd fd _ =>
    ∃ f, s.fdTable.entries.find? fd = some f ∧ ForWriting f ∧ f.inode = i
  | _ => False

/-- If the operation changes the size or a chunk of a node that exists before and after it, then
it acts through a descriptor that was opened for writing, or the caller may write to the node. -/
def ContentGuarded (s : Filesystem) (user : Option (ℤ × ℤ)) (env : Env) (operation : Op) : Prop :=
  ∀ i, s.conn.hasNode i = true → ((Call.op user env operation).exec s).conn.hasNode i = true →
    ¬ s.conn.SameFile ((Call.op user env operation).exec s).conn i →
      ThroughWritableFd (s.actAs user) i operation ∨ CanWrite (s.actAs user) i

/-- `open` truncates a file that has contents, and the caller may not write to it. -/
def EmptiesUnwritable (s : Filesystem) (path : Str) (flags : ℤ) : Prop :=
  ∃ i row, MayEmpty s path flags i row ∧ ¬ CanWrite s i ∧ Resizes s.chunkSizeVal 0 row.size

/-- A caller who may not write to the file is to change its contents: by `open` with `O_TRUNC` and
an access mode that asks for reading only, by `truncate`, by `truncate_fd` through a descriptor for
reading, or by `write` through a descriptor whose access mode is neither for reading nor for
writing. -/
def Trespasses (s : Filesystem) : Op → Prop
  | .open_ path flags _ => EmptiesUnwritable s path flags
  | .create path _ flags =>
    EmptiesUnwritable s path (((flags.lor Os.O_CREAT).lor Os.O_RDWR).lor Os.O_TRUNC)
  | .write fd data offset => ∃ f row, (HasFd s fd f row ∧ accessMode f.flags ≠ Os.O_RDONLY) ∧
      ¬ ForWriting f ∧ ¬ CanWrite s f.inode ∧
      Rewrites s.conn f.inode s.chunkSizeVal data offset row.size
  | .truncateFd fd size => ∃ f row, HasFd s fd f row ∧ ¬ ForWriting f ∧ ¬ CanWrite s f.inode ∧
      Resizes s.chunkSizeVal size row.size
  | .truncate path size => ∃ i row, MayTruncate s path i row ∧ ¬ CanWrite s i ∧
      Resizes s.chunkSizeVal size row.size
  | _ => False

section Guard
variable {user : Option (ℤ × ℤ)} {operation : Op} {d d' : Db} {A : ℕ → Prop} {c : Prop}

lemma hasNode_of_get {row : NodesRow} (h : Nodes.get d i = .ok row) : d.hasNode i = true := by
  unfold Db.hasNode
  rw [Nodes.get_eq_ok.mp h]
  rfl

lemma guarded_of_spares (h : d.Spares d') :
    ∀ j, d.hasNode j = true → d'.hasNode j = true → ¬ d.SameFile d' j → A j :=
  fun j hj hj' hdiff => absurd (h j hj hj') hdiff

/-- Where one node's contents may change, only that node counts. -/
lemma guarded_iff (h : d.Edits d' i c) (hnode : d.hasNode i = true) :
    (∀ j, d.hasNode j = true → d'.hasNode j = true → ¬ d.SameFile d' j → A j) ↔ (c → A i) := by
  constructor
  · intro hguard hc
    exact hguard i hnode (h.node.trans hnode) (h.contents.mpr hc)
  · intro himp j _ _ hdiff
    by_cases hj : j = i
    · subst hj
      exact himp (h.contents.mp hdiff)
    · exact absurd (h.others j hj) hdiff

/-- What an operation changes of the contents at `s` is guarded. -/
def Guards (s : Filesystem) (operation : Op) (d : Db) : Prop :=
  ∀ i, s.conn.hasNode i = true → d.hasNode i = true → ¬ s.conn.SameFile d i →
    ThroughWritableFd s i operation ∨ CanWrite s i

lemma exec_conn (env : Env) (operation : Op) : ((Call.op user env operation).exec s).conn =
    (operation.run env (s.actAs user)).state.conn := by
  rw [Call.exec, Call.outcome, asUser_conn]

lemma emptiesUnwritable_iff {flags : ℤ} {row : NodesRow} (h : MayEmpty s path flags i row) :
    EmptiesUnwritable s path flags ↔ ¬ CanWrite s i ∧ Resizes s.chunkSizeVal 0 row.size := by
  constructor
  · rintro ⟨j, row', hmay, hrest⟩
    obtain rfl := Except.ok.inj (hmay.resolved.symm.trans h.resolved)
    obtain rfl := Except.ok.inj (hmay.node.symm.trans h.node)
    exact hrest
  · exact fun hrest => ⟨i, row, h, hrest⟩

lemma open_guards {flags mode : ℤ} (hop : ∀ j, ¬ ThroughWritableFd s j operation) :
    Guards s operation (open_ env path flags mode s).state.conn ↔
      ¬ EmptiesUnwritable s path flags := by
  by_cases h : ∃ i row, MayEmpty s path flags i row
  · obtain ⟨i, row, hmay⟩ := h
    have hedits := edits_truncateBody env 0 s.chunkSizeVal (Nodes.get_eq_ok.mp hmay.node)
    rw [emptiesUnwritable_iff hmay, open_conn hmay, Guards,
      guarded_iff hedits (hasNode_of_get hmay.node), or_iff_right (hop i), not_and', not_not]
  · exact iff_of_true (guarded_of_spares (open_spares h).spares)
      fun ⟨i, row, hmay, _⟩ => h ⟨i, row, hmay⟩

lemma truncate_guards {size : ℤ} :
    Guards s (.truncate path size) (truncate env path size s).state.conn ↔
      ¬ Trespasses s (.truncate path size) := by
  by_cases h : ∃ i row, MayTruncate s path i row
  · obtain ⟨i, row, hmay⟩ := h
    have hedits := edits_truncateBody env size s.chunkSizeVal (Nodes.get_eq_ok.mp hmay.node)
    rw [truncate_conn hmay, Guards, guarded_iff hedits (hasNode_of_get hmay.node)]
    constructor
    · rintro himp ⟨j, row', hmay', hwrite, hres⟩
      obtain rfl := Except.ok.inj (hmay'.resolved.symm.trans hmay.resolved)
      obtain rfl := Except.ok.inj (hmay'.node.symm.trans hmay.node)
      exact hwrite ((himp hres).resolve_left id)
    · intro hnot hres
      by_contra hguard
      exact hnot ⟨i, row, hmay, fun hwrite => hguard (Or.inr hwrite), hres⟩
  · exact iff_of_true (guarded_of_spares (truncate_spares h).spares)
      fun ⟨i, row, hmay, _⟩ => h ⟨i, row, hmay⟩

/-- An operation on a descriptor is guarded where it changes nothing, or by the descriptor. -/
lemma fd_guards {fd : ℕ} {f : FdEntry} {row : NodesRow} (hfd : HasFd s fd f row)
    (hop : ∀ j, ThroughWritableFd s j operation ↔
      ∃ f, s.fdTable.entries.find? fd = some f ∧ ForWriting f ∧ f.inode = j)
    (hedits : s.conn.Edits d f.inode c) :
    Guards s operation d ↔ ¬ (¬ ForWriting f ∧ ¬ CanWrite s f.inode ∧ c) := by
  have hthrough : ThroughWritableFd s f.inode operation ↔ ForWriting f := by
    rw [hop]
    constructor
    · rintro ⟨f', hf', hmode, -⟩
      obtain rfl := Option.some.inj (hf'.symm.trans hfd.entry)
      exact hmode
    · exact fun hmode => ⟨f, hfd.entry, hmode, rfl⟩
  rw [Guards, guarded_iff hedits (hasNode_of_get hfd.node), hthrough]
  tauto

lemma HasFd.unique {fd : ℕ} {f f' : FdEntry} {row row' : NodesRow} (h : HasFd s fd f row)
    (h' : HasFd s fd f' row') : f' = f ∧ row' = row := by
  obtain rfl := Option.some.inj (h'.entry.symm.trans h.entry)
  exact ⟨rfl, Except.ok.inj (h'.node.symm.trans h.node)⟩

lemma truncateFd_guards {fd : ℕ} {size : ℤ} :
    Guards s (.truncateFd fd size) (truncateFd env fd size s).state.conn ↔
      ¬ Trespasses s (.truncateFd fd size) := by
  by_cases h : ∃ f row, HasFd s fd f row
  · obtain ⟨f, row, hfd⟩ := h
    have hedits := edits_truncateBody env size s.chunkSizeVal (Nodes.get_eq_ok.mp hfd.node)
    rw [truncateFd_conn hfd, fd_guards hfd (fun _ => Iff.rfl) hedits]
    refine not_congr ⟨fun hrest => ⟨f, row, hfd, hrest⟩, ?_⟩
    rintro ⟨f', row', hfd', hrest⟩
    obtain ⟨rfl, rfl⟩ := hfd.unique hfd'
    exact hrest
  · exact iff_of_true (guarded_of_spares (truncateFd_spares h).spares)
      fun ⟨f, row, hfd, _⟩ => h ⟨f, row, hfd⟩

lemma write_guards {fd : ℕ} {data : Bytes} {offset : ℤ} :
    Guards s (.write fd data offset) (write env fd data offset s).state.conn ↔
      ¬ Trespasses s (.write fd data offset) := by
  by_cases h : ∃ f row, HasFd s fd f row ∧ accessMode f.flags ≠ Os.O_RDONLY
  · obtain ⟨f, row, hfd, hmode⟩ := h
    have hedits := edits_writeBody env data offset s.chunkSizeVal
      (Nodes.get_eq_ok.mp hfd.node)
    rw [write_conn hfd hmode, fd_guards hfd (fun _ => Iff.rfl) hedits]
    refine not_congr ⟨fun hrest => ⟨f, row, ⟨hfd, hmode⟩, hrest⟩, ?_⟩
    rintro ⟨f', row', ⟨hfd', -⟩, hrest⟩
    obtain ⟨rfl, rfl⟩ := hfd.unique hfd'
    exact hrest
  · exact iff_of_true (guarded_of_spares (write_spares h).spares)
      fun ⟨f, row, hfd, _⟩ => h ⟨f, row, hfd⟩

lemma Op.guards (env : Env) (operation : Op) :
    Guards s operation (operation.run env s).state.conn ↔ ¬ Trespasses s operation := by
  cases operation with
  | open_ path flags mode =>
    rw [Op.run, answer_apply]
    exact open_guards fun _ => id
  | create path mode flags =>
    rw [Op.run, answer_apply]
    exact open_guards fun _ => id
  | write fd data offset =>
    rw [Op.run, answer_apply]
    exact write_guards
  | truncateFd fd size =>
    rw [Op.run, answer_apply]
    exact truncateFd_guards
  | truncate path size =>
    rw [Op.run, answer_apply]
    exact truncate_guards
  | mkdir path mode =>
    rw [Op.run, answer_apply]
    exact iff_of_true (guarded_of_spares mkdir_spares.spares) id
  | symlink target path =>
    rw [Op.run, answer_apply]
    exact iff_of_true (guarded_of_spares symlink_spares.spares) id
  | rmdir | chmod | chown | utimes | closeFd | unlink | link | setxattr | removexattr | rename =>
    refine iff_of_true (guarded_of_spares (Db.Shrinks.spares ?_)) id
    exact (Op.Rearranges.keeps (by exact trivial) s .refl).1
  | _ =>
    refine iff_of_true (guarded_of_spares (Db.Shrinks.spares ?_)) id
    exact (Op.Reads.keeps (by exact trivial) s .refl).1

/-- Contents change with the right to write only, unless the call trespasses. -/
theorem contents_guarded_iff (s : Filesystem) (user : Option (ℤ × ℤ)) (env : Env)
    (operation : Op) :
    ContentGuarded s user env operation ↔ ¬ Trespasses (s.actAs user) operation := by
  rw [← Op.guards env operation, ContentGuarded, Guards, exec_conn, actAs_conn]

end Guard

/-- A file of root's with one byte in it, which others may not even read. -/
def privateFile : Filesystem :=
  newFsAfter [.create ['/', 'f'] 0o600 0, .write 1 [7] 0]

/-- The user 5 truncates the file. -/
theorem not_contents_guarded : Reachable privateFile ∧
    ¬ ContentGuarded privateFile (some (5, 5)) ⟨1, 1, by decide⟩ (.truncate ['/', 'f'] 0) := by
  refine ⟨reachable_newFsAfter _, fun h => ?_⟩
  have hbefore : (privateFile.conn.nodes.find? 2).map NodesRow.size = some 1 := by decide +kernel
  have hafter : ((((Call.op (some (5, 5)) ⟨1, 1, by decide⟩
      (.truncate ['/', 'f'] 0)).exec privateFile).conn.nodes.find? 2).map NodesRow.size)
        = some 0 := by decide +kernel
  have hdiff : ¬ privateFile.conn.SameFile ((Call.op (some (5, 5)) ⟨1, 1, by decide⟩
      (.truncate ['/', 'f'] 0)).exec privateFile).conn 2 := by
    intro hsame
    have hsize := hsame.size
    rw [hbefore, hafter] at hsize
    exact absurd hsize (by decide)
  rcases h 2 (by decide +kernel) (by decide +kernel) hdiff with hfd | ⟨row, hrow, haccess⟩
  · exact hfd
  · have hnode : Nodes.get privateFile.conn 2
        = .ok ⟨2, .file, 0o600, 0, 0, 1, 0, 0, 0, 1⟩ := by decide +kernel
    cases hnode.symm.trans hrow
    exact absurd haccess (by decide)

end Filesystem

end Python

end SqliteFs
