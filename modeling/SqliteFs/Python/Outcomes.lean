import SqliteFs.Python.Effects

/-!
# The outcome of each operation of the Python library

For every operation there is the effect that it has where it does not refuse. A write through a
descriptor may go on forever when it looks for the path of its event, after it has committed.
-/

namespace SqliteFs

open Txn

namespace Db

variable {d d₁ d₂ : Db} {i p : ℕ} {c : ℤ}

/-- The link count of another node may as well be changed before. -/
lemma RemovesNode.adjust_comm (hr : d.RemovesNode d₁ i) (ha : d₁.Adjust d₂ (Pi.single p c)) :
    ∃ d', d.Adjust d' (Pi.single p c) ∧ d'.RemovesNode d₂ i := by
  have hadj : d.Adjust (d.updateNode p (fun r => { r with nlink := r.nlink + c }) fun _ => rfl)
      (Pi.single p c) :=
    .updateNode p c (fun _ => rfl) (fun _ => rfl) fun _ => rfl
  refine ⟨_, hadj, ?_, ?_, ?_, fun j => ?_⟩
  · rw [hadj.entries]
    exact hr.unnamed
  · rw [ha.entries, hr.entries, hadj.entries]
  · rw [ha.blobs, hr.blobs, hadj.blobs]
  · rw [ha.info, hr.info, hadj.info]
    split_ifs <;> rfl

end Db

namespace Python

section Bodies
variable {d d' : Db} {env : Env} {u : PUnit} {i n : ℕ}

lemma touch_ok (h : Filesystem.touch env i d = .ok (u, d')) : d.skeleton.Adjust d'.skeleton 0 :=
  Nodes.updateTimes_ok h

/-- The collector does nothing, or it removes a node without links and descriptors. -/
lemma maybeGc_ok (h : Filesystem.maybeGc i n d = .ok (u, d')) : d' = d ∨
    (∃ m, d.skeleton.info i = some m ∧ m.nlink = 0) ∧ n = 0 ∧
      d.skeleton.RemovesNode d'.skeleton i := by
  obtain ⟨node, hnode, h₁⟩ := Body.ask_bind_eq_ok.mp h
  replace hnode : d.nodes.find? i = node := Except.ok.inj hnode
  cases node with
  | none => exact Or.inl (Body.pure_eq_ok.mp h₁).2
  | some row =>
    dsimp only at h₁
    split_ifs at h₁ with hgone
    · refine Or.inr ⟨⟨⟨row.kind, 0, row.nlink⟩, ?_, hgone.1⟩, hgone.2, Nodes.delete_ok ?_ h₁⟩
      · rw [Db.info_skeleton, hnode]
        rfl
      · rw [Db.hasNode, hnode]
        rfl
    · exact Or.inl (Body.pure_eq_ok.mp h₁).2

lemma Filesystem.insertNew_ok {parent : ℕ} {name path : Str}
    (h : Filesystem.insertNew parent name i path d = .ok (u, d')) :
    d.skeleton.insertEntry ⟨parent, name, i⟩ = .ok d'.skeleton :=
  Db.skeleton_insertEntry (rowOr_eq_ok.mp (Body.exec_eq_ok.mp h))

end Bodies

/-! ### Statements that leave names and links alone -/

/-- `d'` has the names, the kinds and the link counts of `d`. -/
def Db.SameNames (d d' : Db) : Prop := d.skeleton.SameNames d'.skeleton

section Quiet
variable {d : Db} {i : ℕ}

lemma keeps_execute {f : Db → Db.Stmt}
    (hf : ∀ d d', f d = some d' → d'.nodes = d.nodes ∧ d'.entries = d.entries) :
    Body.Keeps d.SameNames (execute f) := by
  refine .exec fun d₁ d₂ hd h => ?_
  obtain ⟨hnodes, hentries⟩ := hf d₁ d₂ (rowOr_eq_ok.mp h)
  exact SqliteFs.Db.SameNames.trans hd (Db.sameNames_of_nodes hnodes hentries)

lemma keeps_update {f : Db → Db} (hf : ∀ d, (f d).nodes = d.nodes ∧ (f d).entries = d.entries) :
    Body.Keeps d.SameNames (update f) := by
  refine .exec fun d₁ d₂ hd h => ?_
  obtain rfl := Except.ok.inj h
  exact SqliteFs.Db.SameNames.trans hd (Db.sameNames_of_nodes (hf d₁).1 (hf d₁).2)

/-- What is said of one call is said of the statement. -/
lemma keeps_of_adjust {b : Sql PUnit}
    (hb : ∀ d₁ u d₂, b d₁ = .ok (u, d₂) → d₁.skeleton.Adjust d₂.skeleton 0) :
    Body.Keeps d.SameNames b :=
  fun d₁ u d₂ hd h => SqliteFs.Db.SameNames.trans hd (hb d₁ u d₂ h).sameNames

lemma putBlob_names {inode : ℕ} {chunkId : ℤ} {data : Bytes} (d₁ d₂ : Db)
    (h : d₁.putBlob inode chunkId data = some d₂) :
    d₂.nodes = d₁.nodes ∧ d₂.entries = d₁.entries := by
  unfold Db.putBlob at h
  split_ifs at h
  obtain rfl := Option.some.inj h
  exact ⟨rfl, rfl⟩

lemma insertXattr_names {row : XattrsRow} (d₁ d₂ : Db) (h : d₁.insertXattr row = some d₂) :
    d₂.nodes = d₁.nodes ∧ d₂.entries = d₁.entries := by
  unfold Db.insertXattr at h
  split_ifs at h
  obtain ⟨t, -, rfl⟩ := Option.map_eq_some_iff.mp h
  exact ⟨rfl, rfl⟩

lemma keeps_updateSize {size mtime ctime : ℤ} :
    Body.Keeps d.SameNames (Nodes.updateSize i size mtime ctime) :=
  keeps_of_adjust fun _ _ _ => Nodes.updateSize_ok

lemma keeps_putAll (rows : List (ℤ × Bytes)) : Body.Keeps d.SameNames (Blobs.putAll i rows) := by
  induction rows with
  | nil => exact .pure _
  | cons row rows ih => exact .bind (keeps_execute putBlob_names) fun _ => ih

lemma keeps_writeRange {data : Bytes} {offset fileSize chunkSize : ℤ} :
    Body.Keeps d.SameNames (Blobs.writeRange i data offset fileSize chunkSize) :=
  .ite (.pure _) (.bind (.ask _) fun _ => .bind (.ask _) fun _ => .bind (.ask _) fun _ =>
    .bind (.ask _) fun _ => .bind (keeps_putAll _) fun _ => .pure _)

lemma keeps_truncateTo {newSize oldSize chunkSize : ℤ} :
    Body.Keeps d.SameNames (Blobs.truncateTo i newSize oldSize chunkSize) := by
  refine .ite (.pure _) (.ite (.bind (.ask _) fun _ => .bind (.ask _) fun _ =>
    .bind (.ask _) fun _ => .bind (keeps_update fun _ => ⟨rfl, rfl⟩) fun _ =>
    .ite (keeps_update fun _ => ⟨rfl, rfl⟩) (.bind (.ask _) fun row => ?_)) (.pure _))
  cases row with
  | none => exact .pure _
  | some data => exact keeps_update fun _ => ⟨rfl, rfl⟩

lemma keeps_xattrsSet {name : Str} {value : Bytes} {flags : ℤ} :
    Body.Keeps d.SameNames (Xattrs.set i name value flags) :=
  .bind (.ask _) fun _ => .ite (keeps_update fun _ => ⟨rfl, rfl⟩) (keeps_execute insertXattr_names)

lemma keeps_xattrsRemove {name : Str} : Body.Keeps d.SameNames (Xattrs.remove i name) :=
  .bind (.ask _) fun _ => .bind (keeps_update fun _ => ⟨rfl, rfl⟩) fun _ => .ask _

end Quiet

namespace Filesystem

variable {α β : Type} {s : Filesystem} {env : Env} {path src dst name : Str} {fd i : ℕ}

@[simp] lemma emit_core (event : Event) (s : Filesystem) : (emit event s).state.core = s.core := rfl

lemma bind_quiet {b : Sql β} {f : β → Action α} (hb : Body.Keeps s.conn.SameNames b)
    (hf : ∀ a s', (f a s').state.core = s'.core) : DoesPlain s (withConn b >>= f) := by
  refine bind_withConn fun a d hd => ⟨_, rfl, ?_⟩
  rw [hf]
  exact .quiet (hb s.conn a d .refl hd) .same

/-! ### Operations that only read -/

lemma readdir_does : DoesPlain s (readdir path) :=
  bind_resolvePath fun _ _ => bind_getNode fun _ _ => bind_require fun _ =>
    bind_requireAccessTo fun _ => does_query

lemma stat_does {follow : Bool} : DoesPlain s (stat path follow) :=
  bind_resolvePath fun _ _ => bind_getNode fun _ _ => does_pure _

/-- A reading leaves the state to what comes after it. -/
lemma ask_bind_state {q : Filesystem → Res β} {f : β → Action α} (hf : ∀ b, (f b s).state = s) :
    ((ask q >>= f) s).state = s := by
  cases hq : q s with
  | error e => rw [ask_bind_error hq]
  | ok b => rw [ask_bind hq, hf]

lemma stat_state {follow : Bool} : (stat path follow s).state = s :=
  ask_bind_state fun _ => ask_bind_state fun _ => rfl

lemma exists_core : (exists_ path s).state.core = s.core := by
  have hstate : (exists_ path s).state = (stat path true s).state := by
    unfold exists_
    dsimp only
    split <;> rfl
  rw [hstate, stat_state]

lemma read_does {size offset : ℤ} : DoesPlain s (read fd size offset) :=
  bind_ask fun _ _ => bind_require fun _ => bind_getNode fun _ _ => does_query

lemma readlink_does : DoesPlain s (readlink path) :=
  bind_resolvePath fun _ _ => bind_getNode fun _ _ => bind_require fun _ => does_query

lemma getxattr_does : DoesPlain s (getxattr path name) :=
  bind_resolvePath fun _ _ => bind_getNode fun _ _ => bind_requireAccessTo fun _ => does_query

lemma listxattr_does : DoesPlain s (listxattr path) := bind_resolvePath fun _ _ => does_query

lemma posixGetlk_does {start length : ℤ} : DoesPlain s (posixGetlk env fd start length) :=
  bind_ask fun _ _ => does_query

lemma ofdGetlk_does {start length : ℤ} : DoesPlain s (ofdGetlk fd start length) :=
  bind_ask fun _ _ => does_query

/-! ### Operations on locks and watchers -/

/-- Work on what is neither database, descriptors nor cache. -/
lemma does_volatile {g : Filesystem → Res α × Filesystem} (hg : (g s).2.core = s.core) :
    DoesPlain s (Prog.volatile g : Action α) :=
  .of_run ⟨_, rfl, hg ▸ effect_refl s⟩

lemma posixLock_does {op : LockOp} {start length : ℤ} :
    DoesPlain s (posixLock env fd op start length) :=
  bind_ask fun _ _ => does_volatile rfl

lemma ofdLock_does {op : LockOp} {start length : ℤ} : DoesPlain s (ofdLock fd op start length) :=
  bind_ask fun _ _ => does_volatile rfl

lemma flock_does {op : LockOp} : DoesPlain s (flock fd op) :=
  bind_ask fun _ _ => does_volatile rfl

lemma watch_does {recursive : Bool} : DoesPlain s (watch path recursive) :=
  bind_resolvePath fun _ _ => bind_getNode fun _ _ => bind_require fun _ =>
    bind_ask fun _ _ => does_volatile rfl

lemma closeWatcher_does : DoesPlain s (closeWatcher i) := does_volatile rfl

lemma nextEvent_does : DoesPlain s (nextEvent i) := by
  refine does_volatile ?_
  split <;> rfl

/-! ### Operations on attributes -/

lemma keeps_updateModeUidGid {d : Db} {mode uid gid : Option ℤ} {now : ℤ} :
    Body.Keeps d.SameNames (Nodes.updateModeUidGid i mode uid gid now) :=
  keeps_of_adjust fun _ _ _ => Nodes.updateModeUidGid_ok

lemma chmod_does {mode : ℤ} {follow : Bool} : DoesPlain s (chmod env path mode follow) :=
  bind_requireWritable fun _ => bind_resolvePath fun _ _ => bind_getNode fun _ _ =>
    bind_ask fun _ _ => bind_quiet keeps_updateModeUidGid fun _ _ => rfl

lemma chown_does {uid gid : ℤ} {follow : Bool} : DoesPlain s (chown env path uid gid follow) :=
  bind_requireWritable fun _ => bind_resolvePath fun _ _ => bind_getNode fun _ _ =>
    bind_ask fun _ _ => bind_quiet keeps_updateModeUidGid fun _ _ => rfl

lemma utimes_does {atimeNs mtimeNs : Option ℤ} {follow : Bool} :
    DoesPlain s (utimes env path atimeNs mtimeNs follow) :=
  bind_requireWritable fun _ => bind_resolvePath fun _ _ => bind_getNode fun _ _ =>
    bind_ask fun _ _ =>
    bind_quiet (keeps_of_adjust fun _ _ _ => Nodes.updateTimes_ok) fun _ _ => rfl

lemma setxattr_does {value : Bytes} {flags : ℤ} : DoesPlain s (setxattr env path name value flags) := by
  apply bind_requireWritable
  intro _
  apply bind_ask
  intro _ _
  apply bind_ask
  intro _ _
  exact bind_resolvePath fun _ _ => bind_getNode fun _ _ => bind_requireAccessTo fun _ =>
    bind_quiet keeps_xattrsSet fun _ _ => rfl

lemma removexattr_does : DoesPlain s (removexattr env path name) :=
  bind_requireWritable fun _ => bind_resolvePath fun _ _ => bind_getNode fun _ _ =>
    bind_requireAccessTo fun _ => bind_quiet keeps_xattrsRemove fun _ _ => rfl

/-! ### Operations on contents -/

/-- Looking up the path of an inode may put it into the cache. -/
lemma pathLoop_leads {d : Db} {fuel : ℕ} {p : Str} : ∀ {cur : ℕ} {parts : List Str},
    pathLoop d fuel cur parts = .ok (some p) →
      ∃ l, d.skeleton.Leads ROOT_INODE l cur ∧ p = joinPath (l ++ parts) := by
  induction fuel with
  | zero => exact fun h => nomatch h
  | succ fuel ih =>
    intro cur parts h
    rw [pathLoop] at h
    split_ifs at h with hroot
    · exact ⟨[], hroot.symm, (Option.some.inj (Except.ok.inj h)).symm⟩
    · cases hrow : Entries.ofInode d cur with
      | none =>
        rw [hrow] at h
        cases h
      | some row =>
        rw [hrow] at h
        obtain ⟨hmem, rfl⟩ := SqliteFs.Db.ofInode_eq_some (d := d.skeleton) hrow
        obtain ⟨l, hl, rfl⟩ := ih h
        refine ⟨l ++ [row.name], hl.concat hmem, ?_⟩
        rw [List.append_assoc, List.singleton_append]

lemma uncachedPath_leads {d : Db} {p : Str} (h : uncachedPath d i = .ok (some p)) :
    ∃ l, d.skeleton.Leads ROOT_INODE l i ∧ p = joinPath l := by
  obtain ⟨l, hl, rfl⟩ := pathLoop_leads h
  exact ⟨l, hl, by rw [List.append_nil]⟩

lemma pathOfInode_fills (i : ℕ) (s : Filesystem) : ∃ c,
    Fills s.conn.skeleton s.pathCache c ∧ (pathOfInode i s).state = { s with pathCache := c } := by
  have hsame : ∃ c, Fills s.conn.skeleton s.pathCache c ∧ s = { s with pathCache := c } :=
    ⟨_, .same, rfl⟩
  unfold pathOfInode
  split_ifs with hroot
  · exact hsame
  · rw [ask_bind (b := (s.pathCache.find? i).map CachedPath.path) rfl]
    cases (s.pathCache.find? i).map CachedPath.path with
    | some path => exact hsame
    | none =>
      dsimp only
      cases hp : uncachedPath s.conn i with
      | error e =>
        rw [ask_bind_error hp]
        exact hsame
      | ok o =>
        rw [ask_bind hp]
        cases o with
        | none => exact hsame
        | some path =>
          obtain ⟨l, hl, rfl⟩ := uncachedPath_leads hp
          exact ⟨_, .filled hl, rfl⟩

lemma emitModify_fills (env : Env) (i : ℕ) (s : Filesystem) : ∃ c,
    Fills s.conn.skeleton s.pathCache c ∧
      (emitModify env i s).state.core = { s.core with cache := c } := by
  obtain ⟨c, hc, hstate⟩ := pathOfInode_fills i s
  refine ⟨c, hc, ?_⟩
  unfold emitModify
  cases hr : pathOfInode i s with
  | mk r s' l =>
    rw [hr] at hstate
    obtain rfl := hstate
    cases r with
    | error e =>
      rw [Prog.bind_apply_error hr]
      rfl
    | ok o =>
      rw [Prog.bind_apply_ok hr]
      cases o <;> rfl

lemma bind_pure_state {p : Action β} {g : β → α} :
    ((p >>= fun b => pure (g b)) s).state = (p s).state := by
  cases hp : p s with
  | mk r s' l =>
    cases r with
    | error e => rw [Prog.bind_apply_error hp]
    | ok b => rw [Prog.bind_apply_ok hp]; rfl

lemma keeps_writeBody {d : Db} {data : Bytes} {offset size chunkSize : ℤ} :
    Body.Keeps d.SameNames (writeBody env i data offset size chunkSize) :=
  .bind keeps_writeRange fun _ => keeps_updateSize

lemma keeps_truncateBody {d : Db} {size oldSize chunkSize : ℤ} :
    Body.Keeps d.SameNames (truncateBody env i size oldSize chunkSize) :=
  .bind keeps_truncateTo fun _ => keeps_updateSize

lemma keeps_emptyFile {d : Db} {size chunkSize : ℤ} :
    Body.Keeps d.SameNames (emptyFile env i size chunkSize) :=
  .bind keeps_truncateTo fun _ => keeps_updateSize

/-- A change of contents, with the event for the inode's path after it. -/
lemma bind_modify {b : Sql β} {f : β → Action α} (hb : Body.Keeps s.conn.SameNames b)
    (hf : ∀ a s', (f a s').state = (emitModify env i s').state) :
    DoesPlain s (withConn b >>= f) := by
  refine bind_withConn fun a d hd => ⟨_, rfl, ?_⟩
  obtain ⟨c, hc, hcore⟩ := emitModify_fills env i { s with conn := d }
  rw [hf, hcore]
  exact .quiet (hb s.conn a d .refl hd) hc

lemma write_does {data : Bytes} {offset : ℤ} : DoesPlain s (write env fd data offset) :=
  bind_requireWritable fun _ => bind_ask fun _ _ => bind_require fun _ =>
    bind_getNode fun _ _ => bind_ask fun _ _ =>
    bind_modify keeps_writeBody fun _ _ => bind_pure_state

lemma truncateFd_does {size : ℤ} : DoesPlain s (truncateFd env fd size) :=
  bind_requireWritable fun _ => bind_ask fun _ _ => bind_getNode fun _ _ =>
    bind_ask fun _ _ => bind_modify keeps_truncateBody fun _ _ => rfl

lemma truncate_does {size : ℤ} : DoesPlain s (truncate env path size) :=
  bind_requireWritable fun _ => bind_resolvePath fun _ _ => bind_getNode fun _ _ =>
    bind_require fun _ => bind_ask fun _ _ => bind_quiet keeps_truncateBody fun _ _ => rfl

/-! ### Opening and closing -/

lemma openFd_core (flags : ℤ) (s : Filesystem) : (openFd i flags s).state.core =
    { s.core with fds := (s.fdTable.open_ i flags s.uid s.gid).2 } := by
  rfl

lemma openExisting_does {flags : ℤ} : DoesPlain s (openExisting env path flags i) := by
  refine bind_require fun _ => bind_getNode fun row _ => bind_require fun _ =>
    bind_requireAccessTo fun _ => ?_
  split_ifs
  · refine bind_requireWritable fun _ => bind_ask fun _ _ =>
      bind_withConn fun a d hd => ⟨_, rfl, ?_⟩
    rw [openFd_core]
    exact .opens (keeps_emptyFile s.conn a d .refl hd)
  · refine .of_run ⟨_, rfl, ?_⟩
    rw [openFd_core]
    exact .opens .refl

lemma openNew_does {flags mode : ℤ} : DoesPlain s (openNew env path flags mode) := by
  apply bind_require
  intro _
  apply bind_requireWritable
  intro _
  refine bind_resolveParent fun p m hp => ?_
  dsimp only
  refine bind_ask fun _ _ => bind_withConn fun j d hd => ⟨_, rfl, ?_⟩
  have hparent := resolveParentAs_ok hp
  obtain ⟨j', d₁, hnode, h₁⟩ := Body.bind_eq_ok.mp hd
  obtain ⟨_, d₂, hentry, h₂⟩ := Body.bind_eq_ok.mp h₁
  obtain ⟨_, d₃, htouch, h₃⟩ := Body.bind_eq_ok.mp h₂
  obtain ⟨rfl, rfl⟩ := Body.pure_eq_ok.mp h₃
  have hadd := Nodes.insert_ok hnode
  have hins := insertNew_ok hentry
  have hattach : s.conn.skeleton.Attaches d.skeleton .file ⟨p, m, j⟩ :=
    ⟨hparent.placed, d₁.skeleton, d₂.skeleton, hadd, hins, touch_ok htouch⟩
  -- the row that `open` reads back is there
  have hget : ∃ row, Nodes.get d j = .ok row := by
    have hkind : d.skeleton.kind j = some .file := by
      rw [(touch_ok htouch).kind, SqliteFs.Db.kind, SqliteFs.Db.info_insertEntry hins, hadd.info,
        if_pos rfl]
      rfl
    obtain ⟨row, hrow, -⟩ := Nodes.get_of_kind hkind
    exact ⟨row, hrow⟩
  obtain ⟨row, hrow⟩ := hget
  have hstate : ((emit ⟨.create, path, none, none, .file, j, env.now⟩ >>= fun _ =>
      getNode j >>= fun _ => openFd j flags) { s with conn := d }).state.core =
      { s.core with
        names := d.skeleton
        fds := (s.fdTable.open_ j flags s.uid s.gid).2 } := by
    rw [emit, Prog.volatile_bind_ok (a := ⟨⟩) rfl, getNode, ask_bind hrow, openFd_core]
    rfl
  rw [hstate]
  exact .creates (s := s.core) (e := ⟨p, m, j⟩) hparent.rootDir hparent.validName hattach

lemma open_does {flags mode : ℤ} : DoesPlain s (open_ env path flags mode) := by
  refine bind_ask fun target _ => ?_
  cases target with
  | some i => exact openExisting_does
  | none => exact openNew_does

/-- `close_fd` takes the descriptor away, and perhaps its node. -/
lemma closeFd_does : Does s (· = .closes fd) (closeFd env fd) := by
  refine bind_ask fun f hf => .of_run ⟨_, rfl, ?_⟩
  have hfind : s.core.fds.entries.find? fd = some f := rowOr_eq_ok.mp hf
  rw [Prog.volatile_bind_ok (a := ⟨⟩) rfl, Prog.volatile_bind_ok (a := ⟨⟩) rfl,
    ask_bind (b := (s.readonly, (s.fdTable.close fd).openCount f.inode)) rfl]
  dsimp only
  split_ifs with hkeep
  · exact .closes hfind (Or.inl rfl)
  · have hro : s.readonly = false := Bool.eq_false_of_not_eq_true (not_or.mp hkeep).1
    rw [ask_bind (b := s.conn.nodes.find? f.inode) rfl]
    cases hnode : s.conn.nodes.find? f.inode with
    | none => exact .closes hfind (Or.inl rfl)
    | some node =>
      dsimp only
      split_ifs with hlinks
      · unfold withConn Prog.transaction
        dsimp only [Durable.disk]
        cases hgc : maybeGc f.inode ((s.fdTable.close fd).openCount f.inode) s.conn with
        | error e => exact .closes hfind (Or.inl rfl)
        | ok r =>
          obtain ⟨u, d⟩ := r
          rcases maybeGc_ok hgc with rfl | ⟨hzero, hopen, hrem⟩
          · exact .closes hfind (Or.inl rfl)
          · exact .closes hfind (Or.inr ⟨hro, hopen, hzero, hrem⟩)
      · exact .closes hfind (Or.inl rfl)

/-! ### Directories and links -/

lemma mkdir_does {mode : ℤ} : DoesPlain s (mkdir env path mode) := by
  apply bind_requireWritable
  intro _
  refine bind_resolveParent fun p m hp => ?_
  dsimp only
  refine bind_requireAbsent fun _ => bind_ask fun _ _ => bind_withConn fun j d hd => ⟨_, rfl, ?_⟩
  have hparent := resolveParentAs_ok hp
  obtain ⟨j', d₁, hnode, h₁⟩ := Body.bind_eq_ok.mp hd
  obtain ⟨_, d₂, hentry, h₂⟩ := Body.bind_eq_ok.mp h₁
  obtain ⟨_, d₃, hlinks, h₃⟩ := Body.bind_eq_ok.mp h₂
  obtain ⟨_, d₄, htouch, h₄⟩ := Body.bind_eq_ok.mp h₃
  obtain ⟨rfl, rfl⟩ := Body.pure_eq_ok.mp h₄
  refine .attaches (s := s.core) (e := ⟨p, m, j⟩) hparent.rootDir hparent.validName
    ⟨hparent.placed, d₁.skeleton, d₂.skeleton, Nodes.insert_ok hnode, Entries.insert_ok hentry, ?_⟩
  exact ((Nodes.changeNlink_ok hlinks).1.trans (touch_ok htouch)).congr (add_zero _)

lemma symlink_does {target : Bytes} : DoesPlain s (symlink env target path) := by
  apply bind_requireWritable
  intro _
  refine bind_resolveParent fun p m hp => ?_
  dsimp only
  refine bind_requireAbsent fun _ => bind_ask fun _ _ => bind_withConn fun j d hd => ⟨_, rfl, ?_⟩
  have hparent := resolveParentAs_ok hp
  obtain ⟨j', d₁, hnode, h₁⟩ := Body.bind_eq_ok.mp hd
  obtain ⟨_, d₂, hentry, h₂⟩ := Body.bind_eq_ok.mp h₁
  obtain ⟨_, d₃, htarget, h₃⟩ := Body.bind_eq_ok.mp h₂
  obtain ⟨_, d₄, htouch, h₄⟩ := Body.bind_eq_ok.mp h₃
  obtain ⟨rfl, rfl⟩ := Body.pure_eq_ok.mp h₄
  have hadj := touch_ok htouch
  rw [Symlinks.insert_ok htarget] at hadj
  exact .attaches (s := s.core) (e := ⟨p, m, j⟩) hparent.rootDir hparent.validName
    ⟨hparent.placed, d₁.skeleton, d₂.skeleton, Nodes.insert_ok hnode, Entries.insert_ok hentry, hadj⟩

lemma link_does : DoesPlain s (link env src dst) := by
  apply bind_requireWritable
  intro _
  refine bind_resolvePath fun i hi => bind_getNode fun row hrow =>
    bind_require fun hkind => bind_resolveParent fun p m hp => ?_
  dsimp only
  refine bind_requireAbsent fun _ => bind_withConn fun _ d hd => ⟨_, rfl, ?_⟩
  have hparent := resolveParentAs_ok hp
  obtain ⟨_, d₁, hentry, h₁⟩ := Body.bind_eq_ok.mp hd
  obtain ⟨_, d₂, hlinks, htouch⟩ := Body.bind_eq_ok.mp h₁
  refine .links (s := s.core) (e := ⟨p, m, i⟩) hparent.rootDir hparent.validName
    ⟨hparent.placed, (resolvePathAs_named hi).1, ⟨_, Nodes.kind_of_get hrow, hkind⟩, d₁.skeleton,
      Entries.insert_ok hentry, ?_⟩
  exact ((Nodes.changeNlink_ok hlinks).1.trans (touch_ok htouch)).congr (add_zero _)

lemma empty_of_count {d : Db} (h : ¬ 0 < Entries.count d i) : ∀ x ∈ d.entries, x.parent ≠ i := by
  have hzero : d.entries.count (fun e => e.parent = i) = 0 := Nat.eq_zero_of_not_pos h
  intro x hx
  exact of_decide_eq_false (KeyTable.count_eq_zero.mp hzero x hx)

lemma uncache_emit_core (event : Event) (s : Filesystem) :
    ((uncache i >>= fun _ => emit event) s).state.core =
      { s.core with cache := without s.pathCache i } := by
  rfl

lemma rmdir_does : DoesPlain s (rmdir env path) := by
  apply bind_requireWritable
  intro _
  apply bind_require
  intro _
  refine bind_resolveParent fun p m _ => ?_
  dsimp only
  refine bind_getEntry fun e he hp hm => bind_getNode fun row hrow => bind_require fun hkind => ?_
  refine bind_ask fun _ hcount => ?_
  refine bind_withConn fun _ d hd => ⟨_, rfl, ?_⟩
  have hempty := empty_of_count (check_eq_ok.mp hcount)
  have hdir : s.conn.skeleton.kind e.inode = some .dir := hkind ▸ Nodes.kind_of_get hrow
  subst hp hm
  obtain ⟨_, d₁, hdelete, h₁⟩ := Body.bind_eq_ok.mp hd
  obtain ⟨_, d₂, hnode, h₂⟩ := Body.bind_eq_ok.mp h₁
  obtain ⟨_, d₃, hlinks, htouch⟩ := Body.bind_eq_ok.mp h₂
  have hrem : (s.conn.skeleton.deleteEntry e.parent e.name).RemovesNode d₂.skeleton e.inode := by
    have hsome : d₁.hasNode e.inode = true := by
      rw [← Db.hasNode_skeleton, Entries.delete_ok hdelete]
      exact SqliteFs.Db.hasNode_of_kind hdir
    exact Entries.delete_ok hdelete ▸ Nodes.delete_ok hsome hnode
  have hadj := ((Nodes.changeNlink_ok hlinks).1.trans (touch_ok htouch)).congr (add_zero _)
  obtain ⟨d', hadj', hrem'⟩ := hrem.adjust_comm hadj
  have hgoes : s.conn.skeleton.RemovesDir d.skeleton e := ⟨he, hdir, hempty, d', hadj', hrem'⟩
  rw [uncache_emit_core]
  exact .removesDir (s := s.core) hgoes

/-- A name of a node goes in the transaction of `unlink` or `rename`. -/
lemma losesName_of_body {d d₁ d₂ d₃ d' : Db} {e : EntryRow} {u u' : PUnit} {n m : ℤ} {c : ℕ}
    (he : e ∈ d.entries) (hkind : ∃ k, d.skeleton.kind e.inode = some k ∧ k ≠ .dir)
    (hdelete : Entries.delete e.parent e.name d = .ok (u, d₁))
    (hlinks : Nodes.changeNlink e.inode (-1) m d₁ = .ok (n, d₂))
    (hadj : d₂.skeleton.Adjust d₃.skeleton 0)
    (hgc : maybeGc e.inode c d₃ = .ok (u', d')) : LosesName d.skeleton d'.skeleton e := by
  have hadj' := ((Nodes.changeNlink_ok hlinks).1.trans hadj).congr (add_zero _)
  rw [Entries.delete_ok hdelete] at hadj'
  obtain ⟨k, hk, hne⟩ := hkind
  obtain ⟨info, hinfo, -⟩ := SqliteFs.Db.exists_info_of_kind hk
  refine ⟨_, d₃.skeleton, ⟨he, ⟨k, hk, hne⟩, hadj', info, hinfo, rfl⟩, ?_⟩
  rcases maybeGc_ok hgc with rfl | ⟨-, -, hrem⟩
  · exact Or.inl rfl
  · exact Or.inr hrem

lemma unlink_does : DoesPlain s (unlink env path) := by
  apply bind_requireWritable
  intro _
  refine bind_resolveParent fun p m _ => ?_
  dsimp only
  refine bind_getEntry fun e he hp hm => bind_getNode fun row hrow => bind_require fun hkind =>
    bind_ask fun _ _ => bind_withConn fun _ d hd => ⟨_, rfl, ?_⟩
  subst hp hm
  obtain ⟨_, d₁, hdelete, h₁⟩ := Body.bind_eq_ok.mp hd
  obtain ⟨_, d₂, hlinks, h₂⟩ := Body.bind_eq_ok.mp h₁
  obtain ⟨_, d₃, htouch, hgc⟩ := Body.bind_eq_ok.mp h₂
  rw [uncache_emit_core]
  exact .unlinks (s := s.core) (losesName_of_body he ⟨_, Nodes.kind_of_get hrow, hkind⟩ hdelete
    hlinks (touch_ok htouch) hgc)

end Filesystem

end Python

end SqliteFs
