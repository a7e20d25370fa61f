import SqliteFs.Filesystem.TreeInvariant
import SqliteFs.Filesystem.WritePermission
import SqliteFs.Lib.Scripts

/-!
# The scripts of the operations

What every operation does to the database where it succeeds, statement by statement. Only the chunks
that `write_fd` and `open` work on are left open.
-/

namespace SqliteFs

open Txn

/-- The statements, one after the other, lead from `d` to `d'`. -/
abbrev Db.Runs (d : Db) (l : List Statement) (d' : Db) : Prop :=
  Steps (fun st d d' => Statement.Does d d' st) l d d'

lemma runs_congr {l : List Statement} {d d' d'' : Db} (h : d.Runs l d') (heq : d'' = d') :
    d.Runs l d'' := by
  rw [heq]
  exact h

namespace Filesystem

/-- The directory `p` has changed. -/
def touch (now : ℤ) (p : ℕ) : Statement := .updateTimes p none (some now) (some now)

/-- The node `i` has changed, but not its contents. -/
def mark (now : ℤ) (i : ℕ) : Statement := .updateTimes i none none (some now)

/-- No entry is in the directory `i`. -/
def Childless (d : Db) (i : ℕ) : Prop := ∀ x ∈ d.entries, x.parent ≠ i

/-- The entry `e` becomes `(q, m)`. -/
def moveScript (now : ℤ) (isDir : Prop) [Decidable isDir] (e : EntryRow) (q : ℕ) (m : Str) :
    List Statement :=
  [.moveEntry e.parent e.name q m] ++
    (if isDir ∧ e.parent ≠ q then [.changeNlink e.parent (-1) now, .changeNlink q 1 now] else []) ++
    [touch now e.parent] ++ (if e.parent ≠ q then [touch now q] else []) ++ [mark now e.inode]

/-- The entry `t` makes room for one from the directory `p`. -/
def evictScript (now : ℤ) (isDir : Prop) [Decidable isDir] (p : ℕ) (t : EntryRow)
    (del : List Statement) : List Statement :=
  [.deleteEntry t.parent t.name, .changeNlink t.inode (-1) now] ++
    (if isDir ∧ p ≠ t.parent then [.changeNlink t.parent (-1) now] else []) ++ del

/-- The row of a node that is new at the time `now`. -/
structure NewRow (d : Db) (now : ℤ) (row : NodesRow) : Prop where
  inode : row.inode = d.nextInode
  mtime : row.mtimeNs = now
  ctime : row.ctimeNs = now

/-- The statements that an operation issues, where it succeeds. -/
inductive Op.Script (d : Db) (tab : FdTable) (now : ℤ) : Op → List Statement → Prop
  | nothing {op : Op} : Script d tab now op []
  | mkdir {path : Str} {mode : UInt32} {row : NodesRow} {p : ℕ} {n : Str} :
      resolveParentAndName d path = .ok (p, n) → NewRow d now row →
      Script d tab now (.mkdir path mode) [.insertNode row, .insertEntry ⟨p, n, row.inode⟩,
        .changeNlink p 1 now, touch now p]
  | rmdir {path : Str} {e : EntryRow} : resolveParentAndName d path = .ok (e.parent, e.name) →
      e ∈ d.entries → Childless d e.inode →
      Script d tab now (.rmdir path) [.deleteEntry e.parent e.name, .changeNlink e.parent (-1) now,
        touch now e.parent, .deleteNode e.inode]
  | create {path : Str} {flags : Flags} {mode : UInt32} {row : NodesRow} {p : ℕ} {n : Str} :
      resolveParentAndName d path = .ok (p, n) → NewRow d now row →
      Script d tab now (.create path flags mode) [.insertNode row, .insertEntry ⟨p, n, row.inode⟩,
        touch now p]
  | open_ {path : Str} {flags : Flags} {i : ℕ} {cuts : List Statement} :
      resolveToInode d path = .ok i →
      (∀ st ∈ cuts, (∃ p, st = .deleteBlobs i p) ∨ ∃ c data, st = .updateBlob i c data) →
      Script d tab now (.open_ path flags) (cuts ++ [.updateSize i 0 now now])
  | writeFd {fd offset size : ℕ} {data : Bytes} {f : FdEntry} {puts : List Statement} :
      tab.entries.find? fd = some f →
      (∀ st ∈ puts, ∃ c data, st = .putBlob f.inode c data) →
      Script d tab now (.writeFd fd offset data) (puts ++ [.updateSize f.inode size now now])
  | closeFd {fd : ℕ} {f : FdEntry} : tab.entries.find? fd = some f → Childless d f.inode →
      Script d tab now (.closeFd fd) [.deleteNode f.inode]
  | unlink {path : Str} {e : EntryRow} {del : List Statement} :
      resolveParentAndName d path = .ok (e.parent, e.name) → e ∈ d.entries →
      Childless d e.inode → (∀ st ∈ del, st = .deleteNode e.inode) →
      Script d tab now (.unlink path) ([.deleteEntry e.parent e.name, .changeNlink e.inode (-1) now,
        touch now e.parent] ++ del)
  | symlink {target : Bytes} {path : Str} {row : NodesRow} {p : ℕ} {n : Str} :
      resolveParentAndName d path = .ok (p, n) → NewRow d now row →
      Script d tab now (.symlink target path) [.insertNode row, .insertEntry ⟨p, n, row.inode⟩,
        .insertSymlink ⟨row.inode, target⟩, touch now p]
  | link {target linkPath : Str} {i p : ℕ} {n : Str} : resolveToInode d target = .ok i →
      resolveParentAndName d linkPath = .ok (p, n) →
      Script d tab now (.link target linkPath) [.insertEntry ⟨p, n, i⟩, .changeNlink i 1 now, touch now p]
  | moves {src dst : Str} {e : EntryRow} {q : ℕ} {m : Str} {isDir : Prop} [Decidable isDir] :
      resolveParentAndName d src = .ok (e.parent, e.name) → e ∈ d.entries →
      resolveParentAndName d dst = .ok (q, m) →
      Script d tab now (.rename src dst) (moveScript now isDir e q m)
  | replaces {src dst : Str} {e t : EntryRow} {isDir isDir' : Prop} [Decidable isDir]
      [Decidable isDir'] {del : List Statement} :
      resolveParentAndName d src = .ok (e.parent, e.name) → e ∈ d.entries →
      resolveParentAndName d dst = .ok (t.parent, t.name) → t ∈ d.entries →
      Childless d t.inode → (∀ st ∈ del, st = .deleteNode t.inode) →
      Script d tab now (.rename src dst)
        (evictScript now isDir' e.parent t del ++ moveScript now isDir e t.parent t.name)
  | chmod {path : Str} {mode : UInt32} {i : ℕ} : resolveToInode d path = .ok i →
      Script d tab now (.chmod path mode) [.updateModeUidGid i (some (mode &&& 0o7777)) none none now]
  | chown {path : Str} {uid gid : Option UInt32} {i : ℕ} : resolveToInode d path = .ok i →
      Script d tab now (.chown path uid gid) [.updateModeUidGid i none uid gid now]
  | utimes {path : Str} {atimeNs mtimeNs : Option ℤ} {i : ℕ} :
      resolveToInode d path = .ok i →
      Script d tab now (.utimes path atimeNs mtimeNs) [.updateTimes i atimeNs mtimeNs (some now)]
  | setxattr {path name : Str} {value : Bytes} {flags : Xattrs.XattrFlags} {i : ℕ} {st : Statement} :
      resolveToInode d path = .ok i →
      st = .insertXattr ⟨i, name, value⟩ ∨ st = .updateXattr i name value →
      Script d tab now (.setxattr path name value flags) [st, mark now i]
  | removexattr {path name : Str} {i : ℕ} : resolveToInode d path = .ok i →
      Script d tab now (.removexattr path name) [.deleteXattr i name, mark now i]

/-- The outcome is that of a script of the operation. -/
def Follows {α : Type} (s : Filesystem) (clock : Clock) (operation : Op)
    (o : Outcome Filesystem Db Halt α) : Prop :=
  ∃ l, operation.Script s.conn s.fdtable clock.now l ∧ s.conn.Runs l o.state.conn

/-! ### Bodies -/

section Bodies
variable {d d' : Db}

lemma changeNlink_does {i n : ℕ} {delta now : ℤ}
    (h : Nodes.changeNlink i delta now d = .ok (n, d')) :
    (Statement.changeNlink i delta now).Does d d' := by
  obtain ⟨_, d₁, hupdate, hread⟩ := Body.bind_eq_ok.mp h
  rw [(Body.ask_eq_ok.mp hread).2]
  exact update_eq_ok.mp hupdate

lemma moveSource_runs {clock : Clock} {srcRow : NodeRow} {e : EntryRow} {q : ℕ} {m : Str}
    (h : moveSource clock srcRow e e.parent e.name q m d = .ok (⟨⟩, d')) :
    d.Runs (moveScript clock.now (srcRow.kind = .dir) e q m) d' := by
  obtain ⟨_, d₁, hmove, h⟩ := Body.bind_eq_ok.mp h
  obtain ⟨_, d₂, hcounts, h⟩ := Body.bind_eq_ok.mp h
  obtain ⟨_, d₃, htouch, h⟩ := Body.bind_eq_ok.mp h
  obtain ⟨_, d₄, htouch', hmark⟩ := Body.bind_eq_ok.mp h
  refine .append (.append (.append (.append (.single (Entries.rename_eq_ok.mp hmove)) ?_)
    (.single htouch)) ?_) (.single hmark)
  · split_ifs at hcounts ⊢ with hcross
    · obtain ⟨_, d₅, hdown, hup⟩ := Body.bind_eq_ok.mp hcounts
      exact .cons (changeNlink_does hdown) (.single (changeNlink_does hup))
    · obtain ⟨-, rfl⟩ := Body.pure_eq_ok.mp hcounts
      exact .nil
  · split_ifs at htouch' ⊢ with hcross
    · exact .single htouch'
    · obtain ⟨-, rfl⟩ := Body.pure_eq_ok.mp htouch'
      exact .nil

lemma overwriteTarget_runs {clock : Clock} {srcRow : NodeRow} {p : ℕ} {dst : Str} {t : EntryRow}
    (h : overwriteTarget clock srcRow p t.parent t.name dst t d = .ok (⟨⟩, d')) :
    ∃ dstRow del, Nodes.get d t.inode = .ok dstRow ∧
      (dstRow.kind = .dir → ∀ x ∈ d.entries, x.parent ≠ t.inode) ∧
      (∀ st ∈ del, st = .deleteNode t.inode) ∧
      d.Runs (evictScript clock.now (dstRow.kind = .dir) p t del) d' := by
  obtain ⟨dstRow, hrow, h⟩ := Body.ask_bind_eq_ok.mp h
  obtain ⟨_, hcheck, h⟩ := Body.ask_bind_eq_ok.mp h
  obtain ⟨_, d₁, hdelete, h⟩ := Body.bind_eq_ok.mp h
  obtain ⟨newNlink, d₂, hnlink, h⟩ := Body.bind_eq_ok.mp h
  obtain ⟨_, d₃, hparent, hnode⟩ := Body.bind_eq_ok.mp h
  have hempty : dstRow.kind = .dir → ∀ x ∈ d.entries, x.parent ≠ t.inode := by
    intro hdir x hx hpx
    split_ifs at hcheck with hboth hpos hsrc
    · cases hcheck
    · exact hpos (KeyTable.count_pos.mpr ⟨x, hx, decide_eq_true hpx⟩)
    · cases hcheck
    · cases hcheck
  obtain ⟨del, hdel, hgoes⟩ : ∃ del, (∀ st ∈ del, st = .deleteNode t.inode) ∧ d₃.Runs del d' := by
    split_ifs at hnode with hzero
    · exact ⟨[.deleteNode t.inode], fun _ hst => List.mem_singleton.mp hst,
        .single (stmt_eq_ok.mp hnode)⟩
    · obtain ⟨-, rfl⟩ := Body.pure_eq_ok.mp hnode
      exact ⟨[], fun _ hst => absurd hst List.not_mem_nil, .nil⟩
  refine ⟨dstRow, del, hrow, hempty, hdel, .append (.append (.cons (update_eq_ok.mp hdelete)
    (.single (changeNlink_does hnlink))) ?_) hgoes⟩
  split_ifs at hparent ⊢ with hcross
  · exact .single (changeNlink_does hparent)
  · obtain ⟨-, rfl⟩ := Body.pure_eq_ok.mp hparent
    exact .nil

end Bodies

/-! ### The operations -/

section Operations
variable (s : Filesystem) (clock : Clock)

lemma follows_of_conn {α : Type} {operation : Op} {o : Outcome Filesystem Db Halt α}
    (h : o.state.conn = s.conn) : Follows s clock operation o := by
  refine ⟨[], .nothing, ?_⟩
  rw [h]
  exact .nil

/-- The collector deletes the node or does nothing. -/
lemma collect_conn (n i : ℕ) : (collect n i s).state.conn = s.conn ∨
    s.conn.deleteNode i = .ok (collect n i s).state.conn := by
  by_cases hz : n = 0 ∧ s.fdtable.openCount i = 0
  · obtain ⟨hn, ho⟩ := hz
    by_cases hfails : s.connReadonly = true ∨ ∃ e, s.conn.deleteNode i = .error e
    · obtain ⟨e, he⟩ := collect_failed hn ho hfails
      rw [he]
      exact Or.inl rfl
    · obtain ⟨hw, hok⟩ := not_or.mp hfails
      cases hd : s.conn.deleteNode i with
      | error e => exact absurd ⟨e, hd⟩ hok
      | ok d =>
        rw [collect_removed (Bool.eq_false_of_not_eq_true hw) hn ho hd]
        exact Or.inr rfl
  · rw [collect_kept hz]
    exact Or.inl rfl

lemma mkdir_follows (path : Str) (mode : UInt32) :
    Prog.RefusesOr (mkdir clock path mode) s (Follows s clock (.mkdir path mode)) := by
  apply bind_requireWritable
  intro _
  apply Prog.RefusesOr.bind_query
  rintro ⟨parent, name⟩ hparent
  apply bind_getNode
  intro parentRow hrow
  apply bind_require
  intro hdir
  apply Prog.RefusesOr.bind_query
  intro _ _
  apply Prog.RefusesOr.bind_query
  rintro ⟨uid, gid⟩ _
  apply bind_tx_emit
  intro newIno d _ hd
  obtain ⟨i, d₁, hins, hd⟩ := Body.bind_eq_ok.mp hd
  obtain ⟨_, d₂, hent, hd⟩ := Body.bind_eq_ok.mp hd
  obtain ⟨_, d₃, hnlink, hd⟩ := Body.bind_eq_ok.mp hd
  obtain ⟨_, d₄, htimes, hd⟩ := Body.bind_eq_ok.mp hd
  obtain ⟨rfl, rfl⟩ := Body.pure_eq_ok.mp hd
  have hdoes := Nodes.insert_does hins
  refine ⟨_, .mkdir hparent ⟨hdoes.1, rfl, rfl⟩, .cons hdoes (.cons (Entries.insert_eq_ok.mp hent)
    (.cons (changeNlink_does hnlink) (.single htimes)))⟩

lemma rmdir_follows (path : Str) :
    Prog.RefusesOr (rmdir clock path) s (Follows s clock (.rmdir path)) := by
  apply bind_requireWritable
  intro _
  apply bind_require
  intro _
  apply Prog.RefusesOr.bind_query
  rintro ⟨parent, name⟩ hparent
  apply Prog.RefusesOr.bind_query
  intro entry hentry
  obtain ⟨hmem, rfl, rfl⟩ := Entries.get_eq_ok.mp hentry
  apply bind_getNode
  intro row _
  apply bind_require
  intro _
  apply Prog.RefusesOr.bind_query
  intro _ hcount
  apply bind_getNode
  intro parentRow _
  apply Prog.RefusesOr.bind_query
  intro _ _
  apply bind_tx_emit
  intro _ d _ hd
  obtain ⟨_, d₁, hdel, hd⟩ := Body.bind_eq_ok.mp hd
  obtain ⟨_, d₂, hnlink, hd⟩ := Body.bind_eq_ok.mp hd
  obtain ⟨_, d₃, htimes, hd⟩ := Body.bind_eq_ok.mp hd
  have hempty : Childless s.conn entry.inode := by
    intro x hx hpx
    split_ifs at hcount with hpos
    · cases hcount
    · exact hpos (KeyTable.count_pos.mpr ⟨x, hx, decide_eq_true hpx⟩)
  exact ⟨_, .rmdir hparent hmem hempty, .cons (update_eq_ok.mp hdel)
    (.cons (changeNlink_does hnlink) (.cons htimes (.single (stmt_eq_ok.mp hd))))⟩

lemma create_follows (path : Str) (flags : Flags) (mode : UInt32) :
    Prog.RefusesOr (create clock path flags mode) s (Follows s clock (.create path flags mode)) := by
  apply bind_requireWritable
  intro _
  apply Prog.RefusesOr.bind_query
  rintro ⟨parent, name⟩ hparent
  apply Prog.RefusesOr.bind_query
  intro existing hexisting
  cases hexisting
  cases he : Entries.get s.conn parent name with
  | ok existing =>
    apply bind_require
    intro _
    apply bind_getNode
    intro row _
    apply Prog.RefusesOr.bind_query
    intro _ _
    exact .of_run (follows_of_conn s clock rfl)
  | error _ =>
    apply bind_getNode
    intro parentRow hrow
    apply bind_require
    intro _
    apply Prog.RefusesOr.bind_query
    intro _ _
    apply Prog.RefusesOr.bind_query
    rintro ⟨uid, gid⟩ _
    apply bind_tx
    intro newIno d _ hd
    obtain ⟨i, d₁, hins, hd⟩ := Body.bind_eq_ok.mp hd
    obtain ⟨_, d₂, hent, hd⟩ := Body.bind_eq_ok.mp hd
    obtain ⟨_, d₃, htimes, hd⟩ := Body.bind_eq_ok.mp hd
    obtain ⟨rfl, rfl⟩ := Body.pure_eq_ok.mp hd
    have hdoes := Nodes.insert_does hins
    exact ⟨_, .create hparent ⟨hdoes.1, rfl, rfl⟩,
      .cons hdoes (.cons (Entries.insert_eq_ok.mp hent) (.single htimes))⟩

lemma open_follows (path : Str) (flags : Flags) :
    Prog.RefusesOr (open_ clock path flags) s (Follows s clock (.open_ path flags)) := by
  apply Prog.RefusesOr.bind_query
  intro ino hino
  apply bind_getNode
  intro row hrow
  apply bind_require
  intro _
  apply Prog.RefusesOr.bind_query
  intro _ _
  split_ifs with htrunc
  · exact .of_run (follows_of_conn s clock rfl)
  · apply bind_requireWritable
    intro _
    apply Prog.RefusesOr.bind_query
    intro chunkSize _
    apply bind_tx
    intro _ d _ hd
    obtain ⟨_, d₁, hcut, hd⟩ := Body.bind_eq_ok.mp hd
    obtain ⟨cuts, hcuts, hsteps⟩ := Steps.of_writes (Blobs.truncateTo_issues
      (A := fun st => (∃ p, st = .deleteBlobs ino p) ∨ ∃ c data, st = .updateBlob ino c data)
      (fun p => Or.inl ⟨p, rfl⟩) (fun c data => Or.inr ⟨c, data, rfl⟩) _ _ _ hcut)
    exact ⟨_, .open_ hino hcuts, hsteps.append (.single hd)⟩

lemma writeFd_follows (fd offset : ℕ) (data : Bytes) :
    Prog.RefusesOr (writeFd clock fd offset data) s (Follows s clock (.writeFd fd offset data)) := by
  refine writeFd_rule fun f row newSize d₁ d hf hwrite hsize => ?_
  obtain ⟨puts, hputs, hsteps⟩ := Steps.of_writes (Blobs.writeRange_issues
    (A := fun st => ∃ c data, st = .putBlob f.inode c data) (fun c data => ⟨c, data, rfl⟩) _ _ _ hwrite)
  have hruns : s.conn.Runs (puts ++ [.updateSize f.inode newSize clock.now clock.now]) d :=
    hsteps.append (.single hsize)
  exact ⟨fun _ _ => ⟨_, .writeFd hf hputs, hruns⟩, fun _ => ⟨_, .writeFd hf hputs, hruns⟩,
    fun _ _ => ⟨_, .writeFd hf hputs, hruns⟩⟩

lemma closeFd_follows (h : s.core.Rooted) (fd : ℕ) :
    Follows s clock (.closeFd fd) (closeFd fd s) := by
  cases hf : s.fdtable.entries.find? fd with
  | none =>
    rw [closeFd_unknown hf]
    exact follows_of_conn s clock rfl
  | some f =>
    rw [closeFd_open hf]
    cases hrow : Nodes.get s.conn f.inode with
    | error x =>
      have hrun : (getNode f.inode >>= fun row => collect row.nlink f.inode) (closed s f)
          = ⟨.error x, closed s f, []⟩ := Prog.query_bind_error hrow
      rw [hrun]
      exact follows_of_conn s clock rfl
    | ok row =>
      have hrun : (getNode f.inode >>= fun row => collect row.nlink f.inode) (closed s f)
          = collect row.nlink f.inode (closed s f) := getNode_bind hrow
      rw [hrun]
      rcases collect_conn (closed s f) row.nlink f.inode with hsame | hdel
      · exact follows_of_conn s clock hsame
      · obtain ⟨_, hm, -⟩ := Nodes.info_of_get hrow
        have hrem := Db.removesNode_of_deleteNode (d := s.conn) (Db.hasNode_iff.mpr ⟨_, hm⟩) hdel
        have hroot := h.rootClosed f (KeyTable.find?_eq_some.mp hf).1
        exact ⟨_, .closeFd hf (h.tree.parent_ne_of_unnamed hroot hrem.unnamed), .single hdel⟩

lemma childless_of_get {d : Db} (htree : d.Tree) {i : ℕ} {row : NodeRow}
    (hrow : Nodes.get d i = .ok row) (hfile : row.kind ≠ .dir) : Childless d i := by
  refine fun x hx => htree.parent_ne_of_notDir ?_ hx
  rw [Nodes.kind_of_get hrow, ne_eq, Option.some.injEq]
  exact hfile

lemma unlink_follows (htree : s.conn.Tree) (path : Str) :
    Prog.RefusesOr (unlink clock path) s (Follows s clock (.unlink path)) := by
  apply bind_requireWritable
  intro _
  apply Prog.RefusesOr.bind_query
  rintro ⟨parent, name⟩ hparent
  apply Prog.RefusesOr.bind_query
  intro e he
  obtain ⟨hmem, rfl, rfl⟩ := Entries.get_eq_ok.mp he
  apply bind_getNode
  intro row hrow
  apply bind_require
  intro hfile
  apply bind_getNode
  intro parentRow _
  apply Prog.RefusesOr.bind_query
  intro _ _
  apply bind_tx
  intro newNlink d _ hd
  obtain ⟨_, d₁, hdel, hd⟩ := Body.bind_eq_ok.mp hd
  obtain ⟨n, d₂, hnlink, hd⟩ := Body.bind_eq_ok.mp hd
  obtain ⟨_, d₃, htimes, hd⟩ := Body.bind_eq_ok.mp hd
  obtain ⟨rfl, rfl⟩ := Body.pure_eq_ok.mp hd
  have hruns : s.conn.Runs [.deleteEntry e.parent e.name, .changeNlink e.inode (-1) clock.now,
      touch clock.now e.parent] d :=
    .cons (update_eq_ok.mp hdel) (.cons (changeNlink_does hnlink) (.single htimes))
  have hleaf : Childless s.conn e.inode := childless_of_get htree hrow hfile
  rcases collect_conn { s with conn := d } newNlink e.inode with hsame | hgone
  · have hnone : ∀ st ∈ ([] : List Statement), st = .deleteNode e.inode := List.forall_mem_nil _
    refine ⟨_, .unlink hparent hmem hleaf hnone, ?_⟩
    exact runs_congr (hruns.append .nil) ((bind_conn fun _ _ => rfl).trans hsame)
  · refine ⟨_, .unlink hparent hmem hleaf fun _ hst => List.mem_singleton.mp hst, ?_⟩
    exact runs_congr (hruns.append (.single hgone)) (bind_conn fun _ _ => rfl)

lemma symlink_follows (target : Bytes) (path : Str) :
    Prog.RefusesOr (symlink clock target path) s (Follows s clock (.symlink target path)) := by
  apply bind_requireWritable
  intro _
  apply Prog.RefusesOr.bind_query
  rintro ⟨parent, name⟩ hparent
  apply bind_getNode
  intro parentRow hrow
  apply bind_require
  intro hdir
  apply Prog.RefusesOr.bind_query
  intro _ _
  apply Prog.RefusesOr.bind_query
  rintro ⟨uid, gid⟩ _
  apply bind_tx_emit
  intro newIno d _ hd
  obtain ⟨i, d₁, hins, hd⟩ := Body.bind_eq_ok.mp hd
  obtain ⟨_, d₂, hent, hd⟩ := Body.bind_eq_ok.mp hd
  obtain ⟨_, d₃, hsym, hd⟩ := Body.bind_eq_ok.mp hd
  obtain ⟨_, d₄, htimes, hd⟩ := Body.bind_eq_ok.mp hd
  obtain ⟨rfl, rfl⟩ := Body.pure_eq_ok.mp hd
  have hdoes := Nodes.insert_does hins
  exact ⟨_, .symlink hparent ⟨hdoes.1, rfl, rfl⟩, .cons hdoes (.cons (Entries.insert_eq_ok.mp hent)
    (.cons (stmt_eq_ok.mp hsym) (.single htimes)))⟩

lemma link_follows (target linkPath : Str) :
    Prog.RefusesOr (link clock target linkPath) s (Follows s clock (.link target linkPath)) := by
  apply bind_requireWritable
  intro _
  apply Prog.RefusesOr.bind_query
  intro ino hino
  apply bind_getNode
  intro targetRow _
  apply bind_require
  intro _
  apply Prog.RefusesOr.bind_query
  rintro ⟨parent, name⟩ hparent
  apply bind_getNode
  intro parentRow _
  apply bind_require
  intro _
  apply Prog.RefusesOr.bind_query
  intro _ _
  apply bind_tx_emit
  intro _ d _ hd
  obtain ⟨_, d₁, hent, hd⟩ := Body.bind_eq_ok.mp hd
  obtain ⟨_, d₂, hnlink, htimes⟩ := Body.bind_eq_ok.mp hd
  exact ⟨_, .link hino hparent, .cons (Entries.insert_eq_ok.mp hent)
    (.cons (changeNlink_does hnlink) (.single htimes))⟩

lemma rename_follows (htree : s.conn.Tree) (src dst : Str) :
    Prog.RefusesOr (rename clock src dst) s (Follows s clock (.rename src dst)) := by
  apply bind_requireWritable
  intro _
  split_ifs with hne
  · exact .of_run (follows_of_conn s clock rfl)
  apply Prog.RefusesOr.bind_query
  rintro ⟨srcParent, srcName⟩ hsource
  apply Prog.RefusesOr.bind_query
  intro e he
  obtain ⟨hmem, rfl, rfl⟩ := Entries.get_eq_ok.mp he
  apply bind_getNode
  intro srcRow _
  apply Prog.RefusesOr.bind_query
  rintro ⟨q, m⟩ hparent
  apply bind_getNode
  intro dstParentRow _
  apply bind_require
  intro _
  apply bind_getNode
  intro srcParentRow _
  apply Prog.RefusesOr.bind_query
  intro _ _
  apply Prog.RefusesOr.bind_query
  intro _ _
  apply Prog.RefusesOr.bind_query
  intro _ _
  apply Prog.RefusesOr.bind_query
  intro existing hexisting
  cases hexisting
  apply bind_tx
  intro moved d _ hd
  cases ht : Entries.get s.conn q m with
  | error _ =>
    rw [ht] at hd
    obtain ⟨_, d₁, hmove, hd⟩ := Body.bind_eq_ok.mp hd
    obtain ⟨rfl, rfl⟩ := Body.pure_eq_ok.mp hd
    exact ⟨_, .moves hsource hmem hparent, moveSource_runs hmove⟩
  | ok t =>
    obtain ⟨htmem, rfl, rfl⟩ := Entries.get_eq_ok.mp ht
    rw [ht] at hd
    dsimp only at hd
    split_ifs at hd with hsame
    · obtain ⟨rfl, rfl⟩ := Body.pure_eq_ok.mp hd
      exact follows_of_conn s clock rfl
    · obtain ⟨_, d₁, hevict, hd⟩ := Body.bind_eq_ok.mp hd
      obtain ⟨_, d₂, hmove, hd⟩ := Body.bind_eq_ok.mp hd
      obtain ⟨rfl, rfl⟩ := Body.pure_eq_ok.mp hd
      obtain ⟨dstRow, del, hrow, hempty, hdel, hevicts⟩ := overwriteTarget_runs hevict
      have hleaf : Childless s.conn t.inode := by
        by_cases hdir : dstRow.kind = .dir
        · exact hempty hdir
        · exact childless_of_get htree hrow hdir
      exact ⟨_, .replaces hsource hmem hparent htmem hleaf hdel, hevicts.append (moveSource_runs hmove)⟩

lemma chmod_follows (path : Str) (mode : UInt32) :
    Prog.RefusesOr (chmod clock path mode) s (Follows s clock (.chmod path mode)) := by
  apply bind_requireWritable
  intro _
  apply Prog.RefusesOr.bind_query
  intro ino hino
  apply bind_getNode
  intro row _
  apply Prog.RefusesOr.bind_query
  rintro ⟨uid, _⟩ _
  apply bind_require
  intro _
  apply bind_tx_emit
  intro _ d _ hd
  exact ⟨_, .chmod hino, .single hd⟩

lemma chown_follows (path : Str) (uid gid : Option UInt32) :
    Prog.RefusesOr (chown clock path uid gid) s (Follows s clock (.chown path uid gid)) := by
  apply bind_requireWritable
  intro _
  apply Prog.RefusesOr.bind_query
  intro ino hino
  apply bind_getNode
  intro row _
  apply Prog.RefusesOr.bind_query
  rintro ⟨callerUid, _⟩ _
  apply bind_require
  intro _
  apply bind_require
  intro _
  apply bind_tx_emit
  intro _ d _ hd
  exact ⟨_, .chown hino, .single hd⟩

lemma utimes_follows (path : Str) (atimeNs mtimeNs : Option ℤ) :
    Prog.RefusesOr (utimes clock path atimeNs mtimeNs) s
      (Follows s clock (.utimes path atimeNs mtimeNs)) := by
  apply bind_requireWritable
  intro _
  apply Prog.RefusesOr.bind_query
  intro ino hino
  apply bind_getNode
  intro row _
  apply Prog.RefusesOr.bind_query
  rintro ⟨uid, _⟩ _
  apply bind_require
  intro _
  apply bind_tx_emit
  intro _ d _ hd
  exact ⟨_, .utimes hino, .single hd⟩

lemma setxattr_follows (path name : Str) (value : Bytes) (flags : Xattrs.XattrFlags) :
    Follows s clock (.setxattr path name value flags)
      (setxattr clock path name value flags s) := by
  rcases setxattr_may with ⟨x, hx⟩ | ⟨ino, row, h⟩
  · rw [hx]
    exact follows_of_conn s clock rfl
  · obtain ⟨d, hd, hrun⟩ := setxattr_run clock h
    rw [hrun]
    obtain ⟨exists_, _, hset⟩ := Body.ask_bind_eq_ok.mp hd
    split_ifs at hset
    · exact ⟨_, .setxattr h.resolved (Or.inr rfl),
        .cons (update_eq_ok.mp hset) (.single updateTimes_stamp)⟩
    · exact ⟨_, .setxattr h.resolved (Or.inl rfl),
        .cons (stmt_eq_ok.mp hset) (.single updateTimes_stamp)⟩

lemma removexattr_follows (path name : Str) :
    Follows s clock (.removexattr path name) (removexattr clock path name s) := by
  rcases removexattr_may with ⟨x, hx⟩ | ⟨ino, row, h⟩
  · rw [hx]
    exact follows_of_conn s clock rfl
  · rw [removexattr_run h]
    exact ⟨_, .removexattr h.resolved, .cons rfl (.single updateTimes_stamp)⟩

variable {s clock} {operation : Op}

lemma follows_of_refusesOr {α : Type} {p : Action α}
    (h : Prog.RefusesOr p s (Follows s clock operation)) : Follows s clock operation (p s) := by
  rcases h with ⟨x, hx⟩ | h
  · rw [hx]
    exact follows_of_conn s clock rfl
  · exact h

lemma follows_answer {α : Type} {p : Action α} {f : α → Reply}
    (h : Follows s clock operation (p s)) : Follows s clock operation (answer f p s) := by
  rw [answer_apply]
  exact h

lemma answer_follows {α : Type} {p : Action α} {f : α → Reply}
    (h : Prog.RefusesOr p s (Follows s clock operation)) :
    Follows s clock operation (answer f p s) :=
  follows_answer (follows_of_refusesOr h)

lemma follows_of_silent (h : ∀ st, ¬ operation.Issues s st) :
    Follows s clock operation (operation.run clock s) := by
  have hwrote : s.conn.Writes (operation.Issues s) (operation.run clock s).state.conn :=
    operation.wrote s clock
  refine follows_of_conn s clock ?_
  exact Writes.related (R := fun d d' => d' = d) (fun _ => rfl) (fun _ _ _ h₁ h₂ => h₂.trans h₁)
    (fun st _ _ hst _ => absurd hst (h st)) hwrote

/-- Every operation changes the database by one of its scripts. -/
theorem Op.follows (h : s.core.Rooted) (clock : Clock) (operation : Op) :
    Follows s clock operation (operation.run clock s) := by
  cases operation with
  | mkdir path mode => exact answer_follows (mkdir_follows s clock path mode)
  | rmdir path => exact answer_follows (rmdir_follows s clock path)
  | create path flags mode => exact answer_follows (create_follows s clock path flags mode)
  | open_ path flags => exact answer_follows (open_follows s clock path flags)
  | writeFd fd offset data => exact answer_follows (writeFd_follows s clock fd offset data)
  | closeFd fd => exact follows_answer (closeFd_follows s clock h fd)
  | unlink path => exact answer_follows (unlink_follows s clock h.tree path)
  | symlink target path => exact answer_follows (symlink_follows s clock target path)
  | link target linkPath => exact answer_follows (link_follows s clock target linkPath)
  | rename src dst => exact answer_follows (rename_follows s clock h.tree src dst)
  | chmod path mode => exact answer_follows (chmod_follows s clock path mode)
  | chown path uid gid => exact answer_follows (chown_follows s clock path uid gid)
  | utimes path atimeNs mtimeNs => exact answer_follows (utimes_follows s clock path atimeNs mtimeNs)
  | setxattr path name value flags =>
    exact follows_answer (setxattr_follows s clock path name value flags)
  | removexattr path name => exact follows_answer (removexattr_follows s clock path name)
  | _ => exact follows_of_silent fun st hst => by cases st <;> exact hst.elim

/-- In every reachable state, every call of an operation changes the database by one of its
scripts. -/
theorem Call.follows (h : Reachable s) (user : Option (UInt32 × UInt32)) (clock : Clock)
    (operation : Op) : ∃ l, operation.Script s.conn s.fdtable clock.now l ∧
      s.conn.Runs l ((Call.op user clock operation).exec s).conn := by
  have hrooted : (s.actAs user).core.Rooted := by
    rw [actAs_core]
    exact rooted_runsTo h
  obtain ⟨l, hscript, hruns⟩ := Op.follows hrooted clock operation
  rw [actAs_conn, actAs_fdtable] at hscript
  rw [actAs_conn] at hruns
  refine ⟨l, hscript, ?_⟩
  rw [exec_op, asUser_conn]
  exact hruns

end Operations

end Filesystem

end SqliteFs
