import SqliteFs.Filesystem.EventLog
import SqliteFs.Filesystem.Frames

/-!
# What each operation tells

An operation that is to change something sends one event when it returns, which says what has become of
which path and what node that is about, and none when it fails. All of that can be read off the states
before and after it.
-/

namespace SqliteFs

open Txn PathMap

/-- The kind and the number of the node at a path. -/
def Db.nodeAt (d : Db) (path : Str) : Option (NodeKind × ℕ) :=
  match parsePath path with
  | .ok l => d.view l
  | .error _ => none

namespace Filesystem

/-- The event that says what has become of `path`, where the node is found. -/
def about (kind : EventKind) (path : Str) (src dst : Option Str) (time : ℤ)
    (node : Option (NodeKind × ℕ)) : List Event :=
  match node with
  | some (k, i) => [⟨kind, path, src, dst, k, i, time⟩]
  | none => []

/-- What an operation has to tell when it returns, having led from `s` to `s'`. -/
def Op.news (s s' : Filesystem) (time : ℤ) : Op → List Event
  | .mkdir path _ | .symlink _ path | .link _ path =>
    about .create path none none time (s'.conn.nodeAt path)
  | .create path _ _ =>
    if (s.conn.nodeAt path).isSome then []
    else about .create path none none time (s'.conn.nodeAt path)
  | .rmdir path | .unlink path => about .remove path none none time (s.conn.nodeAt path)
  | .rename src dst =>
    if s.conn.nodeAt dst = s.conn.nodeAt src then []
    else about .move dst (some src) (some dst) time (s.conn.nodeAt src)
  | .writeFd fd _ _ =>
    match s.fdtable.entries.find? fd with
    | some f =>
      match pathForInode s'.conn f.inode with
      | .ok (some path) => [⟨.modify, path, none, none, .file, f.inode, time⟩]
      | _ => []
    | none => []
  | .chmod path _ | .chown path _ _ | .utimes path _ _ | .setxattr path _ _ _
  | .removexattr path _ => about .metadata path none none time (s.conn.nodeAt path)
  | _ => []

/-- The events that a call sends. -/
def Call.sent (s : Filesystem) (call : Call) : List Event :=
  match call with
  | .op _ clock operation =>
    if (call.outcome s).result.isOk then operation.news s (call.exec s) clock.event else []
  | .reopen .. => []

section Paths
variable {d : Db} {path : Str} {l : List Str} {i : ℕ} {k : NodeKind}

lemma nodeAt_of_parsePath (h : parsePath path = .ok l) : d.nodeAt path = d.view l := by
  unfold Db.nodeAt
  rw [h]

lemma view_of_leads (h : d.Leads ROOT_INODE l i) (hk : d.kind i = some k) : d.view l = some (k, i) := by
  rw [Db.view, Db.follow_eq_some.mpr h, Option.bind_some, Db.shown, hk, Option.map_some]

lemma nodeAt_of_resolve (htree : d.Tree) (hi : resolveToInode d path = .ok i)
    (hk : d.kind i = some k) : d.nodeAt path = some (k, i) := by
  obtain ⟨l, hparse, hl⟩ := (resolveToInode_eq_ok htree).mp hi
  rw [nodeAt_of_parsePath hparse, view_of_leads hl hk]

/-- Where the parent is found, there is the node of the entry. -/
lemma nodeAt_of_entry {e : EntryRow} (htree : d.Tree) (he : e ∈ d.entries)
    (hresolved : resolveParentAndName d path = .ok (e.parent, e.name)) (hk : d.kind e.inode = some k) :
    d.nodeAt path = some (k, e.inode) := by
  obtain ⟨l, hparse, hl⟩ := (resolveParentAndName_eq_ok htree).mp hresolved
  rw [nodeAt_of_parsePath hparse, view_of_leads (hl.concat he) hk]

/-- Where the parent is found and has no such entry, there is nothing. -/
lemma nodeAt_of_free {p : ℕ} {n : Str} (htree : d.Tree)
    (hresolved : resolveParentAndName d path = .ok (p, n))
    (hfree : ∀ x ∈ d.entries, ¬ (x.parent = p ∧ x.name = n)) : d.nodeAt path = none := by
  obtain ⟨l, hparse, hl⟩ := (resolveParentAndName_eq_ok htree).mp hresolved
  rw [nodeAt_of_parsePath hparse, Db.view]
  cases hfound : d.follow ROOT_INODE (l ++ [n]) with
  | none => rfl
  | some j =>
    obtain ⟨x, hx, hl', hname, -⟩ := Db.Leads.concat_iff.mp (Db.follow_eq_some.mp hfound)
    exact absurd ⟨hl'.unique hl, hname⟩ (hfree x hx)

/-- What has been put where the path leads is there. -/
lemma nodeAt_of_put {d' : Db} {m : Mirror} {p : ℕ} {n : Str} (htree : d.Tree)
    (hresolved : resolveParentAndName d path = .ok (p, n))
    (hview : ∀ {l}, d.Leads ROOT_INODE l p → d'.view = put m (l ++ [n]) (k, i)) :
    d'.nodeAt path = some (k, i) := by
  obtain ⟨l, hparse, hl⟩ := (resolveParentAndName_eq_ok htree).mp hresolved
  rw [nodeAt_of_parsePath hparse, hview hl]
  exact put_self m (l ++ [n]) (k, i)

end Paths

variable {s : Filesystem} {clock : Clock} {path : Str}

/-! ### Programs that tell -/

/-- The events sent since `s` are those that `news` reads off the final state, if the call returns, and
none otherwise. -/
def Tells {α : Type} (s : Filesystem) (news : Filesystem → List Event)
    (o : Outcome Filesystem Db Halt α) : Prop :=
  o.state.watchers = (if o.result.isOk then news o.state else []).foldl WatchRegistry.emit s.watchers

section Rules
variable {α : Type} {p : Action α} {news : Filesystem → List Event}

lemma tells_nothing {o : Outcome Filesystem Db Halt α} (h : o.state.watchers = s.watchers) :
    Tells s (fun _ => []) o := by
  rw [Tells, ite_self]
  exact h

lemma tells_of_refusesOr (h : Prog.RefusesOr p s (Tells s news)) : Tells s news (p s) := by
  rcases h with ⟨e, he⟩ | h
  · rw [he]
    rfl
  · exact h

lemma tells_answer {f : α → Reply} (h : Tells s news (p s)) : Tells s news (answer f p s) := by
  rw [answer_apply]
  cases hr : (p s).result with
  | ok a =>
    rw [Tells, hr] at h
    exact h
  | error e =>
    rw [Tells, hr] at h
    exact h

/-- An operation that returns has sent one event. -/
lemma tells_about {o : Outcome Filesystem Db Halt α} {kind : EventKind} {path : Str}
    {src dst : Option Str} {k : NodeKind} {i : ℕ} {time : ℤ} (hok : o.result.isOk = true)
    (hsent : o.state.watchers = s.watchers.emit ⟨kind, path, src, dst, k, i, time⟩)
    (hnews : news o.state = about kind path src dst time (some (k, i))) : Tells s news o := by
  rw [Tells, if_pos hok, hnews]
  exact hsent

end Rules

/-! ### Names -/

section Names
variable (clock) (htree : s.conn.Tree)
include htree

lemma mkdir_tells (path : Str) (mode : UInt32) :
    Tells s ((Op.mkdir path mode).news s · clock.event) (mkdir clock path mode s) := by
  refine tells_of_refusesOr ((mkdir_outcome s clock path mode).mono ?_)
  rintro o ⟨e, d, hresolved, h, rfl⟩
  have hnode := nodeAt_of_put htree hresolved (h.view htree)
  exact tells_about rfl rfl (congrArg (about .create path none none clock.event) hnode)

lemma symlink_tells (target : Bytes) (path : Str) :
    Tells s ((Op.symlink target path).news s · clock.event) (symlink clock target path s) := by
  refine tells_of_refusesOr ((symlink_outcome s clock target path).mono ?_)
  rintro o ⟨e, d, hresolved, h, rfl⟩
  have hnode := nodeAt_of_put htree hresolved (h.view htree)
  exact tells_about rfl rfl (congrArg (about .create path none none clock.event) hnode)

lemma link_tells (target linkPath : Str) :
    Tells s ((Op.link target linkPath).news s · clock.event) (link clock target linkPath s) := by
  refine tells_of_refusesOr ((link_outcome s clock target linkPath).mono ?_)
  rintro o ⟨e, d, k, hresolved, h, hk, rfl⟩
  have hnode := nodeAt_of_put htree hresolved (h.view htree hk)
  exact tells_about rfl rfl (congrArg (about .create linkPath none none clock.event) hnode)

lemma create_tells (path : Str) (flags : Flags) (mode : UInt32) :
    Tells s ((Op.create path flags mode).news s · clock.event) (create clock path flags mode s) := by
  apply tells_of_refusesOr
  apply bind_requireWritable
  intro _
  apply Prog.RefusesOr.bind_query
  rintro ⟨parent, name⟩ hresolved
  apply Prog.RefusesOr.bind_query
  intro existing hexisting
  cases hexisting
  cases he : Entries.get s.conn parent name with
  | ok existing =>
    -- what is there is opened, and nothing has happened
    obtain ⟨hmem, rfl, rfl⟩ := Entries.get_eq_ok.mp he
    apply bind_require
    intro _
    apply bind_getNode
    intro row hrow
    apply Prog.RefusesOr.bind_query
    intro _ _
    have hnode := nodeAt_of_entry htree hmem hresolved (Nodes.kind_of_get hrow)
    refine .of_run ?_
    simp only [Tells, Op.news, hnode]
    rfl
  | error _ =>
    have hfree : s.conn.nodeAt path = none := by
      refine nodeAt_of_free htree hresolved fun x hx hkey => ?_
      rw [Entries.get_eq_ok.mpr ⟨hx, hkey⟩] at he
      cases he
    refine (createNew_outcome s clock path flags mode (resolveParentAndName_named hresolved)).mono ?_
    rintro o ⟨e, d, fd, rfl, rfl, h, rfl⟩
    have hnode := nodeAt_of_put htree hresolved (h.view htree)
    refine tells_about rfl rfl ?_
    rw [Op.news, hfree]
    exact congrArg (about .create path none none clock.event) hnode

lemma rmdir_tells (path : Str) :
    Tells s ((Op.rmdir path).news s · clock.event) (rmdir clock path s) := by
  refine tells_of_refusesOr ((rmdir_outcome s clock path).mono ?_)
  rintro o ⟨e, d, hmay, h, rfl⟩
  have hnode := nodeAt_of_entry htree hmay.entry hmay.resolved hmay.dir
  exact tells_about rfl rfl (congrArg (about .remove path none none clock.event) hnode)

lemma rename_tells (src dst : Str) :
    Tells s ((Op.rename src dst).news s · clock.event) (rename clock src dst s) := by
  refine tells_of_refusesOr (rename_rule s clock (fun _ hsame _ => ?_)
    (fun d e q m k hk hmay hfree hmoves => ?_) fun d₁ d e t k hk hmay hevicts hmoves => ?_)
  · have heq : s.conn.nodeAt dst = s.conn.nodeAt src := by
      rcases hsame with rfl | ⟨e, he, t, ht, hinode, hsrc, hdst⟩
      · rfl
      · obtain ⟨k, hk⟩ := htree.shaped.kind_child he
        rw [nodeAt_of_entry htree he hsrc hk, nodeAt_of_entry htree ht hdst (hinode ▸ hk), hinode]
    simp only [Tells, Op.news, if_pos heq]
    rfl
  · have hnode := nodeAt_of_entry htree hmay.move.1 hmay.source hk
    refine tells_about rfl rfl ?_
    rw [Op.news, nodeAt_of_free htree hmay.target hfree, hnode]
    rfl
  · have hnode := nodeAt_of_entry htree hmay.move.1 hmay.source hk
    have hother : s.conn.nodeAt dst ≠ s.conn.nodeAt src := by
      obtain ⟨k', hk'⟩ := htree.shaped.kind_child hmay.entry
      rw [hnode, nodeAt_of_entry htree hmay.entry hmay.target hk']
      exact fun heq => hmay.other (congrArg Prod.snd (Option.some.inj heq))
    refine tells_about rfl rfl ?_
    rw [Op.news, if_neg hother, hnode]

end Names

lemma unlink_tells (clock : Clock) (h : s.core.Counted (· ≠ .dir)) (path : Str) :
    Tells s ((Op.unlink path).news s · clock.event) (unlink clock path s) := by
  rcases unlink_may with ⟨x, hx⟩ | ⟨e, row, hmay⟩
  · exact tells_of_refusesOr (Or.inl ⟨x, hx⟩)
  · have hnode := nodeAt_of_entry h.rooted.tree hmay.entry hmay.resolved (Nodes.kind_of_get hmay.node)
    have hnews := congrArg (about .remove path none none clock.event) hnode
    have hrun := unlink_unlinks clock h hmay
    cases ho : unlink clock path s with
    | mk r s' c =>
    rw [ho] at hrun
    cases hrun with
    | keeps => exact tells_about rfl rfl hnews
    | deletes => exact tells_about rfl rfl hnews
    | fails => rfl

/-! ### Contents and attributes -/

lemma writeFd_tells (clock : Clock) (fd offset : ℕ) (data : Bytes) :
    Tells s ((Op.writeFd fd offset data).news s · clock.event) (writeFd clock fd offset data s) := by
  refine tells_of_refusesOr (writeFd_rule fun f row newSize d₁ d hf _ _ => ?_)
  refine ⟨fun x hx => rfl, fun hnone => ?_, fun path hpath => ?_⟩
  · simp only [Tells, Op.news, hf, hnone, ite_self]
    rfl
  · simp only [Tells, Op.news, hf]
    rw [show pathForInode (s.announce d _).conn f.inode = .ok (some path) from hpath]
    rfl

section Attributes
variable (clock) (htree : s.conn.Tree)
include htree

/-- The operations that find a node by its path and then change its row. -/
lemma attributes_tell {rest : ℕ → NodeRow → Action PUnit}
    (h : ∀ ino row, Prog.RefusesOr (rest ino row) s fun o => o.result.isOk = true ∧
      o.state.watchers = s.watchers.emit ⟨.metadata, path, none, none, row.kind, ino, clock.event⟩) :
    Tells s (fun _ => about .metadata path none none clock.event (s.conn.nodeAt path)) ((do
      requireWritable
      let ino ← resolve path
      let row ← getNode ino
      rest ino row : Action PUnit) s) := by
  apply tells_of_refusesOr
  apply bind_requireWritable
  intro _
  apply Prog.RefusesOr.bind_query
  intro ino hino
  apply bind_getNode
  intro row hrow
  refine (h ino row).mono ?_
  rintro o ⟨hok, hsent⟩
  have hnode := nodeAt_of_resolve htree hino (Nodes.kind_of_get hrow)
  exact tells_about hok hsent (congrArg (about .metadata path none none clock.event) hnode)

lemma chmod_tells (path : Str) (mode : UInt32) :
    Tells s ((Op.chmod path mode).news s · clock.event) (chmod clock path mode s) := by
  refine attributes_tell clock htree fun ino row => ?_
  apply Prog.RefusesOr.bind_query
  rintro ⟨uid, _⟩ _
  apply bind_require
  intro _
  apply bind_tx_emit
  exact fun _ d _ _ => ⟨rfl, rfl⟩

lemma chown_tells (path : Str) (uid gid : Option UInt32) :
    Tells s ((Op.chown path uid gid).news s · clock.event) (chown clock path uid gid s) := by
  refine attributes_tell clock htree fun ino row => ?_
  apply Prog.RefusesOr.bind_query
  rintro ⟨callerUid, _⟩ _
  apply bind_require
  intro _
  apply bind_require
  intro _
  apply bind_tx_emit
  exact fun _ d _ _ => ⟨rfl, rfl⟩

lemma utimes_tells (path : Str) (atimeNs mtimeNs : Option ℤ) :
    Tells s ((Op.utimes path atimeNs mtimeNs).news s · clock.event)
      (utimes clock path atimeNs mtimeNs s) := by
  refine attributes_tell clock htree fun ino row => ?_
  apply Prog.RefusesOr.bind_query
  rintro ⟨uid, _⟩ _
  apply bind_require
  intro _
  apply bind_tx_emit
  exact fun _ d _ _ => ⟨rfl, rfl⟩

lemma setxattr_tells (path name : Str) (value : Bytes) (flags : Xattrs.XattrFlags) :
    Tells s ((Op.setxattr path name value flags).news s · clock.event)
      (setxattr clock path name value flags s) := by
  rcases setxattr_may with ⟨x, hx⟩ | ⟨ino, row, hmay⟩
  · exact tells_of_refusesOr (Or.inl ⟨x, hx⟩)
  · have hnode := nodeAt_of_resolve htree hmay.resolved (Nodes.kind_of_get hmay.node)
    obtain ⟨d, -, hrun⟩ := setxattr_run clock hmay
    rw [hrun]
    exact tells_about rfl rfl (congrArg (about .metadata path none none clock.event) hnode)

lemma removexattr_tells (path name : Str) :
    Tells s ((Op.removexattr path name).news s · clock.event) (removexattr clock path name s) := by
  rcases removexattr_may with ⟨x, hx⟩ | ⟨ino, row, hmay⟩
  · exact tells_of_refusesOr (Or.inl ⟨x, hx⟩)
  · have hnode := nodeAt_of_resolve htree hmay.resolved (Nodes.kind_of_get hmay.node)
    rw [removexattr_run hmay]
    exact tells_about rfl rfl (congrArg (about .metadata path none none clock.event) hnode)

end Attributes

/-! ### Every operation -/

section Silent

lemma tx_keeps {α : Type} (b : Sql α) : Prog.Frames watchers (tx b) :=
  .bind (.query _) fun _ => .transaction (fun _ _ => rfl) b

lemma open_keeps (path : Str) (flags : Flags) : Prog.Frames watchers (open_ clock path flags) := by
  refine .bind (.query _) fun _ => .bind (.query _) fun _ => .bind (.ensure _ _) fun _ => ?_
  refine .bind (.query _) fun _ => .ite (.volatile fun _ => rfl) ?_
  refine .bind (.query _) fun _ => .bind (.query _) fun _ => .bind (tx_keeps _) fun _ => ?_
  exact .volatile fun _ => rfl

lemma closeFd_keeps (fd : ℕ) : Prog.Frames watchers (closeFd fd) := by
  refine .bind (.volatile fun _ => rfl) fun _ => .bind (.volatile fun _ => rfl) fun _ => ?_
  exact .bind (.query _) fun _ => .bind (.query _) fun _ => .ite (tx_keeps _) (.pure _)

lemma lockRequest_keeps (fd : ℕ) (f : LockManager → ℕ → Res Unit × LockManager) :
    Prog.Frames watchers (lockRequest fd f) :=
  .bind (.query _) fun _ => .volatile fun _ => rfl

end Silent

/-- An operation other than `watch` and `unwatch` sends its news, if it returns, and otherwise nothing. -/
theorem Op.tells (operation : Op) (h : s.core.Counted (· ≠ .dir))
    (hwatch : ∀ path recursive, operation ≠ .watch path recursive)
    (hunwatch : ∀ id, operation ≠ .unwatch id) :
    Tells s (operation.news s · clock.event) (operation.run clock s) := by
  have htree : s.conn.Tree := h.rooted.tree
  have hsilent {α : Type} {f : α → Reply} {p : Action α} (hp : Prog.Frames watchers p) :
      Tells s (fun _ => []) (answer f p s) := tells_answer (tells_nothing (hp s))
  have hreads {α : Type} {f : α → Reply} {p : Action α} (hp : Reads p) :
      Tells s (fun _ => []) (answer f p s) := hsilent fun s => congrArg watchers (hp s).1
  cases operation with
  | mkdir path mode => exact tells_answer (mkdir_tells clock htree path mode)
  | rmdir path => exact tells_answer (rmdir_tells clock htree path)
  | create path flags mode => exact tells_answer (create_tells clock htree path flags mode)
  | unlink path => exact tells_answer (unlink_tells clock h path)
  | symlink target path => exact tells_answer (symlink_tells clock htree target path)
  | link target linkPath => exact tells_answer (link_tells clock htree target linkPath)
  | rename src dst => exact tells_answer (rename_tells clock htree src dst)
  | writeFd fd offset data => exact tells_answer (writeFd_tells clock fd offset data)
  | chmod path mode => exact tells_answer (chmod_tells clock htree path mode)
  | chown path uid gid => exact tells_answer (chown_tells clock htree path uid gid)
  | utimes path atimeNs mtimeNs => exact tells_answer (utimes_tells clock htree path atimeNs mtimeNs)
  | setxattr path name value flags =>
    exact tells_answer (setxattr_tells clock htree path name value flags)
  | removexattr path name => exact tells_answer (removexattr_tells clock htree path name)
  | pathOfInode inode => exact hreads (pathOfInode_reads inode)
  | stat path => exact hreads (stat_reads path)
  | readdir path => exact hreads (readdir_reads path)
  | readFd fd offset size => exact hreads (readFd_reads fd offset size)
  | readlink path => exact hreads (readlink_reads path)
  | getxattr path name => exact hreads (getxattr_reads path name)
  | listxattr path => exact hreads (listxattr_reads path)
  | posixGetlk fd pid start length => exact hreads (posixGetlk_reads fd pid start length)
  | ofdGetlk fd start length => exact hreads (ofdGetlk_reads fd start length)
  | flush fd => exact hreads (flush_reads fd)
  | fsync fd => exact hreads (fsync_reads fd)
  | fsyncdir path => exact hreads (fsyncdir_reads path)
  | open_ path flags => exact hsilent (open_keeps path flags)
  | closeFd fd => exact hsilent (closeFd_keeps fd)
  | posixLock fd pid op start length wait => exact hsilent (lockRequest_keeps fd _)
  | ofdLock fd op start length wait => exact hsilent (lockRequest_keeps fd _)
  | flock fd op wait => exact hsilent (lockRequest_keeps fd _)
  | watch path recursive => exact absurd rfl (hwatch path recursive)
  | unwatch id => exact absurd rfl (hunwatch id)

lemma Op.news_congr {operation : Op} {s s' t t' : Filesystem} {time : ℤ} (hconn : s.conn = t.conn)
    (hfds : s.fdtable = t.fdtable) (hconn' : s'.conn = t'.conn) :
    operation.news s s' time = operation.news t t' time := by
  cases operation <;> simp only [Op.news, hconn, hfds, hconn']

/-- The same for a call, of whatever user. -/
theorem Call.watchers_exec (h : Reachable s) (user : Option (UInt32 × UInt32)) (operation : Op)
    (hwatch : ∀ path recursive, operation ≠ .watch path recursive)
    (hunwatch : ∀ id, operation ≠ .unwatch id) :
    ((Call.op user clock operation).exec s).watchers
      = (Call.sent s (.op user clock operation)).foldl WatchRegistry.emit s.watchers := by
  have hcounted : (s.actAs user).core.Counted (· ≠ .dir) := counted_actAs (files_counted h)
  have htells : Tells (s.actAs user) (operation.news (s.actAs user) · clock.event)
      (operation.run clock (s.actAs user)) := operation.tells hcounted hwatch hunwatch
  have hnews : operation.news (s.actAs user) (operation.run clock (s.actAs user)).state clock.event
      = operation.news s ((Call.op user clock operation).exec s) clock.event := by
    refine Op.news_congr (actAs_conn s user) (actAs_fdtable s user) ?_
    rw [exec_op, asUser_conn]
  rw [Tells, hnews, actAs_watchers] at htells
  rw [exec_op, asUser_watchers, htells]
  unfold Call.sent
  rw [outcome_op, asUser_result]

end Filesystem

end SqliteFs
