import SqliteFs.Filesystem.FailedCalls
import SqliteFs.Filesystem.Mirror
import SqliteFs.Watchers

/-!
# The events are a log of the names

A watcher of everything below the root that replays the events it receives on the map from paths to
nodes as it was when the watcher subscribed has the map as it is, whatever has been called in the
meantime. The one call that breaks this is an `unlink` that fails after its first commit: it takes a
name away and sends no event.
-/

namespace SqliteFs

open Txn PathMap

/-! ### Replaying events -/

/-- The event is not about names. -/
def Event.Murmurs (ev : Event) : Prop := ev.kind = .modify ∨ ev.kind = .metadata

/-- What an event says about the map. -/
def Mirror.replay (m : Mirror) (ev : Event) : Mirror :=
  match ev.kind with
  | .create =>
    match parsePath ev.path with
    | .ok l => put m l (ev.nodeKind, ev.inode)
    | .error _ => m
  | .remove =>
    match parsePath ev.path with
    | .ok l => erase m l
    | .error _ => m
  | .move =>
    match ev.srcPath.map parsePath, ev.dstPath.map parsePath with
    | some (.ok src), some (.ok dst) => move m src dst
    | _, _ => m
  | .modify | .metadata => m

section Replay
variable {m : Mirror} {path src dst : Str} {l l' : List Str} {kind : NodeKind} {inode : ℕ} {time : ℤ}
  {n : Str}

lemma replay_murmurs {ev : Event} (h : ev.Murmurs) : m.replay ev = m := by
  unfold Mirror.replay
  rcases h with h | h <;> rw [h]

lemma foldl_murmurs {evs : List Event} (h : ∀ ev ∈ evs, ev.Murmurs) :
    evs.foldl Mirror.replay m = m := by
  induction evs with
  | nil => rfl
  | cons ev evs ih =>
    obtain ⟨hev, hevs⟩ := List.forall_mem_cons.mp h
    rw [List.foldl_cons, replay_murmurs hev, ih hevs]

lemma replay_create (h : parsePath path = .ok l) :
    m.replay ⟨.create, path, none, none, kind, inode, time⟩ = put m l (kind, inode) := by
  simp only [Mirror.replay, h]

lemma replay_remove (h : parsePath path = .ok l) :
    m.replay ⟨.remove, path, none, none, kind, inode, time⟩ = erase m l := by
  simp only [Mirror.replay, h]

lemma replay_move (h : parsePath src = .ok l) (h' : parsePath dst = .ok l') :
    m.replay ⟨.move, path, some src, some dst, kind, inode, time⟩ = move m l l' := by
  simp only [Mirror.replay, Option.map_some, h, h']

/-- A recursive watcher of the root. -/
def WatchSlot.WatchesAll (slot : WatchSlot) : Prop := slot.path = ['/'] ∧ slot.recursive = true

/-- It receives the event, unless the event is not about names. -/
def Event.Received (ev : Event) : Prop :=
  ev.Murmurs ∨ ∀ slot : WatchSlot, slot.WatchesAll → matchesSlot slot ev = true

lemma pathMatches_root (h : parsePath path = .ok (l ++ [n])) : pathMatches path ['/'] true = true := by
  refine (pathMatches_belowRoot h).mpr ?_
  rintro rfl
  exact List.append_ne_nil_of_right_ne_nil l (List.cons_ne_nil n []) (Except.ok.inj h).symm

lemma received_of_parsePath {ev : Event} (hkind : ev.kind ≠ .move)
    (h : parsePath ev.path = .ok (l ++ [n])) : ev.Received := by
  refine Or.inr fun slot hslot => ?_
  have hpath := pathMatches_root h
  unfold matchesSlot
  rw [hslot.1, hslot.2]
  cases hk : ev.kind with
  | move => exact absurd hk hkind
  | _ => simp [hpath]

lemma received_move (h : parsePath src = .ok (l ++ [n])) :
    (⟨.move, path, some src, some dst, kind, inode, time⟩ : Event).Received := by
  refine Or.inr fun slot hslot => ?_
  unfold matchesSlot
  rw [hslot.1, hslot.2]
  simp [pathMatches_root h]

end Replay

namespace Filesystem

variable {s s' : Filesystem} {clock : Clock} {path : Str}

/-! ### What a call sends -/

/-- From `s` to `s'`, events are sent that a watcher of everything below the root receives, and that
say how the map changes. -/
def Logs (s s' : Filesystem) : Prop :=
  ∃ evs : List Event, s'.watchers = evs.foldl WatchRegistry.emit s.watchers ∧
    (∀ ev ∈ evs, ev.Received) ∧ s'.conn.view = evs.foldl Mirror.replay s.conn.view

lemma logs_refl (s : Filesystem) : Logs s s := ⟨[], rfl, fun _ h => absurd h List.not_mem_nil, rfl⟩

lemma logs_of_refusesOr {α : Type} {p : Action α}
    (h : Prog.RefusesOr p s fun o => Logs s o.state) : Logs s (p s).state := by
  rcases h with ⟨x, hx⟩ | h
  · rw [hx]
    exact logs_refl s
  · exact h

lemma logs_event {ev : Event} (hwatchers : s'.watchers = s.watchers.emit ev) (hev : ev.Received)
    (hview : s'.conn.view = s.conn.view.replay ev) : Logs s s' :=
  ⟨[ev], hwatchers, fun _ hx => List.mem_singleton.mp hx ▸ hev, hview⟩

/-- `p` sends no events that are about names. -/
def Murmurs {α : Type} (p : Action α) : Prop := ∀ s, ∃ evs : List Event,
  (∀ ev ∈ evs, ev.Murmurs) ∧ (p s).state.watchers = evs.foldl WatchRegistry.emit s.watchers

namespace Murmurs

variable {α β : Type}

lemma of_watchers {p : Action α} (h : ∀ s, (p s).state.watchers = s.watchers) : Murmurs p :=
  fun s => ⟨[], fun _ hev => absurd hev List.not_mem_nil, h s⟩

lemma of_reads {p : Action α} (h : Reads p) : Murmurs p :=
  .of_watchers fun s => congrArg watchers (h s).1

lemma ask (q : Filesystem → Res α) : Murmurs (Filesystem.ask q) := .of_watchers fun _ => rfl

lemma pure (a : α) : Murmurs (Pure.pure a : Action α) := .of_watchers fun _ => rfl

lemma bind {p : Action α} {f : α → Action β} (hp : Murmurs p) (hf : ∀ a, Murmurs (f a)) :
    Murmurs (p >>= f) := by
  intro s
  obtain ⟨evs, hevs, hs⟩ := hp s
  cases hr : p s with
  | mk r s' l =>
    rw [hr] at hs
    cases r with
    | error e =>
      rw [Prog.bind_apply_error hr]
      exact ⟨evs, hevs, hs⟩
    | ok a =>
      rw [Prog.bind_apply_ok hr]
      obtain ⟨evs', hevs', hs'⟩ := hf a s'
      refine ⟨evs ++ evs', fun ev hev => ?_, ?_⟩
      · exact (List.mem_append.mp hev).elim (hevs ev) (hevs' ev)
      · rw [hs', hs, List.foldl_append]

lemma tx (b : Sql α) : Murmurs (Filesystem.tx b) := by
  refine .bind (.ask _) fun _ => .of_watchers fun s => ?_
  unfold Prog.transaction
  cases b (Durable.disk s) <;> rfl

lemma emit {clock : Clock} {kind : EventKind} {path : Str} {nodeKind : NodeKind} {inode : ℕ}
    (h : kind = .modify ∨ kind = .metadata) :
    Murmurs (Filesystem.emit clock kind path nodeKind inode none none) :=
  fun _ => ⟨[⟨kind, path, none, none, nodeKind, inode, clock.event⟩],
    fun _ hev => List.mem_singleton.mp hev ▸ h, rfl⟩

lemma lockRequest (fd : ℕ) (f : LockManager → ℕ → Res Unit × LockManager) :
    Murmurs (Filesystem.lockRequest fd f) :=
  .bind (.ask _) fun _ => .of_watchers fun _ => rfl

end Murmurs

/-! ### Operations that keep the names -/

/-- The operation changes no names. -/
def Op.KeepsNames : Op → Prop
  | .mkdir .. | .rmdir _ | .create .. | .closeFd _ | .unlink _ | .symlink .. | .link .. | .rename ..
  | .watch .. | .unwatch _ => False
  | _ => True

/-- The statement changes no names and no kinds. -/
def KeepsView : Statement → Prop
  | .insertNode _ | .deleteNode _ | .insertEntry _ | .deleteEntry .. | .moveEntry .. => False
  | _ => True

lemma view_of_does {st : Statement} {d d' : Db} (hst : KeepsView st) (h : st.Does d d') :
    d'.view = d.view := by
  cases st with
  | updateTimes inode a m c => exact (Nodes.updateTimes_ok h).view
  | updateModeUidGid inode mode uid gid c => exact (Nodes.updateModeUidGid_ok h).view
  | updateSize inode size m c => exact (Nodes.updateSize_ok h).names.view
  | changeNlink inode delta c =>
    obtain rfl := h
    have hadj : d.Adjust (d.updateNode inode
        (fun r => { r with nlink := r.nlink + delta, ctimeNs := c }) fun _ => rfl)
        (Pi.single inode delta) :=
      .updateNode inode delta (fun _ => rfl) (fun _ => rfl) fun _ => rfl
    exact hadj.view
  | putBlob inode chunkId data =>
    obtain ⟨-, rfl⟩ := Db.putBlob_eq_ok.mp h
    exact Db.view_congr rfl fun _ => rfl
  | updateBlob inode chunkId data =>
    obtain rfl := h
    exact Db.view_congr rfl fun _ => rfl
  | deleteBlobs inode p =>
    obtain rfl := h
    exact Db.view_congr rfl fun _ => rfl
  | insertXattr row =>
    obtain ⟨-, t, -, rfl⟩ := Db.insertXattr_eq_ok.mp h
    exact Db.view_congr rfl fun _ => rfl
  | updateXattr inode name value =>
    obtain rfl := h
    exact Db.view_congr rfl fun _ => rfl
  | deleteXattr inode name =>
    obtain rfl := h
    exact Db.view_congr rfl fun _ => rfl
  | insertSymlink row =>
    obtain ⟨-, t, -, rfl⟩ := Db.insertSymlink_eq_ok.mp h
    exact Db.view_congr rfl fun _ => rfl
  | _ => exact hst.elim

lemma keepsView_of_issues {operation : Op} {st : Statement} (hop : operation.KeepsNames)
    (h : operation.Issues s st) : KeepsView st := by
  cases operation with
  | mkdir | rmdir | create | closeFd | unlink | symlink | link | rename | watch | unwatch =>
    exact hop.elim
  | _ =>
    cases st with
    | insertNode | deleteNode | insertEntry | deleteEntry | moveEntry => exact h.elim
    | _ => trivial

/-- Such an operation keeps the map. -/
lemma Op.KeepsNames.view {operation : Op} (h : operation.KeepsNames) (s : Filesystem) (clock : Clock) :
    (operation.run clock s).state.conn.view = s.conn.view := by
  have hwrote : s.conn.Writes (operation.Issues s) (operation.run clock s).state.conn :=
    operation.wrote s clock
  refine Writes.related (R := fun d d' => d'.view = d.view) (fun _ => rfl) ?_ ?_ hwrote
  · exact fun _ _ _ h₁ h₂ => h₂.trans h₁
  · exact fun _ _ _ hst hdoes => view_of_does (keepsView_of_issues h hst) hdoes

section Murmurs
variable (clock)

lemma open_murmurs (path : Str) (flags : Flags) : Murmurs (open_ clock path flags) := by
  refine .bind (.ask _) fun _ => .bind (.ask _) fun _ => .bind (.ask _) fun _ =>
    .bind (.ask _) fun _ => ?_
  split_ifs
  · exact .of_watchers fun _ => rfl
  · exact .bind (.ask _) fun _ => .bind (.ask _) fun _ => .bind (.tx _) fun _ =>
      .of_watchers fun _ => rfl

lemma writeFd_murmurs (fd offset : ℕ) (data : Bytes) : Murmurs (writeFd clock fd offset data) := by
  refine .bind (.ask _) fun _ => .bind (.ask _) fun _ => .bind (.ask _) fun _ =>
    .bind (.ask _) fun _ => .bind (.ask _) fun _ => .bind (.tx _) fun _ => .bind (.ask _) fun p => ?_
  cases p with
  | none => exact .bind (.pure PUnit.unit) fun _ => .pure _
  | some path => exact .bind (.emit (Or.inl rfl)) fun _ => .pure _

lemma chmod_murmurs (path : Str) (mode : UInt32) : Murmurs (chmod clock path mode) :=
  .bind (.ask _) fun _ => .bind (.ask _) fun _ => .bind (.ask _) fun _ => .bind (.ask _) fun _ =>
    .bind (.ask _) fun _ => .bind (.tx _) fun _ => .emit (Or.inr rfl)

lemma chown_murmurs (path : Str) (uid gid : Option UInt32) : Murmurs (chown clock path uid gid) :=
  .bind (.ask _) fun _ => .bind (.ask _) fun _ => .bind (.ask _) fun _ => .bind (.ask _) fun _ =>
    .bind (.ask _) fun _ => .bind (.ask _) fun _ => .bind (.tx _) fun _ => .emit (Or.inr rfl)

lemma utimes_murmurs (path : Str) (atimeNs mtimeNs : Option ℤ) :
    Murmurs (utimes clock path atimeNs mtimeNs) :=
  .bind (.ask _) fun _ => .bind (.ask _) fun _ => .bind (.ask _) fun _ => .bind (.ask _) fun _ =>
    .bind (.ask _) fun _ => .bind (.tx _) fun _ => .emit (Or.inr rfl)

lemma setxattr_murmurs (path name : Str) (value : Bytes) (flags : Xattrs.XattrFlags) :
    Murmurs (setxattr clock path name value flags) :=
  .bind (.ask _) fun _ => .bind (.ask _) fun _ => .bind (.ask _) fun _ => .bind (.ask _) fun _ =>
    .bind (.ask _) fun _ => .bind (.ask _) fun _ => .bind (.tx _) fun _ => .bind (.tx _) fun _ =>
    .emit (Or.inr rfl)

lemma removexattr_murmurs (path name : Str) : Murmurs (removexattr clock path name) :=
  .bind (.ask _) fun _ => .bind (.ask _) fun _ => .bind (.ask _) fun _ => .bind (.ask _) fun _ =>
    .bind (.tx _) fun _ => .bind (.tx _) fun _ => .emit (Or.inr rfl)

lemma Murmurs.answer {α : Type} {f : α → Reply} {p : Action α} (h : Murmurs p) :
    Murmurs (Filesystem.answer f p) :=
  .bind h fun _ => .pure _

lemma Op.KeepsNames.murmurs {operation : Op} (h : operation.KeepsNames) :
    Murmurs (operation.run clock) := by
  cases operation with
  | mkdir | rmdir | create | closeFd | unlink | symlink | link | rename | watch | unwatch =>
    exact h.elim
  | pathOfInode inode => exact .answer (.of_reads (pathOfInode_reads inode))
  | stat path => exact .answer (.of_reads (stat_reads path))
  | readdir path => exact .answer (.of_reads (readdir_reads path))
  | readFd fd offset size => exact .answer (.of_reads (readFd_reads fd offset size))
  | readlink path => exact .answer (.of_reads (readlink_reads path))
  | getxattr path name => exact .answer (.of_reads (getxattr_reads path name))
  | listxattr path => exact .answer (.of_reads (listxattr_reads path))
  | posixGetlk fd pid start length => exact .answer (.of_reads (posixGetlk_reads fd pid start length))
  | ofdGetlk fd start length => exact .answer (.of_reads (ofdGetlk_reads fd start length))
  | flush fd => exact .answer (.of_reads (flush_reads fd))
  | fsync fd => exact .answer (.of_reads (fsync_reads fd))
  | fsyncdir path => exact .answer (.of_reads (fsyncdir_reads path))
  | open_ path flags => exact .answer (open_murmurs clock path flags)
  | writeFd fd offset data => exact .answer (writeFd_murmurs clock fd offset data)
  | chmod path mode => exact .answer (chmod_murmurs clock path mode)
  | chown path uid gid => exact .answer (chown_murmurs clock path uid gid)
  | utimes path atimeNs mtimeNs => exact .answer (utimes_murmurs clock path atimeNs mtimeNs)
  | setxattr path name value flags => exact .answer (setxattr_murmurs clock path name value flags)
  | removexattr path name => exact .answer (removexattr_murmurs clock path name)
  | posixLock fd pid op start length wait => exact .answer (.lockRequest fd _)
  | ofdLock fd op start length wait => exact .answer (.lockRequest fd _)
  | flock fd op wait => exact .answer (.lockRequest fd _)

end Murmurs

/-! ### Operations that change names -/

section Names
variable (clock)

lemma mkdir_logs (htree : s.conn.Tree) (path : Str) (mode : UInt32) :
    Logs s (mkdir clock path mode s).state := by
  refine logs_of_refusesOr ((mkdir_outcome s clock path mode).mono ?_)
  rintro o ⟨e, d, hresolved, h, rfl⟩
  obtain ⟨l, hparse, hl⟩ := (resolveParentAndName_eq_ok htree).mp hresolved
  refine logs_event rfl (received_of_parsePath (fun hk => nomatch hk) hparse) ?_
  rw [replay_create hparse]
  exact h.view htree hl

lemma symlink_logs (htree : s.conn.Tree) (target : Bytes) (path : Str) :
    Logs s (symlink clock target path s).state := by
  refine logs_of_refusesOr ((symlink_outcome s clock target path).mono ?_)
  rintro o ⟨e, d, hresolved, h, rfl⟩
  obtain ⟨l, hparse, hl⟩ := (resolveParentAndName_eq_ok htree).mp hresolved
  refine logs_event rfl (received_of_parsePath (fun hk => nomatch hk) hparse) ?_
  rw [replay_create hparse]
  exact h.view htree hl

lemma link_logs (htree : s.conn.Tree) (target linkPath : Str) :
    Logs s (link clock target linkPath s).state := by
  refine logs_of_refusesOr ((link_outcome s clock target linkPath).mono ?_)
  rintro o ⟨e, d, k, hresolved, h, hk, rfl⟩
  obtain ⟨l, hparse, hl⟩ := (resolveParentAndName_eq_ok htree).mp hresolved
  refine logs_event rfl (received_of_parsePath (fun hk => nomatch hk) hparse) ?_
  rw [replay_create hparse]
  exact h.view htree hk hl

lemma create_logs (htree : s.conn.Tree) (path : Str) (flags : Flags) (mode : UInt32) :
    Logs s (create clock path flags mode s).state := by
  apply logs_of_refusesOr
  apply bind_requireWritable
  intro _
  apply Prog.RefusesOr.bind_query
  rintro ⟨parent, name⟩ hresolved
  apply Prog.RefusesOr.bind_query
  intro existing hexisting
  cases hexisting
  cases he : Entries.get s.conn parent name with
  | ok existing =>
    apply bind_require
    intro _
    apply bind_getNode
    intro row _
    apply Prog.RefusesOr.bind_query
    intro _ _
    exact .of_run ⟨[], rfl, fun _ h => absurd h List.not_mem_nil, rfl⟩
  | error _ =>
    refine (createNew_outcome s clock path flags mode (resolveParentAndName_named hresolved)).mono ?_
    rintro o ⟨e, d, fd, rfl, rfl, h, rfl⟩
    obtain ⟨l, hparse, hl⟩ := (resolveParentAndName_eq_ok htree).mp hresolved
    refine logs_event rfl (received_of_parsePath (fun hk => nomatch hk) hparse) ?_
    rw [replay_create hparse]
    exact h.view htree hl

lemma rmdir_logs (htree : s.conn.Tree) (path : Str) : Logs s (rmdir clock path s).state := by
  refine logs_of_refusesOr ((rmdir_outcome s clock path).mono ?_)
  rintro o ⟨e, d, hmay, h, rfl⟩
  obtain ⟨l, hparse, hl⟩ := (resolveParentAndName_eq_ok htree).mp hmay.resolved
  refine logs_event rfl (received_of_parsePath (fun hk => nomatch hk) hparse) ?_
  rw [replay_remove hparse]
  exact h.view htree hl

lemma rename_logs (htree : s.conn.Tree) (src dst : Str) :
    Logs s (rename clock src dst s).state := by
  refine logs_of_refusesOr ((rename_outcome s clock src dst).mono fun o h => ?_)
  cases h with
  | stays _ => exact logs_refl s
  | moves hmay hfree hmoves =>
    obtain ⟨l, hparse, hl⟩ := (resolveParentAndName_eq_ok htree).mp hmay.source
    obtain ⟨l', hparse', hl'⟩ := (resolveParentAndName_eq_ok htree).mp hmay.target
    refine logs_event rfl (received_move hparse) ?_
    rw [replay_move hparse hparse']
    exact hmoves.view htree hmay.move.1 hmay.move.2.2.1 (htree.clear_of_mayMove hmay.move) hfree hl hl'
  | replaces hmay hevicts hmoves =>
    obtain ⟨l, hparse, hl⟩ := (resolveParentAndName_eq_ok htree).mp hmay.source
    obtain ⟨l', hparse', hl'⟩ := (resolveParentAndName_eq_ok htree).mp hmay.target
    refine logs_event rfl (received_move hparse) ?_
    rw [replay_move hparse hparse']
    exact hevicts.view_moves htree hmay.move hmay.other hmoves hl hl'

lemma unlink_logs (h : s.core.Counted (· ≠ .dir)) (path : Str)
    (hwraps : ¬ WrapsAround s (.unlink path)) : Logs s (unlink clock path s).state := by
  have htree : s.conn.Tree := h.rooted.tree
  rcases unlink_may with ⟨x, hx⟩ | ⟨e, row, hmay⟩
  · rw [hx]
    exact logs_refl s
  · obtain ⟨l, hparse, hl⟩ := (resolveParentAndName_eq_ok htree).mp hmay.resolved
    have hrun := unlink_unlinks clock h hmay
    cases ho : unlink clock path s with
    | mk r s' c =>
    rw [ho] at hrun
    cases hrun with
    | keeps hdrops _ =>
      refine logs_event rfl (received_of_parsePath (fun hk => nomatch hk) hparse) ?_
      rw [replay_remove hparse]
      exact hdrops.view htree hl
    | deletes hdrops hrem _ _ =>
      refine logs_event rfl (received_of_parsePath (fun hk => nomatch hk) hparse) ?_
      rw [replay_remove hparse]
      exact (hrem.view (htree.drops hdrops) (htree.rootUnnamed e hmay.entry)).trans
        (hdrops.view htree hl)
    | fails hdrops hnames hnot hopen =>
      exact absurd ⟨e, row, hmay, hopen, hnames, hnot⟩ hwraps

lemma closeFd_murmurs (fd : ℕ) : Murmurs (closeFd fd) := by
  refine .bind (.of_watchers fun _ => rfl) fun _ => .bind (.of_watchers fun _ => rfl) fun _ =>
    .bind (.ask _) fun _ => .bind (.ask _) fun _ => ?_
  split_ifs
  · exact .tx _
  · exact .pure _

lemma closeFd_view (h : s.core.Rooted) (fd : ℕ) : (closeFd fd s).state.conn.view = s.conn.view := by
  rcases closeFd_effect s fd with hsame | he
  · rw [hsame]
  · generalize hc : (closeFd fd s).state.core = c at he
    have hconn : (closeFd fd s).state.conn = c.conn := congrArg Core.conn hc
    rw [hconn]
    cases he with
    | closes hf hd =>
      have hroot := h.rootClosed _ (KeyTable.find?_eq_some.mp hf).1
      rcases hd with ⟨-, hd⟩ | ⟨m, -, hd⟩
      · exact congrArg Db.view hd
      · cases hd with
        | removed _ _ _ hrem => exact hrem.view h.tree hroot
        | kept _ => rfl

lemma logs_of_murmurs {α : Type} {p : Action α} (hp : Murmurs p)
    (hview : (p s).state.conn.view = s.conn.view) : Logs s (p s).state := by
  obtain ⟨evs, hevs, hwatchers⟩ := hp s
  refine ⟨evs, hwatchers, fun ev hev => Or.inl (hevs ev hev), ?_⟩
  rw [hview, foldl_murmurs hevs]

lemma logs_answer {α : Type} {f : α → Reply} {p : Action α} (h : Logs s (p s).state) :
    Logs s (answer f p s).state := by
  rw [answer_apply]
  exact h

/-- Every operation sends the events that say how it changes the names, unless it is an `unlink` for
which the count wraps around. -/
theorem Op.logs {operation : Op} (h : s.core.Counted (· ≠ .dir))
    (hwatch : ∀ path recursive, operation ≠ .watch path recursive)
    (hunwatch : ∀ id, operation ≠ .unwatch id) (hwraps : ¬ WrapsAround s operation) :
    Logs s (operation.run clock s).state := by
  have htree : s.conn.Tree := h.rooted.tree
  by_cases hkeeps : operation.KeepsNames
  · exact logs_of_murmurs (hkeeps.murmurs clock) (hkeeps.view s clock)
  cases operation with
  | mkdir path mode => exact logs_answer (mkdir_logs clock htree path mode)
  | rmdir path => exact logs_answer (rmdir_logs clock htree path)
  | create path flags mode => exact logs_answer (create_logs clock htree path flags mode)
  | closeFd fd =>
    exact logs_answer (logs_of_murmurs (closeFd_murmurs fd) (closeFd_view h.rooted fd))
  | unlink path => exact logs_answer (unlink_logs clock h path hwraps)
  | symlink target path => exact logs_answer (symlink_logs clock htree target path)
  | link target linkPath => exact logs_answer (link_logs clock htree target linkPath)
  | rename src dst => exact logs_answer (rename_logs clock htree src dst)
  | watch path recursive => exact absurd rfl (hwatch path recursive)
  | unwatch id => exact absurd rfl (hunwatch id)
  | _ => exact absurd trivial hkeeps

end Names

/-! ### Watchers -/

namespace Registry

variable {reg : WatchRegistry} {slot : WatchSlot} {id : ℕ} {ev : Event} {evs : List Event}

/-- The slot with the number `id`. -/
def slotOf (reg : WatchRegistry) (id : ℕ) : Option WatchSlot :=
  reg.slots.find? fun slot => slot.id = id

/-- Numbers of slots are used once. -/
def Bounded (reg : WatchRegistry) : Prop := ∀ slot ∈ reg.slots, slot.id < reg.nextId

lemma slotOf_emit : slotOf (reg.emit ev) id = (slotOf reg id).map fun slot =>
    if matchesSlot slot ev then { slot with tx := slot.tx ++ [ev] } else slot := by
  unfold slotOf WatchRegistry.emit
  rw [List.find?_map]
  congr 2
  funext slot
  rw [Function.comp_apply]
  split_ifs <;> rfl

/-- A watcher of everything keeps its mirror up to date. -/
lemma slotOf_emits (hslot : slotOf reg id = some slot) (hall : slot.WatchesAll)
    (hevs : ∀ ev ∈ evs, ev.Received) :
    ∃ slot', slotOf (evs.foldl WatchRegistry.emit reg) id = some slot' ∧ slot'.WatchesAll ∧
      ∀ m : Mirror, slot'.tx.foldl Mirror.replay m
        = evs.foldl Mirror.replay (slot.tx.foldl Mirror.replay m) := by
  induction evs generalizing reg slot with
  | nil => exact ⟨slot, hslot, hall, fun _ => rfl⟩
  | cons ev evs ih =>
    obtain ⟨hev, hevs⟩ := List.forall_mem_cons.mp hevs
    have hnext : slotOf (reg.emit ev) id
        = some (if matchesSlot slot ev then { slot with tx := slot.tx ++ [ev] } else slot) := by
      rw [slotOf_emit, hslot]
      rfl
    split_ifs at hnext with hmatch
    · obtain ⟨slot', hslot', hall', hreplay⟩ := ih hnext hall hevs
      refine ⟨slot', hslot', hall', fun m => ?_⟩
      rw [hreplay, List.foldl_append]
      rfl
    · obtain ⟨slot', hslot', hall', hreplay⟩ := ih hnext hall hevs
      refine ⟨slot', hslot', hall', fun m => ?_⟩
      rw [hreplay, List.foldl_cons, replay_murmurs (hev.resolve_right fun h => hmatch (h slot hall))]

lemma Bounded.emits (h : Bounded reg) : Bounded (evs.foldl WatchRegistry.emit reg) := by
  induction evs generalizing reg with
  | nil => exact h
  | cons ev evs ih =>
    refine ih fun slot hslot => ?_
    obtain ⟨slot₀, hslot₀, rfl⟩ := List.mem_map.mp hslot
    have hid := h slot₀ hslot₀
    split_ifs <;> exact hid

lemma Bounded.subscribe (h : Bounded reg) (path : Str) (recursive : Bool) :
    Bounded (reg.subscribe path recursive).2 := by
  intro slot hslot
  rcases List.mem_append.mp hslot with hslot | hslot
  · exact Nat.lt_succ_of_lt (h slot hslot)
  · rw [List.mem_singleton.mp hslot]
    exact Nat.lt_succ_self _

lemma Bounded.drop (h : Bounded reg) (id : ℕ) : Bounded (reg.drop id) :=
  fun slot hslot => h slot (List.mem_filter.mp hslot).1

lemma slotOf_subscribe_new (h : Bounded reg) (path : Str) (recursive : Bool) :
    slotOf (reg.subscribe path recursive).2 reg.nextId
      = some ⟨reg.nextId, path, recursive, []⟩ := by
  unfold slotOf WatchRegistry.subscribe
  rw [List.find?_append, List.find?_eq_none.mpr]
  · simp
  · intro slot hslot
    have hid := h slot hslot
    simp only [decide_eq_true_eq]
    omega

lemma slotOf_subscribe (hslot : slotOf reg id = some slot) (path : Str) (recursive : Bool) :
    slotOf (reg.subscribe path recursive).2 id = some slot := by
  unfold slotOf WatchRegistry.subscribe at *
  rw [List.find?_append, hslot]
  rfl

lemma slotOf_drop {id' : ℕ} (hslot : slotOf reg id = some slot) (hne : id' ≠ id) :
    slotOf (reg.drop id') id = some slot := by
  unfold slotOf WatchRegistry.drop at *
  rw [List.find?_filter, ← hslot]
  congr 1
  funext x
  by_cases hx : x.id = id
  · simp [hx, hne.symm]
  · simp [hx]

end Registry

lemma asUser_watchers {α : Type} {user : Option (UInt32 × UInt32)} {p : Action α} :
    (asUser user p s).state.watchers = (p (s.actAs user)).state.watchers := by
  cases user <;> rfl

section Sends
variable (clock)

/-- `watch` refuses, or subscribes and does nothing else. -/
lemma watch_outcome (path : Str) (recursive : Bool) :
    Prog.RefusesOr (watch path recursive) s fun o =>
      o = ⟨.ok s.watchers.nextId,
        { s with watchers := (s.watchers.subscribe path recursive).2 }, []⟩ := by
  apply Prog.RefusesOr.bind_query
  intro ino _
  apply bind_getNode
  intro row _
  apply bind_require
  intro _
  apply Prog.RefusesOr.bind_query
  intro _ _
  exact .of_run rfl

/-- An operation that is no `watch` and no `unwatch` sends events and does nothing else to the
watchers. -/
lemma Op.sends {operation : Op} (h : s.core.Counted (· ≠ .dir))
    (hwatch : ∀ path recursive, operation ≠ .watch path recursive)
    (hunwatch : ∀ id, operation ≠ .unwatch id) :
    ∃ evs : List Event,
      (operation.run clock s).state.watchers = evs.foldl WatchRegistry.emit s.watchers := by
  by_cases hwraps : WrapsAround s operation
  · cases operation with
    | unlink path =>
      obtain ⟨e, row, hmay, hopen, hnames, hnot⟩ := hwraps
      have hrun := unlink_unlinks clock h hmay
      rw [Op.run, answer_apply]
      cases ho : Filesystem.unlink clock path s with
      | mk r s' l =>
      rw [ho] at hrun
      cases hrun with
      | keeps _ hkeeps => exact absurd ⟨hnames, hopen⟩ hkeeps
      | deletes _ _ hone _ => exact absurd hone hnot
      | fails _ _ _ _ => exact ⟨[], rfl⟩
    | _ => exact hwraps.elim
  · obtain ⟨evs, hevs, -⟩ := Op.logs clock h hwatch hunwatch hwraps
    exact ⟨evs, hevs⟩

lemma Op.watch_cases (operation : Op) :
    (∃ path recursive, operation = .watch path recursive) ∨ (∃ id, operation = .unwatch id) ∨
    ((∀ path recursive, operation ≠ .watch path recursive) ∧ ∀ id, operation ≠ .unwatch id) := by
  cases operation with
  | watch path recursive => exact Or.inl ⟨path, recursive, rfl⟩
  | unwatch id => exact Or.inr (Or.inl ⟨id, rfl⟩)
  | _ => exact Or.inr (Or.inr ⟨fun _ _ h => (nomatch h), fun _ h => (nomatch h)⟩)

lemma watch_state (path : Str) (recursive : Bool) :
    ((Op.watch path recursive).run clock s).state = s ∨
    ((Op.watch path recursive).run clock s).state
      = { s with watchers := (s.watchers.subscribe path recursive).2 } := by
  rw [Op.run, answer_apply]
  rcases watch_outcome (s := s) path recursive with ⟨x, hx⟩ | hrun
  · rw [hx]
    exact Or.inl rfl
  · rw [hrun]
    exact Or.inr rfl

end Sends

lemma counted_actAs {user : Option (UInt32 × UInt32)} (h : s.core.Counted (· ≠ .dir)) :
    (s.actAs user).core.Counted (· ≠ .dir) := by
  rw [actAs_core]
  exact h

/-- In every state of a run the numbers of the slots are used once. -/
lemma bounded_reachable (h : Reachable s) : Registry.Bounded s.watchers := by
  refine Run.invariant (P := fun s => Registry.Bounded s.watchers) ?_ ?_ h
  · rintro _ ⟨_, _, _, _, _, _, _, rfl⟩ slot hslot
    exact absurd hslot List.not_mem_nil
  · intro s call hrun _ hb
    cases call with
    | reopen readonly uid gid => exact fun slot hslot => absurd hslot List.not_mem_nil
    | op user clock operation =>
      rw [← actAs_watchers s user] at hb
      rw [exec_op, asUser_watchers]
      rcases operation.watch_cases with ⟨path, recursive, rfl⟩ | ⟨id, rfl⟩ | ⟨hwatch, hunwatch⟩
      · rcases watch_state clock path recursive with hsame | hsub
        · rw [hsame]
          exact hb
        · rw [hsub]
          exact hb.subscribe path recursive
      · exact hb.drop id
      · obtain ⟨evs, hevs⟩ := Op.sends clock (counted_actAs (files_counted hrun)) hwatch hunwatch
        rw [hevs]
        exact hb.emits

/-! ### The log -/

/-- The events that the watcher with the number `id` has received. -/
def received (s : Filesystem) (id : ℕ) : Option (List Event) :=
  (Registry.slotOf s.watchers id).map WatchSlot.tx

/-- What the watcher `id` has received by `s'` turns the map of `s` into that of `s'`. -/
def Faithful (s : Filesystem) (id : ℕ) (s' : Filesystem) : Prop :=
  ∃ evs, s'.received id = some evs ∧ evs.foldl Mirror.replay s.conn.view = s'.conn.view

/-- The call does not drop the watcher `id`. -/
def Call.Spares (id : ℕ) : Call → Prop
  | .op _ _ operation => operation ≠ .unwatch id
  | .reopen .. => False

/-- The call is an `unlink` for which the count wraps around. -/
def Call.Slips (s : Filesystem) : Call → Prop
  | .op user _ operation => WrapsAround (s.actAs user) operation
  | .reopen .. => False

/-- The watcher `id` watches everything and mirrors the map, starting from that of `s₀`. -/
def Mirrors (s₀ : Filesystem) (id : ℕ) (s : Filesystem) : Prop :=
  ∃ slot, Registry.slotOf s.watchers id = some slot ∧ slot.WatchesAll ∧
    slot.tx.foldl Mirror.replay s₀.conn.view = s.conn.view

lemma Mirrors.faithful {s₀ : Filesystem} {id : ℕ} (h : Mirrors s₀ id s) : Faithful s₀ id s := by
  obtain ⟨slot, hslot, -, hreplay⟩ := h
  exact ⟨slot.tx, congrArg (Option.map WatchSlot.tx) hslot, hreplay⟩

/-- A new watcher of everything has the map as it is. -/
lemma mirrors_watch (h : Registry.Bounded s.watchers) {user : Option (UInt32 × UInt32)} {id : ℕ}
    (hok : ((Call.op user clock (.watch ['/'] true)).outcome s).result = .ok (.slot id)) :
    Mirrors s id ((Call.op user clock (.watch ['/'] true)).exec s) := by
  rw [outcome_op, asUser_result, Op.run, answer_apply] at hok
  unfold Mirrors
  rw [exec_op, asUser_watchers, asUser_conn, Op.run, answer_apply]
  rcases watch_outcome (s := s.actAs user) ['/'] true with ⟨x, hx⟩ | hrun
  · rw [hx] at hok
    cases hok
  · rw [hrun] at hok ⊢
    obtain rfl := Reply.slot.inj (Except.ok.inj hok)
    rw [actAs_watchers] at *
    exact ⟨_, Registry.slotOf_subscribe_new h _ _, ⟨rfl, rfl⟩, congrArg Db.view (actAs_conn s user).symm⟩

/-- A call that does not drop the watcher and is no `unlink` for which the count wraps around keeps
the mirror up to date. -/
lemma Mirrors.exec {s₀ : Filesystem} {id : ℕ} {call : Call} (hm : Mirrors s₀ id s)
    (h : s.core.Counted (· ≠ .dir)) (hspares : call.Spares id) (hslips : ¬ call.Slips s) :
    Mirrors s₀ id (call.exec s) := by
  cases call with
  | reopen readonly uid gid => exact hspares.elim
  | op user clock operation =>
    obtain ⟨slot, hslot, hall, hreplay⟩ := hm
    unfold Mirrors
    rw [exec_op, asUser_watchers, asUser_conn]
    rw [← actAs_watchers s user] at hslot
    rw [← actAs_conn s user] at hreplay
    rcases operation.watch_cases with ⟨path, recursive, rfl⟩ | ⟨id', rfl⟩ | ⟨hwatch, hunwatch⟩
    · rcases watch_state clock path recursive with hsame | hsub
      · rw [hsame]
        exact ⟨slot, hslot, hall, hreplay⟩
      · rw [hsub]
        exact ⟨slot, Registry.slotOf_subscribe hslot path recursive, hall, hreplay⟩
    · refine ⟨slot, Registry.slotOf_drop hslot ?_, hall, hreplay⟩
      rintro rfl
      exact hspares rfl
    · obtain ⟨evs, hevs, hreceived, hview⟩ :=
        Op.logs clock (counted_actAs h) hwatch hunwatch hslips
      obtain ⟨slot', hslot', hall', hreplay'⟩ := Registry.slotOf_emits hslot hall hreceived
      rw [hevs]
      refine ⟨slot', hslot', hall', ?_⟩
      rw [hreplay', hreplay, hview]

/-- An `unlink` for which the count wraps around takes a name away and tells nobody. -/
lemma Mirrors.not_faithful {s₀ : Filesystem} {id : ℕ} {call : Call} (hm : Mirrors s₀ id s)
    (h : s.core.Counted (· ≠ .dir)) (hslips : call.Slips s) : ¬ Faithful s₀ id (call.exec s) := by
  cases call with
  | reopen readonly uid gid => exact hslips.elim
  | op user clock operation =>
    cases operation with
    | unlink path =>
      obtain ⟨e, row, hmay, hopen, hnames, hnot⟩ := hslips
      have hrun := unlink_unlinks clock (counted_actAs h) hmay
      have htree : s.conn.Tree := h.rooted.tree
      obtain ⟨slot, hslot, -, hreplay⟩ := hm
      have hstate : ((Call.op user clock (.unlink path)).exec s).watchers
            = (unlink clock path (s.actAs user)).state.watchers ∧
          ((Call.op user clock (.unlink path)).exec s).conn
            = (unlink clock path (s.actAs user)).state.conn := by
        rw [exec_op, asUser_watchers, asUser_conn, Op.run, answer_apply]
        exact ⟨rfl, rfl⟩
      rintro ⟨evs, hevs, hview⟩
      unfold received at hevs
      rw [hstate.1] at hevs
      rw [hstate.2] at hview
      cases ho : unlink clock path (s.actAs user) with
      | mk r s' l =>
      rw [ho] at hrun hevs hview
      cases hrun with
      | keeps _ hkeeps => exact hkeeps ⟨hnames, hopen⟩
      | deletes _ _ hone _ => exact hnot hone
      | @fails d n x hdrops _ _ _ =>
        rw [actAs_conn] at hdrops
        obtain ⟨l, -, hl⟩ := (resolveParentAndName_eq_ok htree).mp (actAs_conn s user ▸ hmay.resolved)
        have hevs' : (Registry.slotOf s.watchers id).map WatchSlot.tx = some evs := by
          rw [← actAs_watchers s user]
          exact hevs
        rw [hslot] at hevs'
        obtain rfl := Option.some.inj hevs'
        have herase : s.conn.view = erase s.conn.view (l ++ [e.name]) :=
          hreplay.symm.trans (hview.trans (hdrops.view htree hl))
        have hgone : s.conn.view (l ++ [e.name]) = none := by
          rw [herase]
          exact if_pos rfl
        have hkind := Nodes.kind_of_get hmay.node
        have hfollow := Db.follow_eq_some.mpr (hl.concat (actAs_conn s user ▸ hmay.entry))
        rw [actAs_conn] at hkind
        unfold Db.view Db.shown at hgone
        rw [hfollow, Option.bind_some, hkind] at hgone
        cases hgone
    | _ => exact hslips.elim

/-- Along every run after the subscription that has no `unlink` for which the count wraps around, the
events say how the map has changed. -/
theorem events_log_names {user : Option (UInt32 × UInt32)} {id : ℕ} (h : Reachable s)
    (hok : ((Call.op user clock (.watch ['/'] true)).outcome s).result = .ok (.slot id))
    (hrun : Run (· = (Call.op user clock (.watch ['/'] true)).exec s) Call.exec
      (fun s call => call.Spares id ∧ ¬ call.Slips s) s') : Faithful s id s' := by
  suffices Reachable s' ∧ Mirrors s id s' from this.2.faithful
  refine Run.invariant (P := fun s' => Reachable s' ∧ Mirrors s id s') ?_ ?_ hrun
  · rintro _ rfl
    exact ⟨.next h trivial, mirrors_watch (bounded_reachable h) hok⟩
  · rintro s₁ call - ⟨hspares, hslips⟩ ⟨hreach, hm⟩
    exact ⟨.next hreach trivial, hm.exec (files_counted hreach) hspares hslips⟩

theorem events_log_names_renamed : Faithful newFs 1
    ((Call.byRoot (.rename ['/', 'a'] ['/', 'b'])).exec
      ((Call.byRoot (.mkdir ['/', 'a'] 0o755)).exec
        ((Call.byRoot (.watch ['/'] true)).exec newFs))) :=
  events_log_names (.start fresh_newFs) (by decide +kernel)
    (.next (.next (.start rfl) ⟨fun hc => (nomatch hc), id⟩) ⟨fun hc => (nomatch hc), id⟩)

lemma Linked.watch_run {n : ℕ} (h : Linked n s) : watch ['/'] true s
    = ⟨.ok s.watchers.nextId, { s with watchers := (s.watchers.subscribe ['/'] true).2 }, []⟩ := by
  obtain ⟨r, hr, hrdir, hrmode⟩ := h.rootRow
  have hresolved : resolveToInode s.conn ['/'] = .ok ROOT_INODE := by
    have hparse : parsePath ['/'] = .ok [] := by decide
    unfold resolveToInode
    rw [hparse]
    rfl
  have hrow : Nodes.get s.conn ROOT_INODE = .ok r.read := Nodes.get_eq_ok.mpr ⟨r, hr, rfl⟩
  have hdir : r.read.kind = .dir := hrdir
  have haccess : requireAccess r.read.mode r.read.uid r.read.gid s.callerUid s.callerGid Access.R
      = .ok ⟨⟩ := by
    rw [requireAccess_eq_ok, h.byRoot]
    change checkAccess r.mode r.uid r.gid 0 s.callerGid _ = true
    rw [hrmode]
    rfl
  unfold watch
  rw [resolve_bind hresolved, getNode_bind hrow, require_bind hdir]
  exact ask_bind haccess

lemma Linked.watch {n : ℕ} (h : Linked n s) :
    ((Call.byRoot (.watch ['/'] true)).outcome s).result = .ok (.slot s.watchers.nextId) ∧
    Linked n ((Call.byRoot (.watch ['/'] true)).exec s) := by
  unfold Call.byRoot
  rw [outcome_op, exec_op, asUser_result]
  change ((Op.watch ['/'] true).run ⟨0, 0⟩ s).result = _ ∧
    Linked n ((Op.watch ['/'] true).run ⟨0, 0⟩ s).state
  rw [Op.run, answer_apply, h.watch_run]
  exact ⟨rfl, ⟨h.writable, h.byRoot, h.rootRow, h.fileRow, h.name, h.names, h.free, h.closed⟩⟩

lemma Linked.not_faithful {n : ℕ} (h : Linked n s) (hreach : Reachable s) (hwrap : n % 2 ^ 32 = 0)
    (hpos : n ≠ 0) : ∃ id,
    ((Call.byRoot (.watch ['/'] true)).outcome s).result = .ok (.slot id) ∧
    ¬ Faithful s id ((Call.byRoot (.unlink ['/', 'f'])).exec
      ((Call.byRoot (.watch ['/'] true)).exec s)) := by
  obtain ⟨hok, hafter⟩ := h.watch
  have hm := mirrors_watch (bounded_reachable hreach) hok
  have hreach' : Reachable ((Call.byRoot (.watch ['/'] true)).exec s) := .next hreach trivial
  exact ⟨_, hok, hm.not_faithful (files_counted hreach') (hafter.wrapsAround hwrap hpos)⟩

/-- With 2³² + 1 names, `unlink` takes one of them away and the watcher hears nothing. -/
theorem not_faithful_manyLinks : Reachable (manyLinks (2 ^ 32)) ∧ ∃ id,
    ((Call.byRoot (.watch ['/'] true)).outcome (manyLinks (2 ^ 32))).result = .ok (.slot id) ∧
    ¬ Faithful (manyLinks (2 ^ 32)) id ((Call.byRoot (.unlink ['/', 'f'])).exec
      ((Call.byRoot (.watch ['/'] true)).exec (manyLinks (2 ^ 32)))) := by
  have hreach := reachable_manyLinks (2 ^ 32)
  have hlinked := linked_manyLinks
    (Nat.pow_le_pow_right (n := 2) (by decide) (by decide : 32 ≤ linkDigits))
  exact ⟨hreach, hlinked.not_faithful hreach (Nat.mod_self _) (by decide)⟩

end Filesystem

end SqliteFs
