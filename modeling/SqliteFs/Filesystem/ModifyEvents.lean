import SqliteFs.Filesystem.EventLog
import SqliteFs.Filesystem.PathRoundTrip
import SqliteFs.Filesystem.WritePermission

/-!
# Which changes of contents are sent

A watcher of everything below the root is told of every write to a file that has a name, with a path
that leads to the file. It is not told of an `open` that truncates the file.
-/

namespace SqliteFs

open Txn

namespace Filesystem

variable {s s' : Filesystem} {user : Option (UInt32 × UInt32)} {clock : Clock} {operation : Op}
  {i id : ℕ} {slot : WatchSlot}

/-- From `s` to `s'`, the watcher `id` is sent an event that the file `i` is modified, with a path that
leads to the file. -/
def Told (s s' : Filesystem) (id i : ℕ) : Prop :=
  ∃ slot slot' evs ev, Registry.slotOf s.watchers id = some slot ∧
    Registry.slotOf s'.watchers id = some slot' ∧ slot'.tx = slot.tx ++ evs ∧ ev ∈ evs ∧
    ev.kind = .modify ∧ ev.inode = i ∧
    (ev.path.len ≤ PATH_MAX → resolveToInode s'.conn ev.path = .ok i)

/-- If the call returns and has changed the contents of a file that has a name afterwards, then the
watcher `id` is told. -/
def TellsChanges (s : Filesystem) (user : Option (UInt32 × UInt32)) (clock : Clock) (operation : Op)
    (id : ℕ) : Prop :=
  ∀ reply, ((Call.op user clock operation).outcome s).result = .ok reply →
    ∀ i, s.conn.kind i = some .file →
      (∃ e ∈ ((Call.op user clock operation).exec s).conn.entries, e.inode = i) →
      ¬ s.conn.SameFile ((Call.op user clock operation).exec s).conn i →
        Told s ((Call.op user clock operation).exec s) id i

/-- `open` is to truncate a file that has contents. -/
def TruncatesFile (s : Filesystem) : Op → Prop
  | .open_ path flags => s.chunkSize ≠ 0 ∧
      ∃ i row, MayTruncate s path flags i row ∧ row.kind = .file ∧ row.size ≠ 0
  | _ => False

/-! ### Writing -/

/-- `writeFd` sends an event if the inode has a path. -/
lemma writeFd_sends (fd offset : ℕ) (data : Bytes) : Prog.RefusesOr (writeFd clock fd offset data) s
    fun o => ∃ f, s.fdtable.entries.find? fd = some f ∧
      ∀ path, pathForInode o.state.conn f.inode = .ok (some path) → o.state.watchers
        = s.watchers.emit ⟨.modify, path, none, none, .file, f.inode, clock.event⟩ := by
  refine writeFd_rule fun f row newSize d₁ d hf _ _ => ?_
  refine ⟨fun x hx => ⟨f, hf, fun path hpath => ?_⟩, fun hnone => ⟨f, hf, fun path hpath => ?_⟩,
    fun path hsome => ⟨f, hf, fun path' hpath => ?_⟩⟩
  · cases hx.symm.trans hpath
  · cases hnone.symm.trans hpath
  · cases hsome.symm.trans hpath
    rfl

/-- What has a name has a path, which leads to it and lies below the root. -/
lemma exists_pathForInode (htree : s.conn.Tree) (hnames : s.conn.ValidNames)
    (hi : ∃ e ∈ s.conn.entries, e.inode = i) : ∃ path, pathForInode s.conn i = .ok (some path) ∧
      pathMatches path ['/'] true = true ∧
      (path.len ≤ PATH_MAX → resolveToInode s.conn path = .ok i) := by
  obtain ⟨e, he, hei⟩ := hi
  obtain ⟨o, ho⟩ := htree.pathForInode_ok i
  cases o with
  | none => exact absurd hei (pathForInode_eq_none htree ho e he)
  | some path =>
    obtain ⟨l, hl, rfl⟩ := (pathForInode_eq_some htree).mp ho
    have hvalid : ∀ c ∈ l, ValidName c := validName_of_leads hnames hl.leads
    refine ⟨_, ho, (pathMatches_slash ⟨_, rfl⟩).mpr fun hroot => ?_,
      resolveToInode_joinPath htree hnames hl.leads⟩
    obtain ⟨_, init, -, -, hconcat⟩ := hl
    rw [(joinPath_eq_root hvalid).mp hroot] at hconcat
    exact List.append_ne_nil_of_right_ne_nil init (List.cons_ne_nil _ _) hconcat.symm

lemma told_of_emit {ev : Event} (hslot : Registry.slotOf s.watchers id = some slot)
    (hwatchers : s'.watchers = s.watchers.emit ev) (hmatch : matchesSlot slot ev = true)
    (hkind : ev.kind = .modify) (hinode : ev.inode = i)
    (hpath : ev.path.len ≤ PATH_MAX → resolveToInode s'.conn ev.path = .ok i) : Told s s' id i := by
  refine ⟨slot, { slot with tx := slot.tx ++ [ev] }, [ev], ev, hslot, ?_, rfl,
    List.mem_singleton_self ev, hkind, hinode, hpath⟩
  rw [hwatchers, Registry.slotOf_emit, hslot, Option.map_some, if_pos hmatch]

/-- A watcher of everything is told of what is written to a file that has a name. -/
lemma told_of_writeFd (h : Reachable s) (hslot : Registry.slotOf s.watchers id = some slot)
    (hall : slot.WatchesAll) {fd offset : ℕ} {data : Bytes} {reply : Reply}
    (hok : ((Call.op user clock (.writeFd fd offset data)).outcome s).result = .ok reply)
    (hfd : WritesThroughFd (s.actAs user) i (.writeFd fd offset data))
    (hi : ∃ e ∈ ((Call.op user clock (.writeFd fd offset data)).exec s).conn.entries, e.inode = i) :
    Told s ((Call.op user clock (.writeFd fd offset data)).exec s) id i := by
  obtain ⟨f, hf, -, rfl⟩ := hfd
  have h' : Reachable ((Call.op user clock (.writeFd fd offset data)).exec s) := h.next trivial
  obtain ⟨path, hpath, hmatch, hresolve⟩ :=
    exists_pathForInode (rooted_runsTo h').tree (validNames_runsTo h') hi
  have hconn : ((Call.op user clock (.writeFd fd offset data)).exec s).conn
      = (writeFd clock fd offset data (s.actAs user)).state.conn := by
    rw [exec_op, asUser_conn, Op.run, answer_apply]
  have hwatchers : ((Call.op user clock (.writeFd fd offset data)).exec s).watchers
      = (writeFd clock fd offset data (s.actAs user)).state.watchers := by
    rw [exec_op, asUser_watchers, Op.run, answer_apply]
  rw [outcome_op, asUser_result, Op.run, answer_apply] at hok
  rcases writeFd_sends (s := s.actAs user) fd offset data with ⟨x, hx⟩ | ⟨f', hf', hsends⟩
  · rw [hx] at hok
    cases hok
  · obtain rfl : f = f' := Option.some.inj (hf.symm.trans hf')
    have hsent := hsends path (hconn ▸ hpath)
    rw [← hwatchers, actAs_watchers] at hsent
    refine told_of_emit hslot hsent ?_ rfl rfl hresolve
    unfold matchesSlot
    rw [hall.1, hall.2]
    simp [hmatch]

/-! ### Truncating -/

/-- What an `open` truncates has a name, before and after. -/
lemma named_of_truncates (htree : s.conn.Tree) {path : Str} {flags : Flags} {row : NodeRow} {d : Db}
    (hmay : MayTruncate s path flags i row) (hd : s.conn.Rewrites d i) :
    ∃ e ∈ d.entries, e.inode = i := by
  rw [hd.names.entries]
  refine (resolveToInode_named hmay.resolved).resolve_left ?_
  rintro rfl
  have hkind := htree.rootDir
  rw [Nodes.kind_of_get hmay.node] at hkind
  exact hmay.notDir (Option.some.inj hkind)

/-- No watcher is told of it. -/
lemma not_told (hwatchers : s'.watchers = s.watchers) : ¬ Told s s' id i := by
  rintro ⟨slot, slot', evs, ev, hslot, hslot', htx, hev, -⟩
  rw [hwatchers, hslot] at hslot'
  obtain rfl := Option.some.inj hslot'
  rw [List.self_eq_append_right.mp htx] at hev
  exact List.not_mem_nil hev

/-- In every reachable state, a watcher of everything is told of the contents that a call has changed,
exactly if the call does not truncate a file by opening it. -/
theorem tellsChanges_iff (h : Reachable s) (user : Option (UInt32 × UInt32)) (clock : Clock)
    (operation : Op) (hslot : Registry.slotOf s.watchers id = some slot) (hall : slot.WatchesAll) :
    TellsChanges s user clock operation id ↔ ¬ TruncatesFile (s.actAs user) operation := by
  constructor
  · intro htells htrunc
    cases operation with
    | open_ path flags =>
      obtain ⟨hchunk, i, row, hmay, hfile, hsize⟩ := htrunc
      obtain ⟨d, fd, t, hd, -, hrun⟩ := open_truncates clock hmay hsize hchunk
      obtain ⟨-, -, hdiff⟩ := open_changes clock hmay hsize hchunk
      have hkind := Nodes.kind_of_get hmay.node
      rw [actAs_conn, hfile] at hkind
      have hok : ((Call.op user clock (.open_ path flags)).outcome s).result = .ok (.fd fd) := by
        rw [outcome_op, asUser_result, Op.run, answer_apply, hrun]
        rfl
      have hconn : ((Call.op user clock (.open_ path flags)).exec s).conn = d := by
        rw [exec_op, asUser_conn, Op.run, answer_apply, hrun]
      have hwatchers : ((Call.op user clock (.open_ path flags)).exec s).watchers = s.watchers := by
        rw [exec_op, asUser_watchers, Op.run, answer_apply, hrun]
        exact actAs_watchers s user
      have htree : (s.actAs user).conn.Tree := by
        rw [actAs_conn]
        exact (rooted_runsTo h).tree
      have hnamed := named_of_truncates htree hmay hd
      rw [← hconn] at hnamed
      exact not_told hwatchers (htells _ hok i hkind hnamed hdiff)
    | _ => exact htrunc
  · intro hnot reply hok i hkind hi hdiff
    have hbounds : s.conn.SeqBounds := seqBounds_run (fun _ => seqBounds_fresh) h
    have h' : Reachable ((Call.op user clock operation).exec s) := h.next trivial
    have hnode' : ((Call.op user clock operation).exec s).conn.hasNode i = true := by
      obtain ⟨e, he, rfl⟩ := hi
      exact (rooted_runsTo h').tree.child e he
    rcases changes_cases clock hbounds (Db.hasNode_of_kind hkind) hnode' hdiff with
      hfd | ⟨path, flags, row, rfl, hmay, hsize, hchunk⟩
    · cases operation with
      | writeFd fd offset data => exact told_of_writeFd h hslot hall hok hfd hi
      | _ => exact hfd.elim
    · have hrow := Nodes.kind_of_get hmay.node
      rw [actAs_conn, hkind] at hrow
      exact absurd ⟨hchunk, i, row, hmay, (Option.some.inj hrow).symm, hsize⟩ hnot

/-- A file of root's with one byte in it, and a watcher of everything. -/
def watchedByte : Filesystem :=
  newFsAfter [.create ['/', 'f'] Libc.O_RDWR 0o644, .writeFd 1 0 [7], .watch ['/'] true]

theorem tellsChanges_iff_watchedByte : TellsChanges watchedByte none ⟨1, 1⟩ (.writeFd 1 0 [8]) 1 ↔
    ¬ TruncatesFile (watchedByte.actAs none) (.writeFd 1 0 [8]) := by
  have hslot : Registry.slotOf watchedByte.watchers 1 = some ⟨1, ['/'], true, []⟩ := by decide +kernel
  exact tellsChanges_iff (reachable_newFsAfter _) none ⟨1, 1⟩ (.writeFd 1 0 [8]) hslot ⟨rfl, rfl⟩

/-- The file is emptied by opening it, and the watcher is not told. -/
theorem not_tellsChanges_watchedByte : Reachable watchedByte ∧
    (∃ slot, Registry.slotOf watchedByte.watchers 1 = some slot ∧ slot.WatchesAll) ∧
    ¬ TellsChanges watchedByte none ⟨1, 1⟩ (.open_ ['/', 'f'] (Libc.O_WRONLY ||| Libc.O_TRUNC)) 1 := by
  have hslot : Registry.slotOf watchedByte.watchers 1 = some ⟨1, ['/'], true, []⟩ := by decide +kernel
  refine ⟨reachable_newFsAfter _, ⟨_, hslot, rfl, rfl⟩, fun htells => ?_⟩
  have hwatchers : ((Call.op none ⟨1, 1⟩ (.open_ ['/', 'f'] (Libc.O_WRONLY ||| Libc.O_TRUNC))).exec
      watchedByte).watchers = watchedByte.watchers := by decide +kernel
  refine not_told hwatchers (htells (.fd 2) (by decide +kernel) 2 (by decide +kernel)
    ⟨⟨1, ['f'], 2⟩, by decide +kernel, rfl⟩ fun hsame => ?_)
  have hsize : (((Call.op none ⟨1, 1⟩ (.open_ ['/', 'f'] (Libc.O_WRONLY ||| Libc.O_TRUNC))).exec
      watchedByte).conn.info 2).map NodeInfo.size ≠ (watchedByte.conn.info 2).map NodeInfo.size := by
    decide +kernel
  exact hsize hsame.size

end Filesystem

end SqliteFs
