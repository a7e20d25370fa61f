import SqliteFs.Filesystem.Outcomes

/-!
# Operations with a step after the commit

Five operations go on after they have committed or closed: the extended attribute operations
commit a second time for the ctime, `writeFd` looks up a path for its event, `unlink` and `closeFd`
delete the node that nothing refers to any more. For each of these there is the condition under
which it gets past its checks, and what it does then.
-/

namespace SqliteFs

open Txn

namespace Filesystem

/-! ### Extended attributes -/

section Xattr
variable {s : Filesystem} {clock : Clock} {path name : Str} {value : Bytes}
  {flags : Xattrs.XattrFlags} {ino : ℕ} {row : NodeRow} {d : Db}

/-- `setxattr` gets past its checks. -/
structure MaySetxattr (s : Filesystem) (path name : Str) (value : Bytes) (flags : Xattrs.XattrFlags)
    (ino : ℕ) (row : NodeRow) : Prop where
  writable : s.readonly = false
  resolved : resolveToInode s.conn path = .ok ino
  node : Nodes.get s.conn ino = .ok row
  access : requireAccess row.mode row.uid row.gid s.callerUid s.callerGid Access.W = .ok ()
  validName : Xattrs.validateName name s.callerUid = .ok ()
  validValue : Xattrs.validateValue value = .ok ()
  flags : ∃ exists_, Xattrs.checkFlags s.conn ino name flags = .ok exists_

/-- `removexattr` gets past its checks. -/
structure MayRemovexattr (s : Filesystem) (path name : Str) (ino : ℕ) (row : NodeRow) : Prop where
  writable : s.readonly = false
  resolved : resolveToInode s.conn path = .ok ino
  node : Nodes.get s.conn ino = .ok row
  access : requireAccess row.mode row.uid row.gid s.callerUid s.callerGid Access.W = .ok ()
  isSet : (s.conn.xattrs.find? (ino, name)).isSome

/-- The database once the ctime of `ino` is set. -/
def stamp (clock : Clock) (ino : ℕ) (d : Db) : Db :=
  d.updateNode ino (fun r => { r with ctimeNs := clock.now }) fun _ => rfl

lemma updateTimes_stamp :
    Nodes.updateTimes ino none none (some clock.now) d = .ok (⟨⟩, stamp clock ino d) := by
  rfl

lemma stamp_eq_self_iff {r : NodesRow} (hr : d.nodes.find? ino = some r) :
    stamp clock ino d = d ↔ r.ctimeNs = clock.now := by
  constructor
  · intro h
    have hrow : (stamp clock ino d).nodes.find? ino = some { r with ctimeNs := clock.now } := by
      unfold stamp Db.updateNode
      rw [KeyTable.find?_updateAt, if_pos rfl, hr]
      rfl
    rw [h, hr] at hrow
    exact congrArg NodesRow.ctimeNs (Option.some.inj hrow)
  · intro h
    unfold stamp Db.updateNode
    rw [KeyTable.updateAt_eq_self_of]
    intro x hx hkey
    obtain rfl : r = x := Option.some.inj (hr.symm.trans (KeyTable.find?_eq_some.mpr ⟨hx, hkey⟩))
    rw [← h]

lemma setxattr_may : Prog.RefusesOr (setxattr clock path name value flags) s
    fun _ => ∃ ino row, MaySetxattr s path name value flags ino row := by
  apply bind_requireWritable
  intro hw
  apply Prog.RefusesOr.bind_query
  intro ino hino
  apply bind_getNode
  intro row hrow
  apply Prog.RefusesOr.bind_query
  intro _ haccess
  apply Prog.RefusesOr.bind_query
  intro _ hname
  apply Prog.RefusesOr.bind_query
  intro _ hvalue
  apply bind_tx
  intro _ d _ hd
  obtain ⟨b, hb, -⟩ := Body.ask_bind_eq_ok.mp hd
  exact ⟨ino, row, hw, hino, hrow, haccess, hname, hvalue, b, hb⟩

/-- Both transactions of `setxattr` commit. -/
lemma setxattr_run (clock : Clock) (h : MaySetxattr s path name value flags ino row) :
    ∃ d, Xattrs.set ino name value flags s.conn = .ok (⟨⟩, d) ∧
      setxattr clock path name value flags s = ⟨.ok ⟨⟩,
        (emit clock .metadata path row.kind ino none none
          { s with conn := stamp clock ino d }).state, [d, stamp clock ino d]⟩ := by
  obtain ⟨d, hd⟩ := Xattrs.set_isOk value
    (Db.hasNode_of_kind (Nodes.kind_of_get h.node)) h.flags
  refine ⟨d, hd, ?_⟩
  unfold setxattr
  rw [requireWritable_bind h.writable, resolve_bind h.resolved, getNode_bind h.node,
    requireAccessTo_bind h.access, ask_bind h.validName, ask_bind h.validValue,
    tx_bind h.writable hd, tx_bind (s := { s with conn := d }) h.writable updateTimes_stamp]
  rfl

lemma removexattr_may : Prog.RefusesOr (removexattr clock path name) s
    fun _ => ∃ ino row, MayRemovexattr s path name ino row := by
  apply bind_requireWritable
  intro hw
  apply Prog.RefusesOr.bind_query
  intro ino hino
  apply bind_getNode
  intro row hrow
  apply Prog.RefusesOr.bind_query
  intro _ haccess
  apply bind_tx
  intro _ d _ hd
  exact ⟨ino, row, hw, hino, hrow, haccess, Xattrs.isSet_of_remove hd⟩

/-- Both transactions of `removexattr` commit. -/
lemma removexattr_run (h : MayRemovexattr s path name ino row) :
    removexattr clock path name s = ⟨.ok ⟨⟩,
      (emit clock .metadata path row.kind ino none none
        { s with conn := stamp clock ino (s.conn.deleteXattr ino name) }).state,
      [s.conn.deleteXattr ino name, stamp clock ino (s.conn.deleteXattr ino name)]⟩ := by
  unfold removexattr
  rw [requireWritable_bind h.writable, resolve_bind h.resolved, getNode_bind h.node,
    requireAccessTo_bind h.access, tx_bind h.writable (Xattrs.remove_isOk h.isSet),
    tx_bind (s := { s with conn := s.conn.deleteXattr ino name }) h.writable updateTimes_stamp]
  rfl

end Xattr

/-! ### The collector -/

section Collect
variable {s : Filesystem} {n i : ℕ} {d : Db}

lemma collect_kept (h : ¬ (n = 0 ∧ s.fdtable.openCount i = 0)) : collect n i s = ⟨.ok ⟨⟩, s, []⟩ := by
  unfold collect openCount
  rw [ask_bind (b := s.fdtable.openCount i) rfl, if_neg h]
  rfl

lemma collect_removed (hc : s.connReadonly = false) (hn : n = 0) (ho : s.fdtable.openCount i = 0)
    (hd : s.conn.deleteNode i = .ok d) : collect n i s = ⟨.ok ⟨⟩, { s with conn := d }, [d]⟩ := by
  unfold collect openCount
  rw [ask_bind (b := s.fdtable.openCount i) rfl, if_pos ⟨hn, ho⟩]
  exact tx_run_of_connReadonly (a := PUnit.unit) hc (stmt_eq_ok.mpr hd)

/-- The collector fails if it may not write, or if an entry still names the node. -/
lemma collect_failed (hn : n = 0) (ho : s.fdtable.openCount i = 0)
    (h : s.connReadonly = true ∨ ∃ e, s.conn.deleteNode i = .error e) :
    ∃ e, collect n i s = ⟨.error (.error (.sqlite e)), s, []⟩ := by
  unfold collect openCount
  rw [ask_bind (b := s.fdtable.openCount i) rfl, if_pos ⟨hn, ho⟩]
  cases hc : s.connReadonly with
  | true =>
    refine ⟨.readOnly, Prog.query_bind_error ?_⟩
    rw [hc]; rfl
  | false =>
    obtain ⟨e, he⟩ := h.resolve_left (by simp [hc])
    have hbody : Nodes.delete i (disk s) = .error (.error (.sqlite e)) := stmt_error he
    refine ⟨e, (tx_of_connReadonly hc).trans ?_⟩
    rw [Prog.transaction, hbody]

lemma exists_name_of_deleteNode_error {e : SqliteError} (h : d.deleteNode i = .error e) :
    ∃ x ∈ d.entries, x.parent ≠ i ∧ x.inode = i := by
  by_contra hall
  have hfree : ∀ x ∈ d.entries, x.parent ≠ i → x.inode ≠ i :=
    fun x hx hp hi => hall ⟨x, hx, hp, hi⟩
  obtain ⟨d', hd'⟩ := Db.deleteNode_isOk hfree
  rw [h] at hd'
  cases hd'

/-- What the collector leaves. -/
lemma collect_collects (hnode : s.conn.hasNode i = true) : ∃ d,
    s.conn.Collects s.connReadonly s.fdtable n i d ∧ (collect n i s).state = { s with conn := d } := by
  by_cases hz : n = 0 ∧ s.fdtable.openCount i = 0
  · obtain ⟨hn, ho⟩ := hz
    by_cases hc : s.connReadonly = false
    · cases hd : s.conn.deleteNode i with
      | ok d =>
        refine ⟨d, .removed hc hn ho (Db.removesNode_of_deleteNode hnode hd), ?_⟩
        rw [collect_removed hc hn ho hd]
      | error e =>
        obtain ⟨x, hx, -, hxi⟩ := exists_name_of_deleteNode_error hd
        obtain ⟨e', he'⟩ := collect_failed hn ho (Or.inr ⟨e, hd⟩)
        refine ⟨s.conn, .kept (Or.inr (Or.inr (Or.inr ⟨x, hx, hxi⟩))), ?_⟩
        rw [he']
    · have hro : s.connReadonly = true := by simpa using hc
      obtain ⟨e', he'⟩ := collect_failed (i := i) hn ho (Or.inl hro)
      refine ⟨s.conn, .kept (Or.inr (Or.inr (Or.inl hro))), ?_⟩
      rw [he']
  · refine ⟨s.conn, .kept ((not_and_or.mp hz).imp_right Or.inl), ?_⟩
    rw [collect_kept hz]

end Collect

/-! ### Closing a descriptor -/

section CloseFd
variable {s : Filesystem} {fd : ℕ} {e : FdEntry}

/-- The state in which `closeFd` looks at the node of the descriptor `e`. -/
def closed (s : Filesystem) (e : FdEntry) : Filesystem :=
  { s with
    fdtable := (s.fdtable.close e.fd).2
    locks := s.locks.onFdClose e.inode e.fd 0 }

lemma closeFd_unknown (h : s.fdtable.entries.find? fd = none) :
    closeFd fd s = ⟨err (FdTable.unknownFd fd), s, []⟩ := by
  refine Prog.bind_apply_error ?_
  simp only [Prog.volatile, FdTable.close, h]
  rfl

lemma closeFd_open (h : s.fdtable.entries.find? fd = some e) :
    closeFd fd s = (getNode e.inode >>= fun row => collect row.nlink e.inode) (closed s e) := by
  obtain rfl : e.fd = fd := (KeyTable.find?_eq_some.mp h).2
  refine (Prog.volatile_bind_ok (a := e.inode) ?_).trans ?_
  · simp only [FdTable.close, h]
  · exact Prog.volatile_bind_ok rfl

lemma closeFd_effect (s : Filesystem) (fd : ℕ) :
    (closeFd fd s).state = s ∨ Effect s.core (.closes fd) (closeFd fd s).state.core := by
  cases h : s.fdtable.entries.find? fd with
  | none =>
    rw [closeFd_unknown h]
    exact Or.inl rfl
  | some e =>
    obtain rfl : e.fd = fd := (KeyTable.find?_eq_some.mp h).2
    rw [closeFd_open h]
    cases hrow : Nodes.get s.conn e.inode with
    | error x =>
      have hnode : s.conn.hasNode e.inode = false := by
        by_contra hn
        obtain ⟨r, hr⟩ := Option.isSome_iff_exists.mp (Bool.not_eq_false _ ▸ hn)
        rw [Nodes.get_eq_ok.mpr ⟨r, hr, rfl⟩] at hrow
        cases hrow
      have hrun : (getNode e.inode >>= fun row => collect row.nlink e.inode) (closed s e)
          = ⟨.error x, closed s e, []⟩ := Prog.query_bind_error hrow
      rw [hrun]
      exact Or.inr (.closes h (Or.inl ⟨hnode, rfl⟩))
    | ok row =>
      have hrun : (getNode e.inode >>= fun row => collect row.nlink e.inode) (closed s e)
          = collect row.nlink e.inode (closed s e) := getNode_bind hrow
      obtain ⟨m, hm, -, -, hnlink, -⟩ := Nodes.info_of_get hrow
      have hnode : (closed s e).conn.hasNode e.inode = true := Db.hasNode_iff.mpr ⟨m, hm⟩
      obtain ⟨d, hd, hstate⟩ := collect_collects (n := row.nlink) hnode
      rw [hrun, hstate]
      rw [hnlink] at hd
      exact Or.inr (.closes h (Or.inr ⟨m, hm, hd⟩))

end CloseFd

/-! ### unlink -/

section Unlink
variable {s : Filesystem} {clock : Clock} {path : Str} {e : EntryRow} {row : NodeRow} {n : ℕ}
  {d : Db}

/-- `unlink` gets past its checks, with the entry `e` of a node that says `row`. -/
structure MayUnlink (s : Filesystem) (path : Str) (e : EntryRow) (row : NodeRow) : Prop where
  writable : s.readonly = false
  resolved : resolveParentAndName s.conn path = .ok (e.parent, e.name)
  entry : e ∈ s.conn.entries
  node : Nodes.get s.conn e.inode = .ok row
  notDir : row.kind ≠ .dir
  access : MayChange s e.parent

lemma unlink_may : Prog.RefusesOr (unlink clock path) s fun _ => ∃ e row, MayUnlink s path e row := by
  apply bind_requireWritable
  intro hw
  apply Prog.RefusesOr.bind_query
  rintro ⟨parent, name⟩ hparent
  apply Prog.RefusesOr.bind_query
  intro e he
  obtain ⟨hmem, rfl, rfl⟩ := Entries.get_eq_ok.mp he
  apply bind_getNode
  intro row hrow
  apply bind_require
  intro hdir
  apply bind_getNode
  intro parentRow hprow
  apply Prog.RefusesOr.bind_query
  intro _ haccess
  apply bind_tx
  intro _ _ _ _
  exact ⟨e, row, hw, hparent, hmem, hrow, hdir, parentRow, hprow, haccess⟩

/-- The transaction of `unlink` commits, and the collector comes next. -/
lemma unlink_run (clock : Clock) (h : MayUnlink s path e row) : ∃ n d, s.conn.Drops d e n ∧
    ∃ o, o = (collect n e.inode >>= fun _ =>
        emit clock .remove path row.kind e.inode none none) { s with conn := d } ∧
      unlink clock path s = ⟨o.result, o.state, d :: o.commits⟩ := by
  obtain ⟨parentRow, hprow, haccess⟩ := h.access
  have hkind : s.conn.kind e.inode = some row.kind := Nodes.kind_of_get h.node
  have hnode : (s.conn.deleteEntry e.parent e.name).hasNode e.inode = true :=
    Db.hasNode_of_kind (d := s.conn) hkind
  obtain ⟨n, d₁, hnlink⟩ := Nodes.changeNlink_isOk hnode (-1) clock.now
  obtain ⟨hadj, m, hm, hn⟩ := Nodes.changeNlink_ok hnlink
  have htimes : ∃ d₂, Nodes.updateTimes e.parent none (some clock.now) (some clock.now) d₁
      = .ok (⟨⟩, d₂) := ⟨_, rfl⟩
  obtain ⟨d₂, htimes⟩ := htimes
  have hdrops : s.conn.Drops d₂ e n :=
    ⟨h.entry, ⟨_, hkind, h.notDir⟩, (hadj.trans (Nodes.updateTimes_ok htimes)).congr (add_zero _),
      m, hm, hn⟩
  refine ⟨n, d₂, hdrops, _, rfl, ?_⟩
  unfold unlink
  rw [requireWritable_bind h.writable, resolveParent_bind h.resolved]
  refine (ask_bind (Entries.get_eq_ok.mpr ⟨h.entry, rfl, rfl⟩)).trans ?_
  rw [getNode_bind h.node, require_bind h.notDir, getNode_bind hprow, requireAccessTo_bind haccess]
  refine tx_bind h.writable ?_
  refine Body.bind_eq_ok.mpr ⟨⟨⟩, _, update_eq_ok.mpr rfl, ?_⟩
  refine Body.bind_eq_ok.mpr ⟨n, d₁, hnlink, ?_⟩
  exact Body.bind_eq_ok.mpr ⟨⟨⟩, d₂, htimes, Body.pure_eq_ok.mpr ⟨rfl, rfl⟩⟩

lemma unlink_effect (s : Filesystem) (clock : Clock) (path : Str) :
    Effect s.core .plain (unlink clock path s).state.core := by
  rcases unlink_may with ⟨x, hx⟩ | ⟨e, row, h⟩
  · rw [hx]
    exact effect_refl s
  obtain ⟨n, d₁, hdrops, o, ho, hrun⟩ := unlink_run clock h
  obtain ⟨d, hd, hstate⟩ := collect_collects (s := { s with conn := d₁ }) (n := n) hdrops.hasNode
  have hcore : o.state.core = { s.core with conn := d } := by
    rw [ho]
    cases hc : collect n e.inode { s with conn := d₁ } with
    | mk r s' l =>
      rw [hc] at hstate
      dsimp only at hstate
      cases r with
      | error x => rw [Prog.bind_apply_error hc, hstate]; rfl
      | ok a => rw [Prog.bind_apply_ok hc, hstate]; rfl
  rw [hrun, hcore]
  exact .unlinks (connReadonly_eq_false h.writable) hdrops hd

end Unlink

/-! ### writeFd -/

section WriteFd
variable {s : Filesystem} {clock : Clock} {fd offset : ℕ} {data : Bytes}

lemma pathForInode_error {d : Db} {i : ℕ} {x : Halt} (h : pathForInode d i = .error x) :
    x = .diverge := by
  have hloop : ∀ (fuel parent : ℕ) (parts : List Str), pathLoop d fuel parent parts = .error x →
      x = .diverge := by
    intro fuel
    induction fuel with
    | zero =>
      intro _ _ h
      cases h
      rfl
    | succ fuel ih =>
      intro parent parts h
      rw [pathLoop] at h
      split_ifs at h
      split at h
      · exact ih _ _ h
      · cases h
  unfold pathForInode at h
  split at h
  · exact hloop _ _ _ h
  · cases h

/-- Where `writeFd` does not refuse, it has put `d` in place; the way up from its inode fails, has no
end, or is the path of its event. -/
lemma writeFd_rule {Q : Outcome Filesystem Db Halt ℕ → Prop}
    (h : ∀ (f : FdEntry) (row : NodeRow) (newSize : ℕ) (d₁ d : Db),
      s.fdtable.entries.find? fd = some f →
      Blobs.writeRange f.inode data offset row.size s.chunkSize s.conn = .ok (newSize, d₁) →
      Nodes.updateSize f.inode newSize clock.now clock.now d₁ = .ok (⟨⟩, d) →
      (∀ x, pathForInode d f.inode = .error x → Q ⟨.error x, { s with conn := d }, [d]⟩) ∧
      (pathForInode d f.inode = .ok none → Q ⟨.ok newSize, { s with conn := d }, [d]⟩) ∧
      ∀ path, pathForInode d f.inode = .ok (some path) → Q ⟨.ok newSize,
        s.announce d ⟨.modify, path, none, none, .file, f.inode, clock.event⟩, [d]⟩) :
    Prog.RefusesOr (writeFd clock fd offset data) s Q := by
  apply bind_requireWritable
  intro _
  apply Prog.RefusesOr.bind_query
  intro f hf
  apply bind_require
  intro _
  apply bind_getNode
  intro row _
  apply Prog.RefusesOr.bind_query
  intro chunkSize hchunk
  cases hchunk
  apply bind_tx
  intro newSize d _ hd
  obtain ⟨n, d₁, hwrite, hd⟩ := Body.bind_eq_ok.mp hd
  obtain ⟨_, d₂, hsize, hd⟩ := Body.bind_eq_ok.mp hd
  obtain ⟨rfl, rfl⟩ := Body.pure_eq_ok.mp hd
  obtain ⟨herror, hnone, hsome⟩ := h f row newSize d₁ d (FdTable.get_eq_ok.mp hf) hwrite hsize
  cases hp : pathForInode d f.inode with
  | error x =>
    have hrun : ∀ k : Option Str → Action ℕ,
        (ask (fun s => pathForInode s.conn f.inode) >>= k) { s with conn := d }
          = ⟨.error x, { s with conn := d }, []⟩ := fun k => Prog.query_bind_error hp
    rw [hrun]
    exact herror x hp
  | ok p =>
    have hrun : ∀ k : Option Str → Action ℕ,
        (ask (fun s => pathForInode s.conn f.inode) >>= k) { s with conn := d }
          = k p { s with conn := d } := fun k => ask_bind hp
    rw [hrun]
    cases p with
    | none => exact hnone hp
    | some path => exact hsome path hp

/-- `writeFd` commits once; it returns if the way up from its inode ends. -/
lemma writeFd_outcome : Prog.RefusesOr (writeFd clock fd offset data) s fun o =>
    ∃ e d, s.fdtable.entries.find? fd = some e ∧ s.conn.Rewrites d e.inode ∧
      o.commits = [d] ∧ o.state.core = { s.core with conn := d } ∧
      ((∃ a, o.result = .ok a) ∨
        o.result = .error .diverge ∧ pathForInode d e.inode = .error .diverge) := by
  refine writeFd_rule fun e row newSize d₁ d he hwrite hsize => ?_
  have hrewrites : s.conn.Rewrites d e.inode :=
    (Blobs.writeRange_changes hwrite).rewrites.trans (Nodes.updateSize_ok hsize)
  refine ⟨fun x hx => ?_, fun _ => ?_, fun path _ => ?_⟩
  · obtain rfl : x = .diverge := pathForInode_error hx
    exact ⟨e, d, he, hrewrites, rfl, rfl, Or.inr ⟨rfl, hx⟩⟩
  · exact ⟨e, d, he, hrewrites, rfl, rfl, Or.inl ⟨_, rfl⟩⟩
  · exact ⟨e, d, he, hrewrites, rfl, rfl, Or.inl ⟨_, rfl⟩⟩

end WriteFd

end Filesystem

end SqliteFs
