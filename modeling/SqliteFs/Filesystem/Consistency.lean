import SqliteFs.Filesystem.Identity
import SqliteFs.Filesystem.LinkCounts
import SqliteFs.Fsck

/-!
# What the consistency check finds

The operations keep the tables of the database together, whatever is done, so that `runFsck` finds no
row without its node, no entry without its ends and no cycle. All that it may find are link counts of
directories, and it finds none as long as no directory is replaced by another one.
-/

namespace SqliteFs

open Txn Relation

namespace Db

variable {d d' : Db} {i : ℕ}

/-- The columns of the tables that the consistency check reads. -/
def fsckContents (d : Db) : Fsck.Contents where
  nodes := d.nodes.mapKeys (fun r => ⟨r.inode, r.kind, r.nlink⟩) Int.ofNat Int.ofNat_injective
    fun _ => rfl
  entries := d.entries.mapKeys (fun e => ⟨e.parent, e.name, e.inode⟩) (Prod.map Int.ofNat id)
    (Int.ofNat_injective.prodMap Function.injective_id) fun _ => rfl
  blobs := d.blobs.mapKeys (fun b => ⟨b.inode, b.chunkId⟩) (Prod.map Int.ofNat id)
    (Int.ofNat_injective.prodMap Function.injective_id) fun _ => rfl
  xattrs := d.xattrs.mapKeys (fun x => ⟨x.inode, x.name⟩) (Prod.map Int.ofNat id)
    (Int.ofNat_injective.prodMap Function.injective_id) fun _ => rfl
  symlinks := d.symlinks.mapKeys (fun l => ⟨l.inode⟩) Int.ofNat Int.ofNat_injective fun _ => rfl

/-! ### The tables as the check reads them -/

section Contents
variable {r : NodesRow} {k : ℕ} {j : ℕ} {a : ℤ}

lemma fsck_node (d : Db) (i : ℕ) :
    d.fsckContents.nodes.find? (i : ℤ) = (d.nodes.find? i).map fun r => ⟨r.inode, r.kind, r.nlink⟩ :=
  KeyTable.find?_mapKeys _ Int.ofNat Int.ofNat_injective (fun _ => rfl) d.nodes i

lemma mem_fsck_entries {x : Fsck.EntryCols} : x ∈ d.fsckContents.entries ↔
    ∃ e ∈ d.entries, ⟨e.parent, e.name, e.inode⟩ = x :=
  List.mem_map

lemma fsck_hasNode : Fsck.HasNode d.fsckContents i ↔ d.hasNode i = true := by
  have hfind : Fsck.HasNode d.fsckContents i ↔ (d.fsckContents.nodes.find? (i : ℤ)).isSome :=
    KeyTable.find?_isSome.symm
  rw [hfind, fsck_node, Option.isSome_map]
  rfl

lemma fsck_kind (d : Db) (i : ℕ) :
    (d.fsckContents.nodes.find? (i : ℤ)).map Fsck.NodeCols.kind = d.kind i := by
  rw [fsck_node, Option.map_map, kind, info, Option.map_map]
  rfl

lemma fsck_count (d : Db) (p : Fsck.EntryCols → Bool) :
    d.fsckContents.entries.count p = d.entries.count fun e => p ⟨e.parent, e.name, e.inode⟩ :=
  List.countP_map

lemma fsck_subdirs (d : Db) (i : ℕ) : Fsck.subdirs d.fsckContents i
    = d.entries.count fun e => e.parent = i ∧ d.kind e.inode = some .dir := by
  unfold Fsck.subdirs
  rw [fsck_count]
  congr 1
  funext e
  refine decide_eq_decide.mpr ?_
  rw [fsck_kind, Int.natCast_inj]

/-- Parent links that the check follows lead up the tree. -/
lemma transGen_of_above : ∀ {k i : ℕ} {a : ℤ}, Fsck.Above d.fsckContents (k + 1) i a →
    ∃ j : ℕ, a = j ∧ TransGen d.Up i j := by
  intro k
  induction k with
  | zero =>
    rintro i a ⟨_, he, hi, ha⟩
    obtain ⟨e, hmem, rfl⟩ := mem_fsck_entries.mp he
    exact ⟨e.parent, ha.symm, .single ⟨e, hmem, Int.natCast_inj.mp hi, rfl⟩⟩
  | succ k ih =>
    rintro i a ⟨_, he, hi, habove⟩
    obtain ⟨e, hmem, rfl⟩ := mem_fsck_entries.mp he
    obtain ⟨j, ha, hj⟩ := ih habove
    exact ⟨j, ha, .head ⟨e, hmem, Int.natCast_inj.mp hi, rfl⟩ hj⟩

/-! ### The checks -/

lemma fsck_orphans (h : d.Owned) : Fsck.checkOrphanBlobs d.fsckContents = [] ∧
    Fsck.checkOrphanXattrs d.fsckContents = [] := by
  rw [Fsck.checkOrphanBlobs_eq_nil, Fsck.checkOrphanXattrs_eq_nil]
  refine ⟨fun x hx => ?_, fun x hx => ?_⟩
  · obtain ⟨b, hb, rfl⟩ := List.mem_map.mp hx
    exact fsck_hasNode.mpr (h.blobs b hb)
  · obtain ⟨b, hb, rfl⟩ := List.mem_map.mp hx
    exact fsck_hasNode.mpr (h.xattrs b hb)

/-- Every symbolic link has a target. -/
def Targeted (d : Db) : Prop := ∀ i, d.kind i = some .symlink → ∃ l ∈ d.symlinks, l.inode = i

lemma fsck_symlinks (h : d.Owned) (htargets : d.Targeted) :
    Fsck.checkOrphanSymlinks d.fsckContents = [] := by
  rw [Fsck.checkOrphanSymlinks_eq_nil]
  refine ⟨fun x hx => ?_, fun x hx hkind => ?_⟩
  · obtain ⟨l, hl, rfl⟩ := List.mem_map.mp hx
    exact fsck_hasNode.mpr (h.symlinks l hl)
  · obtain ⟨r, hr, rfl⟩ := List.mem_map.mp hx
    have hkind' : d.kind r.inode = some .symlink :=
      (kind_of_info (info_of_find? (KeyTable.find?_key hr))).trans (congrArg some hkind)
    obtain ⟨l, hl, hli⟩ := htargets r.inode hkind'
    exact ⟨_, List.mem_map_of_mem hl, congrArg Int.ofNat hli⟩

lemma fsck_entries (h : d.Tree) : Fsck.checkDanglingEntries d.fsckContents = [] ∧
    Fsck.checkCycles d.fsckContents = [] := by
  rw [Fsck.checkDanglingEntries_eq_nil, Fsck.checkCycles_eq_nil]
  refine ⟨⟨fun x hx => ?_, fun x hx => ?_⟩, fun i k hk _ habove => ?_⟩
  · obtain ⟨e, he, rfl⟩ := mem_fsck_entries.mp hx
    exact fsck_hasNode.mpr (hasNode_of_kind (h.parentDir e he))
  · obtain ⟨e, he, rfl⟩ := mem_fsck_entries.mp hx
    exact fsck_hasNode.mpr (h.child e he)
  · obtain ⟨k, rfl⟩ := Nat.exists_eq_succ_of_ne_zero hk.ne'
    obtain ⟨x, hx, rfl, -⟩ := id habove
    obtain ⟨e, he, rfl⟩ := mem_fsck_entries.mp hx
    obtain ⟨j, hj, hup⟩ := transGen_of_above habove
    obtain rfl : e.inode = j := Int.natCast_inj.mp hj
    exact h.acyclic _ hup

/-- Counts are compared as 32-bit numbers: if one is exact, it is as expected, however large. -/
lemma expected_of_exact {r : NodesRow} (h : r.nlink = d.linkCount r.inode .dir) :
    U32.ofI64 r.nlink = Fsck.expected (Fsck.subdirs d.fsckContents r.inode) := by
  have hlinks : r.nlink = 2 + (Fsck.subdirs d.fsckContents r.inode : ℕ) := by
    rw [h, fsck_subdirs]
    rfl
  rw [hlinks]
  unfold Fsck.expected U32.ofI64
  omega

end Contents

/-! ### Targets -/

/-- A statement that makes no symbolic link leaves each of them its target. -/
lemma Targeted.does {st : Statement} (h : d.Targeted) (hst : st.Does d d')
    (hnew : ∀ row, st = .insertNode row → row.kind ≠ .symlink) : d'.Targeted := by
  intro i hi
  have hnode' : d'.hasNode i = true := hasNode_of_kind hi
  obtain ⟨r', hr'⟩ := Option.isSome_iff_exists.mp hnode'
  rw [kind_of_info (info_of_find? hr'), Option.some.injEq] at hi
  rcases hst.find?_nodes hr' with ⟨hrow, -, -⟩ | ⟨r, hr, hfrom⟩
  · exact absurd hi (hnew r' hrow)
  · have hkind : d.kind i = some .symlink := by
      rw [kind_of_info (info_of_find? hr)]
      exact congrArg some (hfrom.kind.symm.trans hi)
    obtain ⟨l, hl, rfl⟩ := h i hkind
    refine ⟨l, (hst.mem_symlinks_of_mem hl).resolve_right ?_, rfl⟩
    rw [hnode']
    decide

end Db

namespace Filesystem

variable {s : Filesystem}

/-- `symlink` makes the node and its target in one transaction. -/
lemma symlink_targeted (hreach : Reachable s) (h : s.conn.Targeted) (user : Option (UInt32 × UInt32))
    (clock : Clock) (target : Bytes) (path : Str) :
    ((Call.op user clock (.symlink target path)).exec s).conn.Targeted := by
  intro i hi
  have hlive := Db.hasNode_of_kind hi
  have hkeeps (hkind : s.conn.kind i = some .symlink) :
      ∃ l ∈ ((Call.op user clock (.symlink target path)).exec s).conn.symlinks, l.inode = i := by
    obtain ⟨l, hl, hli⟩ := h i hkind
    have hseen : i ≤ s.conn.nodesSeq :=
      seqBounds_run (fun _ => seqBounds_fresh) hreach i (Db.hasNode_of_kind hkind)
    exact ⟨l, symlink_of_run (.next (.start rfl) trivial) hseen hl hli hlive, hli⟩
  have hlinks : Prog.RefusesOr (symlink clock target path) (s.actAs user) _ := symlink_links
  have hconn : ((Call.op user clock (.symlink target path)).exec s).conn
      = (symlink clock target path (s.actAs user)).state.conn := by
    rw [exec_op, asUser_conn, Op.run, answer_apply]
  rcases hlinks with ⟨x, hx⟩ | ⟨e, -, hattaches, hrow⟩
  · rw [hconn, hx, actAs_conn] at hi
    exact hkeeps hi
  · rw [← hconn, actAs_conn] at hattaches
    rw [hattaches.kind] at hi
    split_ifs at hi with hie
    · rw [← hconn] at hrow
      exact ⟨_, hrow, hie.symm⟩
    · exact hkeeps hi

lemma targeted_runsTo (h : Reachable s) : s.conn.Targeted := by
  refine Run.invariant (P := fun s => s.conn.Targeted) ?_ ?_ h
  · intro s hs i hi
    exact KeyTable.find?_isSome.mp ((kindInvariant_fresh hs).rows.targets i id hi)
  · intro s call hrun _ hs
    cases call with
    | reopen => exact hs
    | op user clock operation =>
      by_cases hop : ∃ target path, operation = .symlink target path
      · obtain ⟨target, path, rfl⟩ := hop
        exact symlink_targeted hrun hs user clock target path
      · refine (Call.writes user clock operation s).keeps (fun st d d' hst hdoes hd => ?_) hs
        refine hd.does hdoes ?_
        rintro row rfl hkind
        cases operation with
        | mkdir => exact absurd (hst.kind.symm.trans hkind) (by decide)
        | create => exact absurd (hst.kind.symm.trans hkind) (by decide)
        | symlink target path => exact hop ⟨target, path, rfl⟩
        | _ => exact hst.elim

lemma fsck_issues (h : Reachable s) (integ : Str) :
    (Fsck.runFsck integ s.conn.fsckContents).issues = Fsck.checkNlink s.conn.fsckContents := by
  have howned : s.conn.Owned := owned_runsTo h
  have htree : s.conn.Tree := (rooted_runsTo h).tree
  unfold Fsck.runFsck
  dsimp only
  rw [(Db.fsck_orphans howned).1, (Db.fsck_orphans howned).2,
    Db.fsck_symlinks howned (targeted_runsTo h), (Db.fsck_entries htree).1, (Db.fsck_entries htree).2]
  rfl

/-- In a reachable state every row belongs to a node, every symbolic link has a target and the entries
are a tree, so that all that `runFsck` can find are directories whose link count is wrong. -/
theorem fsck_reachable (h : Reachable s) (integ : Str) :
    s.conn.Owned ∧ s.conn.Targeted ∧ s.conn.Tree ∧
    ∀ issue ∈ (Fsck.runFsck integ s.conn.fsckContents).issues, issue.kind = .nlinkMismatch ∧
      ∃ (i : ℕ) (n : NodeInfo), issue.inode = some (U64.ofI64 i) ∧ s.conn.info i = some n ∧ n.kind = .dir ∧
        n.nlink ≠ s.conn.linkCount i .dir := by
  refine ⟨owned_runsTo h, targeted_runsTo h, (rooted_runsTo h).tree, fun issue hissue => ?_⟩
  rw [fsck_issues h] at hissue
  obtain ⟨x, hx, rfl⟩ := List.mem_map.mp hissue
  obtain ⟨hmem, hwrong⟩ := KeyTable.mem_select.mp hx
  obtain ⟨r, hr, rfl⟩ := List.mem_map.mp hmem
  obtain ⟨hdir, hne⟩ := of_decide_eq_true hwrong
  exact ⟨rfl, r.inode, _, rfl, Db.info_of_find? (KeyTable.find?_key hr), hdir,
    fun hexact => hne (Db.expected_of_exact hexact)⟩

theorem fsck_reachable_overDir : overDir.conn.Owned ∧ overDir.conn.Targeted ∧ overDir.conn.Tree ∧
    ∃ issue ∈ (Fsck.runFsck ['o', 'k'] overDir.conn.fsckContents).issues, issue.kind = .nlinkMismatch ∧
      ∃ (i : ℕ) (n : NodeInfo), issue.inode = some (U64.ofI64 i) ∧ overDir.conn.info i = some n ∧
        n.kind = .dir ∧ n.nlink ≠ overDir.conn.linkCount i .dir := by
  have hfound : (Fsck.runFsck ['o', 'k'] overDir.conn.fsckContents).issues ≠ [] := by decide +kernel
  obtain ⟨issue, hissue⟩ := List.exists_mem_of_ne_nil _ hfound
  obtain ⟨howned, htargeted, htree, hissues⟩ :=
    fsck_reachable (s := overDir) (reachable_newFsAfter _) ['o', 'k']
  exact ⟨howned, htargeted, htree, issue, hissue, hissues issue hissue⟩

/-- Along every run in which no rename replaces a directory, `runFsck` finds nothing. -/
theorem fsck_clean (h : RunsTo ReplacesNoDir s) (integ : Str) :
    (Fsck.runFsck integ s.conn.fsckContents).issues = [] := by
  rw [fsck_issues (reachable_of_runsTo h)]
  unfold Fsck.checkNlink
  rw [Fsck.map_eq_nil_of_forall]
  intro x hx
  obtain ⟨hmem, hwrong⟩ := KeyTable.mem_select.mp hx
  obtain ⟨r, hr, rfl⟩ := List.mem_map.mp hmem
  obtain ⟨hdir, hne⟩ := of_decide_eq_true hwrong
  have hexact : r.nlink = s.conn.linkCount r.inode r.kind + 0 :=
    (counted_of_replacesNoDir h).exact r.inode _ (Db.info_of_find? (KeyTable.find?_key hr)) trivial
  rw [add_zero, show r.kind = .dir from hdir] at hexact
  exact hne (Db.expected_of_exact hexact)

theorem fsck_clean_removedDir :
    (Fsck.runFsck ['o', 'k'] removedDir.conn.fsckContents).issues = [] :=
  fsck_clean runsTo_removedDir ['o', 'k']

end Filesystem

end SqliteFs
