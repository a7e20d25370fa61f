import SqliteFs.Filesystem.LinkCounts

/-!
# What `unlink` does

`unlink` takes a name away by one commit, and then looks at the link count that is left. Where it
reads zero and nothing has the file open, it deletes the node by a second commit. Since the link
counts of files are right, the number of names before the call says which of this happens.
-/

namespace SqliteFs

open Txn

/-- The number of names of the node `i`. -/
def Db.names (d : Db) (i : ℕ) : ℕ := d.entries.count fun e => e.inode = i

lemma Db.Off.nlink_eq_names {d : Db} (h : d.Off (· ≠ .dir) 0) {i : ℕ} {n : NodeInfo}
    (hn : d.info i = some n) (hk : n.kind ≠ .dir) : n.nlink = d.names i := by
  have hexact := h i n hn hk
  unfold Db.linkCount Db.CountsFor at hexact
  simp only [hk, if_false, zero_add, Pi.zero_apply, add_zero] at hexact
  exact hexact

namespace Filesystem

variable {s : Filesystem} {user : Option (UInt32 × UInt32)} {clock : Clock}

/-- The link counts of everything but directories are right in every reachable state. -/
lemma files_counted {Ok : Filesystem → Call → Prop} (h : RunsTo Ok s) :
    s.core.Counted (· ≠ .dir) :=
  counted_runsTo (fun _ _ _ hP => absurd rfl hP) h

lemma nlink_eq_names (h : s.core.Counted (· ≠ .dir)) {i : ℕ} {n : NodeInfo}
    (hn : s.conn.info i = some n) (hk : n.kind ≠ .dir) : n.nlink = s.conn.names i :=
  h.exact.nlink_eq_names hn hk

section Names
variable {d d' : Db} {e : EntryRow} {n : ℕ}

lemma names_deleteEntry (he : e ∈ d.entries) :
    d.names e.inode = (d.deleteEntry e.parent e.name).names e.inode + 1 := by
  have hkey : ∀ x ∈ d.entries, decide (x.parent = e.parent ∧ x.name = e.name) = true ↔
      Keyed.key x = Keyed.key e := by
    intro x _
    rw [decide_eq_true_eq, key_entryRow, key_entryRow, Prod.mk.injEq]
  unfold Db.names
  rw [KeyTable.count_deleteWhere_key he hkey, if_pos (decide_eq_true rfl)]
  rfl

lemma names_congr (h : d'.entries = d.entries) (i : ℕ) : d'.names i = d.names i := by
  unfold Db.names
  rw [h]

lemma Drops.names (hd : d.Drops d' e n) : d.names e.inode = d'.names e.inode + 1 := by
  rw [names_deleteEntry hd.1, names_congr hd.2.2.1.entries]

lemma names_eq_zero {i : ℕ} : d.names i = 0 ↔ ∀ x ∈ d.entries, x.inode ≠ i := by
  unfold Db.names
  rw [KeyTable.count_eq_zero]
  simp only [decide_eq_false_iff_not, ne_eq]

end Names

/-- Only one entry has the path of `unlink`. -/
lemma MayUnlink.unique {path : Str} {e e' : EntryRow} {row row' : NodeRow}
    (h : MayUnlink s path e row) (h' : MayUnlink s path e' row') : e = e' := by
  have heq := Except.ok.inj (h.resolved.symm.trans h'.resolved)
  exact KeyTable.eq_of_key h.entry h'.entry heq

/-- What `unlink` does once it is past its checks: the count that it reads decides whether it goes
on to delete the node, and the names that are left decide whether it can. -/
inductive Unlinks (s : Filesystem) (clock : Clock) (path : Str) (e : EntryRow) (row : NodeRow) :
    Outcome Filesystem Db Halt PUnit → Prop
  | keeps {d : Db} {n : ℕ} : s.conn.Drops d e n →
      ¬ (s.conn.names e.inode % 2 ^ 32 = 1 ∧ s.fdtable.openCount e.inode = 0) →
      Unlinks s clock path e row ⟨.ok ⟨⟩,
        (emit clock .remove path row.kind e.inode none none { s with conn := d }).state, [d]⟩
  | deletes {d d' : Db} {n : ℕ} : s.conn.Drops d e n → d.RemovesNode d' e.inode →
      s.conn.names e.inode = 1 → s.fdtable.openCount e.inode = 0 →
      Unlinks s clock path e row ⟨.ok ⟨⟩,
        (emit clock .remove path row.kind e.inode none none { s with conn := d' }).state, [d, d']⟩
  | fails {d : Db} {n : ℕ} {x : SqliteError} : s.conn.Drops d e n →
      s.conn.names e.inode % 2 ^ 32 = 1 → s.conn.names e.inode ≠ 1 →
      s.fdtable.openCount e.inode = 0 →
      Unlinks s clock path e row ⟨.error (.error (.sqlite x)), { s with conn := d }, [d]⟩

lemma unlink_unlinks (clock : Clock) (h : s.core.Counted (· ≠ .dir)) {path : Str} {e : EntryRow} {row : NodeRow}
    (hmay : MayUnlink s path e row) : Unlinks s clock path e row (unlink clock path s) := by
  obtain ⟨n, d, hdrops, o, ho, hrun⟩ := unlink_run clock hmay
  rw [hrun]
  have hnames : s.conn.names e.inode = d.names e.inode + 1 := Drops.names hdrops
  obtain ⟨m, hm, hn⟩ := hdrops.2.2.2
  have hkind : m.kind ≠ .dir := by
    obtain ⟨m', hm', hk, -⟩ := Nodes.info_of_get hmay.node
    obtain rfl : m' = m := Option.some.inj (hm'.symm.trans hm)
    rw [hk]
    exact hmay.notDir
  have hzero : n = 0 ↔ s.conn.names e.inode % 2 ^ 32 = 1 := by
    rw [hn, nlink_eq_names h hm hkind, hnames]
    unfold U32.ofI64
    omega
  by_cases hgone : n = 0 ∧ s.fdtable.openCount e.inode = 0
  · obtain ⟨hn0, hopen⟩ := hgone
    cases hdel : d.deleteNode e.inode with
    | ok d' =>
      have hrem : d.RemovesNode d' e.inode := Db.removesNode_of_deleteNode hdrops.hasNode hdel
      rw [Prog.bind_apply_ok (collect_removed (s := { s with conn := d })
        (connReadonly_eq_false hmay.writable) hn0 hopen hdel)] at ho
      subst ho
      refine .deletes hdrops hrem ?_ hopen
      rw [hnames, names_eq_zero.mpr]
      intro x hx
      refine hrem.unnamed x hx (h.rooted.tree.shaped.drops_leaf hdrops x ?_)
      rw [hdrops.2.2.1.entries] at hx
      exact ((Db.mem_deleteEntry hdrops.1).mp hx).1
    | error x =>
      obtain ⟨y, hy, -, hyi⟩ := exists_name_of_deleteNode_error hdel
      obtain ⟨x', hx'⟩ := collect_failed (s := { s with conn := d }) hn0 hopen (Or.inr ⟨x, hdel⟩)
      rw [Prog.bind_apply_error hx'] at ho
      subst ho
      refine .fails hdrops (hzero.mp hn0) ?_ hopen
      rw [hnames]
      intro hone
      exact names_eq_zero.mp (Nat.succ.inj hone) y hy hyi
  · rw [Prog.bind_apply_ok (collect_kept (s := { s with conn := d }) hgone)] at ho
    subst ho
    refine .keeps hdrops ?_
    rwa [← hzero]

/-- `unlink` takes its entry out of the database. -/
lemma drops_ne {d d' : Db} {e : EntryRow} {n : ℕ} (hd : d.Drops d' e n) : d' ≠ d := by
  rintro rfl
  obtain ⟨he, -, hadj, -⟩ := hd
  have hmem := hadj.entries ▸ he
  exact ((Db.mem_deleteEntry he).mp hmem).2 rfl

end Filesystem

end SqliteFs
