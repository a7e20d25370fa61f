import SqliteFs.Python.Machine
import SqliteFs.Filesystem.LinkCounts

/-!
# The structure of a Python database

The structure of the filesystem, its entries with the kinds and link counts of the nodes, is the
same in both libraries. The skeleton of a Python database is the database of the Rust port with
this structure, and no more of what the nodes' rows say. What the statements of the Python library
do to the structure is described on skeletons.
-/

namespace SqliteFs

open Txn

namespace Python

/-- The row with its inode, kind and link count only. -/
def NodesRow.skeleton (r : NodesRow) : SqliteFs.NodesRow :=
  ⟨r.inode, r.kind, 0, 0, 0, 0, 0, 0, 0, r.nlink⟩

lemma key_skeleton (r : NodesRow) : Keyed.key r.skeleton = Keyed.key r := rfl

namespace Db

/-- The kind of node `i`. -/
def kind (d : Db) (i : ℕ) : Option NodeKind := (d.nodes.find? i).map NodesRow.kind

def skeleton (d : Db) : SqliteFs.Db where
  chunkSize := d.chunkSize
  nodes := d.nodes.map NodesRow.skeleton key_skeleton
  nodesSeq := d.nodesSeq
  entries := d.entries
  blobs := d.blobs
  xattrs := .empty
  symlinks := .empty

variable {d d' : Db} {i j : ℕ}

@[simp] lemma skeleton_entries (d : Db) : d.skeleton.entries = d.entries := rfl

@[simp] lemma skeleton_blobs (d : Db) : d.skeleton.blobs = d.blobs := rfl

lemma find?_skeleton (d : Db) (i : ℕ) :
    d.skeleton.nodes.find? i = (d.nodes.find? i).map NodesRow.skeleton :=
  KeyTable.find?_map _ key_skeleton _ _

lemma info_skeleton (d : Db) (i : ℕ) :
    d.skeleton.info i = (d.nodes.find? i).map fun r => ⟨r.kind, 0, r.nlink⟩ := by
  unfold SqliteFs.Db.info
  rw [find?_skeleton, Option.map_map]
  rfl

@[simp] lemma hasNode_skeleton (d : Db) (i : ℕ) : d.skeleton.hasNode i = d.hasNode i := by
  unfold SqliteFs.Db.hasNode hasNode
  rw [find?_skeleton, Option.isSome_map]

lemma kind_skeleton (d : Db) (i : ℕ) : d.skeleton.kind i = d.kind i := by
  unfold SqliteFs.Db.kind kind
  rw [info_skeleton, Option.map_map]
  rfl

/-! ### Statements on nodes -/

lemma adjust_updateNode (i : ℕ) (c : ℤ) {f : NodesRow → NodesRow}
    {hf : ∀ r, (f r).inode = r.inode} (hkind : ∀ r, (f r).kind = r.kind)
    (hnlink : ∀ r, (f r).nlink = r.nlink + c) :
    d.skeleton.Adjust (d.updateNode i f hf).skeleton (Pi.single i c) := by
  refine ⟨rfl, rfl, fun j => ?_⟩
  rw [info_skeleton, info_skeleton]
  unfold updateNode
  rw [KeyTable.find?_updateAt, Option.map_map]
  split_ifs with hj
  · rw [Option.map_map]
    congr 1
    funext r
    simp only [Function.comp_apply, hkind, hnlink, hj, Pi.single_eq_same]
  · congr 1
    funext r
    simp only [Function.comp_apply, Pi.single_eq_of_ne hj, add_zero]

lemma addsNode_insertNode {row : NodesRow} (h : d.insertNode row = some d') :
    d.skeleton.AddsNode d'.skeleton row.inode ⟨row.kind, 0, row.nlink⟩ := by
  obtain ⟨t, ht, rfl⟩ := Option.map_eq_some_iff.mp h
  refine ⟨?_, rfl, rfl, fun j => ?_⟩
  · have hfree := (KeyTable.insert?_eq_some.mp ht).1
    rw [key_nodesRow] at hfree
    rw [info_skeleton, hfree]
    rfl
  · rw [info_skeleton, info_skeleton]
    dsimp only
    rw [KeyTable.find?_insert? ht, key_nodesRow]
    by_cases hj : j = row.inode
    · rw [if_pos hj.symm, if_pos hj]
      rfl
    · rw [if_neg (Ne.symm hj), if_neg hj]

lemma removesNode_deleteNode (hnode : d.hasNode i = true) (h : d.deleteNode i = some d') :
    d.skeleton.RemovesNode d'.skeleton i := by
  unfold deleteNode at h
  rw [if_pos hnode] at h
  dsimp only at h
  split_ifs at h with hcount
  cases h
  refine ⟨SqliteFs.Db.deleteNode_count_iff.mp (by rw [skeleton_entries]; omega), rfl, rfl,
    fun j => ?_⟩
  rw [info_skeleton, info_skeleton]
  dsimp only
  rw [KeyTable.find?_deleteWhere]
  cases hr : d.nodes.find? j with
  | none => split_ifs <;> rfl
  | some r =>
    obtain rfl : r.inode = j := (KeyTable.find?_eq_some.mp hr).2
    by_cases hj : r.inode = i <;> simp [Option.filter, hj]

/-! ### Statements on entries -/

lemma skeleton_insertEntry {e : EntryRow} (h : d.insertEntry e = some d') :
    d.skeleton.insertEntry e = .ok d'.skeleton := by
  unfold insertEntry at h
  split_ifs at h with hnodes
  obtain ⟨t, ht, rfl⟩ := Option.map_eq_some_iff.mp h
  rw [Bool.and_eq_true] at hnodes
  rw [SqliteFs.Db.insertEntry_eq_ok, hasNode_skeleton, hasNode_skeleton]
  exact ⟨hnodes.1, hnodes.2, t, ht, rfl⟩

@[simp] lemma skeleton_deleteEntry (d : Db) (p : ℕ) (n : Str) :
    (d.deleteEntry p n).skeleton = d.skeleton.deleteEntry p n := rfl

lemma skeleton_moveEntry {p q : ℕ} {m n : Str} (h : d.moveEntry p m q n = some d') :
    d.skeleton.moveEntry p m q n = .ok d'.skeleton := by
  unfold moveEntry at h
  unfold SqliteFs.Db.moveEntry
  rw [skeleton_entries, hasNode_skeleton]
  split_ifs at h ⊢
  · obtain ⟨t, ht, rfl⟩ := Option.map_eq_some_iff.mp h
    rw [ht]
    rfl
  · cases h
    rfl

/-! ### Statements on contents and attributes -/

lemma sameNames_of_nodes (hnodes : d'.nodes = d.nodes) (hentries : d'.entries = d.entries) :
    d.skeleton.SameNames d'.skeleton := by
  refine ⟨hentries, fun i => ?_⟩
  rw [info_skeleton, info_skeleton, hnodes]

end Db

/-! ### The table functions -/

section Tables
variable {d d' : Db} {u : PUnit} {i : ℕ}

lemma Nodes.get_eq_ok {row : NodesRow} : Nodes.get d i = .ok row ↔ d.nodes.find? i = some row :=
  rowOr_eq_ok

lemma Nodes.kind_of_get {row : NodesRow} (h : Nodes.get d i = .ok row) :
    d.skeleton.kind i = some row.kind := by
  rw [Db.kind_skeleton, Db.kind, Nodes.get_eq_ok.mp h]
  rfl

lemma Nodes.get_of_kind {k : NodeKind} (h : d.skeleton.kind i = some k) :
    ∃ row, Nodes.get d i = .ok row ∧ row.kind = k := by
  rw [Db.kind_skeleton] at h
  obtain ⟨row, hrow, hk⟩ := Option.map_eq_some_iff.mp h
  exact ⟨row, Nodes.get_eq_ok.mpr hrow, hk⟩

lemma Entries.get_eq_ok {parent : ℕ} {name : Str} {e : EntryRow} :
    Entries.get d parent name = .ok e ↔ e ∈ d.entries ∧ e.parent = parent ∧ e.name = name := by
  rw [Entries.get, rowOr_eq_ok, KeyTable.find?_eq_some, key_entryRow, Prod.mk.injEq]

lemma Nodes.insert_ok {kind : NodeKind} {mode uid gid now : ℤ}
    (h : Nodes.insert kind mode uid gid now d = .ok (i, d')) :
    d.skeleton.AddsNode d'.skeleton i ⟨kind, 0, if kind = .dir then 2 else 1⟩ := by
  obtain ⟨-, h⟩ := params_bind_eq_ok.mp h
  obtain ⟨i', -, h⟩ := Body.ask_bind_eq_ok.mp h
  obtain ⟨d₁, hins, h⟩ := execute_bind_eq_ok.mp h
  obtain ⟨rfl, rfl⟩ := Body.pure_eq_ok.mp h
  exact Db.addsNode_insertNode hins

lemma Nodes.changeNlink_ok {n delta now : ℤ} (h : Nodes.changeNlink i delta now d = .ok (n, d')) :
    d.skeleton.Adjust d'.skeleton (Pi.single i delta) ∧
      ∃ m, d.skeleton.info i = some m ∧ n = m.nlink + delta := by
  replace h := update_bind_eq_ok.mp h
  obtain ⟨hn, rfl⟩ := Body.ask_eq_ok.mp h
  rw [rowOr_eq_ok] at hn
  refine ⟨Db.adjust_updateNode i delta (fun _ => rfl) fun _ => rfl, ?_⟩
  unfold Db.updateNode at hn
  rw [KeyTable.find?_updateAt, if_pos rfl, Option.map_map] at hn
  obtain ⟨r, hr, rfl⟩ := Option.map_eq_some_iff.mp hn
  refine ⟨⟨r.kind, 0, r.nlink⟩, ?_, rfl⟩
  rw [Db.info_skeleton, hr]
  rfl

lemma adjust_zero_updateNode {f : NodesRow → NodesRow} {hf : ∀ r, (f r).inode = r.inode}
    (hkind : ∀ r, (f r).kind = r.kind) (hnlink : ∀ r, (f r).nlink = r.nlink) :
    d.skeleton.Adjust (d.updateNode i f hf).skeleton 0 := by
  rw [← Pi.single_zero i]
  exact Db.adjust_updateNode i 0 hkind fun r => (hnlink r).trans (add_zero _).symm

lemma Nodes.updateTimes_ok {a m c : Option ℤ} (h : Nodes.updateTimes i a m c d = .ok (u, d')) :
    d.skeleton.Adjust d'.skeleton 0 := by
  unfold Nodes.updateTimes at h
  split_ifs at h
  · rw [(Body.pure_eq_ok.mp h).2]
    exact .refl
  · rw [update_eq_ok.mp (params_bind_eq_ok.mp h).2]
    exact adjust_zero_updateNode (fun _ => rfl) fun _ => rfl

lemma Nodes.updateModeUidGid_ok {mode uid gid : Option ℤ} {now : ℤ}
    (h : Nodes.updateModeUidGid i mode uid gid now d = .ok (u, d')) :
    d.skeleton.Adjust d'.skeleton 0 := by
  rw [update_eq_ok.mp (params_bind_eq_ok.mp h).2]
  exact adjust_zero_updateNode (fun _ => rfl) fun _ => rfl

lemma Nodes.updateSize_ok {size mtime ctime : ℤ}
    (h : Nodes.updateSize i size mtime ctime d = .ok (u, d')) :
    d.skeleton.Adjust d'.skeleton 0 := by
  rw [update_eq_ok.mp (params_bind_eq_ok.mp h).2]
  exact adjust_zero_updateNode (fun _ => rfl) fun _ => rfl

lemma Nodes.delete_ok (hnode : d.hasNode i = true) (h : Nodes.delete i d = .ok (u, d')) :
    d.skeleton.RemovesNode d'.skeleton i :=
  Db.removesNode_deleteNode hnode (execute_eq_ok.mp h)

lemma Entries.insert_ok {parent : ℕ} {name : Str} (h : Entries.insert parent name i d = .ok (u, d')) :
    d.skeleton.insertEntry ⟨parent, name, i⟩ = .ok d'.skeleton :=
  Db.skeleton_insertEntry (execute_eq_ok.mp h)

lemma Entries.delete_ok {parent : ℕ} {name : Str} (h : Entries.delete parent name d = .ok (u, d')) :
    d'.skeleton = d.skeleton.deleteEntry parent name := by
  rw [update_eq_ok.mp h]
  rfl

lemma Entries.rename_ok {p q : ℕ} {m n : Str} (h : Entries.rename p m q n d = .ok (u, d')) :
    d.skeleton.moveEntry p m q n = .ok d'.skeleton :=
  Db.skeleton_moveEntry (execute_eq_ok.mp h)

lemma Symlinks.insert_ok {target : Bytes} (h : Symlinks.insert i target d = .ok (u, d')) :
    d'.skeleton = d.skeleton := by
  have hins := execute_eq_ok.mp h
  unfold Db.insertSymlink at hins
  split_ifs at hins
  obtain ⟨t, -, rfl⟩ := Option.map_eq_some_iff.mp hins
  rfl

/-- Both libraries climb the same way. -/
lemma Nodes.ancestryLoop_skeleton {l : List ℕ} : ∀ {fuel cur : ℕ} {out : List ℕ},
    Nodes.ancestryLoop d fuel cur out = .ok l ↔
      SqliteFs.Entries.ancestryLoop d.skeleton fuel cur out = .ok l := by
  intro fuel
  induction fuel with
  | zero => exact iff_of_false (fun h => nomatch h) (fun h => nomatch h)
  | succ fuel ih =>
    intro cur out
    have hparent : SqliteFs.Entries.parentOf d.skeleton cur = Entries.parentOf d cur := rfl
    rw [Nodes.ancestryLoop, SqliteFs.Entries.ancestryLoop, hparent]
    cases Entries.parentOf d cur with
    | none =>
      dsimp only
      rw [Except.ok.injEq, Except.ok.injEq]
    | some p => exact ih

lemma Nodes.ancestry_skeleton {l : List ℕ} :
    Nodes.ancestry d i = .ok l ↔ SqliteFs.Entries.ancestry d.skeleton i = .ok l :=
  Nodes.ancestryLoop_skeleton

end Tables

end Python

end SqliteFs
