import SqliteFs.Filesystem.Basic
import Mathlib.Algebra.Notation.Pi.Basic
import Mathlib.Algebra.Group.Pi.Basic
import Mathlib.Algebra.Group.Int.Defs

/-!
# What the table functions do to names and links

The structure of the filesystem lies in the entries and in the kind and link count of each node.
Here every table function is described by what it does to these: it leaves them alone, adjusts
link counts, or adds or removes a node or an entry.
-/

namespace SqliteFs

open Txn

/-- What the structure of the filesystem needs of a node. -/
structure NodeInfo where
  kind : NodeKind
  size : ℕ
  nlink : ℤ
  deriving DecidableEq

namespace Db

def info (d : Db) (i : ℕ) : Option NodeInfo :=
  (d.nodes.find? i).map fun r => ⟨r.kind, r.size, r.nlink⟩

def kind (d : Db) (i : ℕ) : Option NodeKind := (d.info i).map NodeInfo.kind

variable {d d' d'' : Db} {i j : ℕ} {δ δ' : ℕ → ℤ}

lemma info_of_find? {r : NodesRow} (h : d.nodes.find? i = some r) :
    d.info i = some ⟨r.kind, r.size, r.nlink⟩ := by
  rw [info, h]; rfl

lemma hasNode_iff : d.hasNode i = true ↔ ∃ n, d.info i = some n := by
  rw [hasNode, info]
  cases d.nodes.find? i <;> simp

lemma kind_of_info {n : NodeInfo} (h : d.info i = some n) : d.kind i = some n.kind := by
  rw [kind, h]; rfl

lemma exists_info_of_kind {k : NodeKind} (h : d.kind i = some k) :
    ∃ n, d.info i = some n ∧ n.kind = k :=
  Option.map_eq_some_iff.mp h

lemma hasNode_of_kind {k : NodeKind} (h : d.kind i = some k) : d.hasNode i = true := by
  obtain ⟨n, hn, -⟩ := exists_info_of_kind h
  exact hasNode_iff.mpr ⟨n, hn⟩

lemma hasNode_congr (h : d'.kind i = d.kind i) : d'.hasNode i = d.hasNode i := by
  rw [Bool.eq_iff_iff, hasNode_iff, hasNode_iff]
  unfold kind at h
  cases h1 : d'.info i <;> cases h2 : d.info i <;> simp [h1, h2] at h ⊢

/-- `d'` has the names and contents of `d`; the link count of `i` has changed by `δ i`. -/
structure Adjust (d d' : Db) (δ : ℕ → ℤ) : Prop where
  entries : d'.entries = d.entries
  blobs : d'.blobs = d.blobs
  info : ∀ i, d'.info i = (d.info i).map fun n => { n with nlink := n.nlink + δ i }

namespace Adjust

lemma refl : Adjust d d 0 :=
  ⟨rfl, rfl, fun i => by simp⟩

lemma trans (h : Adjust d d' δ) (h' : Adjust d' d'' δ') : Adjust d d'' (δ + δ') := by
  refine ⟨h'.entries.trans h.entries, h'.blobs.trans h.blobs, fun i => ?_⟩
  rw [h'.info, h.info, Option.map_map]
  congr 1
  funext n
  simp [add_assoc]

lemma kind (h : Adjust d d' δ) (i : ℕ) : d'.kind i = d.kind i := by
  rw [Db.kind, Db.kind, h.info, Option.map_map]
  rfl

lemma hasNode (h : Adjust d d' δ) (i : ℕ) : d'.hasNode i = d.hasNode i := hasNode_congr (h.kind i)

lemma congr (h : Adjust d d' δ) (hδ : δ = δ') : Adjust d d' δ' := hδ ▸ h

/-- Changing a row without its kind and size. -/
lemma updateNode (i : ℕ) (c : ℤ) {f : NodesRow → NodesRow} {hf : ∀ r, (f r).inode = r.inode}
    (hkind : ∀ r, (f r).kind = r.kind) (hsize : ∀ r, (f r).size = r.size)
    (hnlink : ∀ r, (f r).nlink = r.nlink + c) : Adjust d (d.updateNode i f hf) (Pi.single i c) := by
  refine ⟨rfl, rfl, fun j => ?_⟩
  unfold Db.info Db.updateNode
  rw [KeyTable.find?_updateAt, Option.map_map]
  split_ifs with hj
  · subst hj
    rw [Option.map_map]
    congr 1
    funext r
    simp [hkind, hsize, hnlink]
  · congr 1
    funext r
    simp [Pi.single_eq_of_ne hj]

end Adjust

/-- `d'` has the names, the kinds and the link counts of `d`. -/
structure SameNames (d d' : Db) : Prop where
  entries : d'.entries = d.entries
  links : ∀ i, (d'.info i).map (fun n => (n.kind, n.nlink)) = (d.info i).map fun n => (n.kind, n.nlink)

namespace SameNames

lemma refl : SameNames d d := ⟨rfl, fun _ => rfl⟩

lemma trans (h : SameNames d d') (h' : SameNames d' d'') : SameNames d d'' :=
  ⟨h'.entries.trans h.entries, fun i => (h'.links i).trans (h.links i)⟩

lemma kind (h : SameNames d d') (i : ℕ) : d'.kind i = d.kind i := by
  have hmap := congrArg (Option.map Prod.fst) (h.links i)
  rw [Option.map_map, Option.map_map] at hmap
  exact hmap

end SameNames

/-- The node `i` has the size and the chunks in `d'` that it has in `d`. -/
structure SameFile (d d' : Db) (i : ℕ) : Prop where
  size : (d'.info i).map NodeInfo.size = (d.info i).map NodeInfo.size
  chunks : d'.blobs.select (fun r => r.inode = i) = d.blobs.select fun r => r.inode = i

namespace SameFile

lemma refl : SameFile d d i := ⟨rfl, rfl⟩

lemma trans (h : SameFile d d' i) (h' : SameFile d' d'' i) : SameFile d d'' i :=
  ⟨h'.size.trans h.size, h'.chunks.trans h.chunks⟩

lemma hasNode (h : SameFile d d' i) : d'.hasNode i = d.hasNode i := by
  have hsome := congrArg Option.isSome h.size
  rw [Option.isSome_map, Option.isSome_map, info, info, Option.isSome_map, Option.isSome_map] at hsome
  exact hsome

end SameFile

/-- `d'` has the names, the kinds and the link counts of `d`, and the contents of every node
but `i`. -/
structure Rewrites (d d' : Db) (i : ℕ) : Prop where
  names : d.SameNames d'
  others : ∀ j, j ≠ i → d.SameFile d' j

lemma Rewrites.trans (h : Rewrites d d' i) (h' : Rewrites d' d'' i) : Rewrites d d'' i :=
  ⟨h.names.trans h'.names, fun j hj => (h.others j hj).trans (h'.others j hj)⟩

lemma Adjust.sameFile (h : Adjust d d' δ) (i : ℕ) : SameFile d d' i := by
  refine ⟨?_, by rw [h.blobs]⟩
  rw [h.info, Option.map_map]
  rfl

lemma Adjust.sameNames (h : Adjust d d' 0) : SameNames d d' := by
  refine ⟨h.entries, fun i => ?_⟩
  rw [h.info, Option.map_map]
  congr 1
  funext n
  simp

/-- `d'` is `d` with a new node `i` that says `n`. -/
structure AddsNode (d d' : Db) (i : ℕ) (n : NodeInfo) : Prop where
  fresh : d.info i = none
  entries : d'.entries = d.entries
  blobs : d'.blobs = d.blobs
  info : ∀ j, d'.info j = if j = i then some n else d.info j

lemma AddsNode.kind {n : NodeInfo} (h : AddsNode d d' i n) (j : ℕ) :
    d'.kind j = if j = i then some n.kind else d.kind j := by
  rw [Db.kind, h.info]
  split_ifs <;> rfl

lemma AddsNode.hasNode {n : NodeInfo} (h : AddsNode d d' i n) : d'.hasNode i = true :=
  hasNode_of_kind ((h.kind i).trans (if_pos rfl))

lemma AddsNode.hasNode_of_hasNode {n : NodeInfo} (h : AddsNode d d' i n) (hj : d.hasNode j = true) :
    d'.hasNode j = true := by
  by_cases hji : j = i
  · rw [hji]
    exact h.hasNode
  · obtain ⟨m, hm⟩ := hasNode_iff.mp hj
    refine hasNode_iff.mpr ⟨m, ?_⟩
    rw [h.info, if_neg hji]
    exact hm

/-- `d'` is `d` without the node `i`, which no entry names, and without what belongs to it. -/
structure RemovesNode (d d' : Db) (i : ℕ) : Prop where
  unnamed : ∀ e ∈ d.entries, e.parent ≠ i → e.inode ≠ i
  entries : d'.entries = d.entries.deleteWhere fun e => e.parent = i
  blobs : d'.blobs = d.blobs.deleteWhere fun r => r.inode = i
  info : ∀ j, d'.info j = if j = i then none else d.info j

lemma RemovesNode.kind (h : RemovesNode d d' i) (j : ℕ) :
    d'.kind j = if j = i then none else d.kind j := by
  rw [Db.kind, h.info]
  split_ifs <;> rfl

lemma deleteNode_count_iff :
    (d.entries.deleteWhere fun e => e.parent = i).count (fun e => e.inode = i) = 0 ↔
      ∀ e ∈ d.entries, e.parent ≠ i → e.inode ≠ i := by
  rw [KeyTable.count_eq_zero]
  simp only [KeyTable.mem_deleteWhere, decide_eq_false_iff_not, and_imp, ne_eq]

lemma removesNode_of_deleteNode (hnode : d.hasNode i = true) (h : d.deleteNode i = .ok d') :
    RemovesNode d d' i := by
  obtain ⟨hcount, rfl⟩ := (deleteNode_eq_ok hnode).mp h
  refine ⟨deleteNode_count_iff.mp hcount, rfl, rfl, fun j => ?_⟩
  unfold Db.info
  rw [KeyTable.find?_deleteWhere]
  cases hr : d.nodes.find? j with
  | none => split_ifs <;> rfl
  | some r =>
    obtain rfl : r.inode = j := (KeyTable.find?_eq_some.mp hr).2
    by_cases hj : r.inode = i <;> simp [Option.filter, hj]

/-- Deleting a node fails only for an entry that still names it. -/
lemma deleteNode_isOk (h : ∀ e ∈ d.entries, e.parent ≠ i → e.inode ≠ i) :
    ∃ d', d.deleteNode i = .ok d' := by
  by_cases hnode : d.hasNode i = true
  · exact ⟨_, (deleteNode_eq_ok hnode).mpr ⟨deleteNode_count_iff.mpr h, rfl⟩⟩
  · exact ⟨d, if_neg hnode⟩

/-- The number that `AUTOINCREMENT` gives out is not in use. -/
lemma find?_nextInode (d : Db) : d.nodes.find? d.nextInode = none := by
  have hmax : ∀ (rows : List NodesRow) (m : ℕ), (m ≤ rows.foldl (fun m r => max m r.inode) m) ∧
      ∀ r ∈ rows, r.inode ≤ rows.foldl (fun m r => max m r.inode) m := by
    intro rows
    induction rows with
    | nil => exact fun m => ⟨le_rfl, fun r hr => absurd hr List.not_mem_nil⟩
    | cons x rows ih =>
      intro m
      obtain ⟨h1, h2⟩ := ih (max m x.inode)
      refine ⟨(le_max_left _ _).trans h1, fun r hr => ?_⟩
      rcases List.mem_cons.mp hr with rfl | hr
      · exact (le_max_right _ _).trans h1
      · exact h2 r hr
  refine KeyTable.find?_eq_none.mpr fun r hr hkey => ?_
  have := (hmax d.nodes.rows d.nodesSeq).2 r hr
  rw [key_nodesRow] at hkey
  unfold nextInode at hkey
  omega

/-! ### Adding, deleting and moving an entry -/

section Entry
variable {e x : EntryRow} {q : ℕ} {m : Str}

lemma mem_insertEntry (h : d.insertEntry e = .ok d') :
    x ∈ d'.entries ↔ x ∈ d.entries ∨ x = e := by
  obtain ⟨-, -, t, ht, rfl⟩ := insertEntry_eq_ok.mp h
  exact KeyTable.mem_insert? ht

lemma info_insertEntry (h : d.insertEntry e = .ok d') (i : ℕ) : d'.info i = d.info i := by
  obtain ⟨-, -, t, -, rfl⟩ := insertEntry_eq_ok.mp h
  rfl

lemma key_eq_iff (he : e ∈ d.entries) (hx : x ∈ d.entries) :
    (x.parent = e.parent ∧ x.name = e.name) ↔ x = e := by
  refine ⟨fun h => KeyTable.eq_of_key hx he ?_, ?_⟩
  · rw [key_entryRow, key_entryRow, h.1, h.2]
  · rintro rfl
    exact ⟨rfl, rfl⟩

lemma mem_deleteEntry (he : e ∈ d.entries) :
    x ∈ (d.deleteEntry e.parent e.name).entries ↔ x ∈ d.entries ∧ x ≠ e := by
  unfold deleteEntry
  rw [KeyTable.mem_deleteWhere]
  refine and_congr_right fun hx => ?_
  rw [decide_eq_false_iff_not, key_eq_iff he hx]

@[simp] lemma info_deleteEntry (p : ℕ) (n : Str) (i : ℕ) : (d.deleteEntry p n).info i = d.info i :=
  rfl

lemma moveEntry_eq_ok_of_mem (he : e ∈ d.entries) :
    d.moveEntry e.parent e.name q m = .ok d' ↔ d.hasNode q = true ∧
      ∃ t, d.entries.rekey? (e.parent, e.name) (q, m) (fun r => ⟨q, m, r.inode⟩) (fun _ => rfl)
          = some t ∧ d' = { d with entries := t } :=
  moveEntry_eq_ok (KeyTable.find?_isSome.mpr ⟨e, he, rfl⟩)

lemma mem_moveEntry (he : e ∈ d.entries) (h : d.moveEntry e.parent e.name q m = .ok d') :
    x ∈ d'.entries ↔ (x ∈ d.entries ∧ x ≠ e) ∨ x = ⟨q, m, e.inode⟩ := by
  obtain ⟨-, t, ht, rfl⟩ := (moveEntry_eq_ok_of_mem he).mp h
  refine (KeyTable.mem_rekey? ht).trans ?_
  have hkey : ∀ r ∈ d.entries, Keyed.key r = (e.parent, e.name) ↔ r = e := by
    intro r hr
    rw [key_entryRow, Prod.mk.injEq, key_eq_iff he hr]
  constructor
  · rintro ⟨r, hr, rfl⟩
    by_cases hre : r = e
    · rw [if_pos ((hkey r hr).mpr hre), hre]
      exact Or.inr rfl
    · rw [if_neg (mt (hkey r hr).mp hre)]
      exact Or.inl ⟨hr, hre⟩
  · rintro (⟨hx, hxe⟩ | rfl)
    · exact ⟨x, hx, (if_neg (mt (hkey x hx).mp hxe)).symm⟩
    · exact ⟨e, he, (if_pos rfl).symm⟩

lemma info_moveEntry (he : e ∈ d.entries) (h : d.moveEntry e.parent e.name q m = .ok d') (i : ℕ) :
    d'.info i = d.info i := by
  obtain ⟨-, t, -, rfl⟩ := (moveEntry_eq_ok_of_mem he).mp h
  rfl

end Entry

end Db

/-! ### The table functions -/

section Tables
variable {d d' : Db} {u : PUnit}

lemma Nodes.get_eq_ok {i : ℕ} {row : NodeRow} : Nodes.get d i = .ok row ↔
    ∃ r, d.nodes.find? i = some r ∧ row = r.read := by
  rw [Nodes.get, okOr_eq_ok, Option.map_eq_some_iff]
  simp only [eq_comm]

lemma Nodes.info_of_get {i : ℕ} {row : NodeRow} (h : Nodes.get d i = .ok row) :
    ∃ n, d.info i = some n ∧ n.kind = row.kind ∧ n.size = row.size ∧
      row.nlink = U32.ofI64 n.nlink ∧ row.inode = i := by
  obtain ⟨r, hr, rfl⟩ := Nodes.get_eq_ok.mp h
  exact ⟨_, Db.info_of_find? hr, rfl, rfl, rfl, (KeyTable.find?_eq_some.mp hr).2⟩

lemma Nodes.kind_of_get {i : ℕ} {row : NodeRow} (h : Nodes.get d i = .ok row) :
    d.kind i = some row.kind := by
  obtain ⟨n, hn, hk, -⟩ := Nodes.info_of_get h
  rw [Db.kind_of_info hn, hk]

lemma Nodes.get_of_kind {i : ℕ} {k : NodeKind} (h : d.kind i = some k) :
    ∃ row, Nodes.get d i = .ok row ∧ row.kind = k := by
  obtain ⟨n, hn, rfl⟩ := Db.exists_info_of_kind h
  obtain ⟨r, hr, rfl⟩ := Option.map_eq_some_iff.mp hn
  exact ⟨r.read, Nodes.get_eq_ok.mpr ⟨r, hr, rfl⟩, rfl⟩

lemma Entries.get_eq_ok {parent : ℕ} {name : Str} {e : EntryRow} :
    Entries.get d parent name = .ok e ↔ e ∈ d.entries ∧ e.parent = parent ∧ e.name = name := by
  rw [Entries.get, okOr_eq_ok, KeyTable.find?_eq_some, key_entryRow, Prod.mk.injEq]

lemma Nodes.insert_ok {kind : NodeKind} {mode uid gid : UInt32} {now : ℤ} {i : ℕ}
    (h : Nodes.insert kind mode uid gid now d = .ok (i, d')) :
    d.AddsNode d' i ⟨kind, 0, if kind = .dir then 2 else 1⟩ := by
  obtain ⟨i', hi, h⟩ := Body.ask_bind_eq_ok.mp h
  obtain ⟨d₁, hins, h⟩ := stmt_bind_eq_ok.mp h
  obtain ⟨rfl, rfl⟩ := Body.pure_eq_ok.mp h
  obtain ⟨t, ht, rfl⟩ := Db.insertNode_eq_ok.mp hins
  refine ⟨?_, rfl, rfl, fun j => ?_⟩
  · have hfree := (KeyTable.insert?_eq_some.mp ht).1
    rw [key_nodesRow] at hfree
    rw [Db.info, hfree]; rfl
  · unfold Db.info
    rw [KeyTable.find?_insert? ht, key_nodesRow]
    by_cases hj : j = i
    · rw [if_pos hj.symm, if_pos hj]; rfl
    · rw [if_neg (Ne.symm hj), if_neg hj]

lemma Nodes.changeNlink_ok {i n : ℕ} {delta now : ℤ}
    (h : Nodes.changeNlink i delta now d = .ok (n, d')) :
    d.Adjust d' (Pi.single i delta) ∧
      ∃ m, d.info i = some m ∧ n = U32.ofI64 (m.nlink + delta) := by
  replace h := update_bind_eq_ok.mp h
  obtain ⟨hn, rfl⟩ := Body.ask_eq_ok.mp h
  rw [okOr_eq_ok] at hn
  refine ⟨.updateNode i delta (fun _ => rfl) (fun _ => rfl) fun _ => rfl, ?_⟩
  unfold Db.updateNode at hn
  rw [KeyTable.find?_updateAt, if_pos rfl, Option.map_map] at hn
  obtain ⟨r, hr, rfl⟩ := Option.map_eq_some_iff.mp hn
  exact ⟨_, Db.info_of_find? hr, rfl⟩

/-- On a node that exists, adjusting the link count does not fail. -/
lemma Nodes.changeNlink_isOk {i : ℕ} (hi : d.hasNode i = true) (delta now : ℤ) :
    ∃ n d', Nodes.changeNlink i delta now d = .ok (n, d') := by
  obtain ⟨r, hr⟩ := Option.isSome_iff_exists.mp hi
  refine ⟨U32.ofI64 (r.nlink + delta), _, update_bind_eq_ok.mpr (Body.ask_eq_ok.mpr ⟨?_, rfl⟩)⟩
  unfold Db.updateNode
  rw [KeyTable.find?_updateAt, if_pos rfl, hr]
  rfl

lemma Nodes.updateTimes_ok {i : ℕ} {a m c : Option ℤ} (h : Nodes.updateTimes i a m c d = .ok (u, d')) :
    d.Adjust d' 0 := by
  unfold Nodes.updateTimes at h
  split_ifs at h
  · rw [(Body.pure_eq_ok.mp h).2]
    exact .refl
  · rw [update_eq_ok.mp h, ← Pi.single_zero i]
    exact .updateNode i 0 (fun _ => rfl) (fun _ => rfl) fun r => (add_zero r.nlink).symm

lemma Nodes.updateModeUidGid_ok {i : ℕ} {mode uid gid : Option UInt32} {now : ℤ}
    (h : Nodes.updateModeUidGid i mode uid gid now d = .ok (u, d')) : d.Adjust d' 0 := by
  rw [update_eq_ok.mp h, ← Pi.single_zero i]
  exact .updateNode i 0 (fun _ => rfl) (fun _ => rfl) fun r => (add_zero r.nlink).symm

lemma Nodes.updateSize_ok {i size : ℕ} {mtime ctime : ℤ}
    (h : Nodes.updateSize i size mtime ctime d = .ok (u, d')) : d.Rewrites d' i := by
  rw [update_eq_ok.mp h]
  refine ⟨⟨rfl, fun j => ?_⟩, fun j hj => ⟨?_, rfl⟩⟩
  · unfold Db.info Db.updateNode
    rw [KeyTable.find?_updateAt]
    split_ifs
    · simp only [Option.map_map]; rfl
    · rfl
  · unfold Db.info Db.updateNode
    rw [KeyTable.find?_updateAt, if_neg hj]

lemma Nodes.delete_ok {i : ℕ} (hi : d.hasNode i = true) (h : Nodes.delete i d = .ok (u, d')) :
    d.RemovesNode d' i :=
  Db.removesNode_of_deleteNode hi (stmt_eq_ok.mp h)

lemma Symlinks.insert_ok {i : ℕ} {target : Bytes} (h : Symlinks.insert i target d = .ok (u, d')) :
    d.Adjust d' 0 := by
  obtain ⟨-, t, -, rfl⟩ := Db.insertSymlink_eq_ok.mp (stmt_eq_ok.mp h)
  exact ⟨rfl, rfl, (Db.Adjust.refl (d := d)).info⟩

lemma Xattrs.set_ok {i : ℕ} {name : Str} {value : Bytes} {flags : Xattrs.XattrFlags}
    (h : Xattrs.set i name value flags d = .ok (u, d')) : d.Adjust d' 0 := by
  obtain ⟨exists_, -, h⟩ := Body.ask_bind_eq_ok.mp h
  split_ifs at h
  · rw [update_eq_ok.mp h]
    exact ⟨rfl, rfl, (Db.Adjust.refl (d := d)).info⟩
  · obtain ⟨-, t, -, rfl⟩ := Db.insertXattr_eq_ok.mp (stmt_eq_ok.mp h)
    exact ⟨rfl, rfl, (Db.Adjust.refl (d := d)).info⟩

lemma Xattrs.remove_ok {i : ℕ} {name : Str} (h : Xattrs.remove i name d = .ok (u, d')) :
    d.Adjust d' 0 := by
  obtain ⟨changed, -, h⟩ := Body.ask_bind_eq_ok.mp h
  replace h := update_bind_eq_ok.mp h
  split_ifs at h
  · cases Body.exec_eq_ok.mp h
  · rw [(Body.pure_eq_ok.mp h).2]
    exact ⟨rfl, rfl, (Db.Adjust.refl (d := d)).info⟩

/-! ### The extended attribute functions in detail -/

section Xattr
variable {name : Str} {value : Bytes} {flags : Xattrs.XattrFlags} {ino : ℕ}

lemma Xattrs.checkFlags_eq {b : Bool} (h : Xattrs.checkFlags d ino name flags = .ok b) :
    b = (d.xattrs.find? (ino, name)).isSome := by
  unfold Xattrs.checkFlags at h
  dsimp only at h
  split_ifs at h
  · cases h
  · cases h
  · cases h
    rfl

/-- Past its checks, `set` does not fail; the attribute then has the value, and no node changes. -/
lemma Xattrs.set_isOk (value : Bytes) (hnode : d.hasNode ino = true)
    (hflags : ∃ b, Xattrs.checkFlags d ino name flags = .ok b) :
    ∃ d', Xattrs.set ino name value flags d = .ok (⟨⟩, d') := by
  obtain ⟨b, hb⟩ := hflags
  unfold Xattrs.set
  cases b with
  | true => exact ⟨_, Body.ask_bind_eq_ok.mpr ⟨true, hb, update_eq_ok.mpr rfl⟩⟩
  | false =>
    have hnone : d.xattrs.find? (ino, name) = none := by
      rw [← Option.isNone_iff_eq_none, ← Option.not_isSome, ← Xattrs.checkFlags_eq hb]
      rfl
    have hfree : d.xattrs.find? (Keyed.key (XattrsRow.mk ino name value)) = none := hnone
    obtain ⟨t, ht⟩ := KeyTable.insert?_isSome.mpr hfree
    have hins := Db.insertXattr_eq_ok.mpr ⟨hnode, t, ht, rfl⟩
    exact ⟨_, Body.ask_bind_eq_ok.mpr ⟨false, hb, stmt_eq_ok.mpr hins⟩⟩

lemma Xattrs.set_spec (h : Xattrs.set ino name value flags d = .ok (⟨⟩, d')) :
    d'.nodes = d.nodes ∧ Xattrs.get d' ino name = .ok value := by
  obtain ⟨b, hb, h⟩ := Body.ask_bind_eq_ok.mp h
  unfold Xattrs.get
  split_ifs at h with hset
  · subst hset
    obtain ⟨r, hr⟩ := Option.isSome_iff_exists.mp (Xattrs.checkFlags_eq hb).symm
    rw [update_eq_ok.mp h]
    refine ⟨rfl, ?_⟩
    unfold Db.updateXattr
    rw [KeyTable.find?_updateAt, if_pos rfl, hr]
    rfl
  · obtain ⟨-, t, ht, rfl⟩ := Db.insertXattr_eq_ok.mp (stmt_eq_ok.mp h)
    refine ⟨rfl, ?_⟩
    rw [KeyTable.find?_insert? ht, if_pos (key_xattrsRow _)]
    rfl

/-- Setting the value that the attribute has changes nothing. -/
lemma Xattrs.set_same (hsame : Xattrs.get d ino name = .ok value)
    (h : Xattrs.set ino name value flags d = .ok (⟨⟩, d')) : d' = d := by
  obtain ⟨b, hb, h⟩ := Body.ask_bind_eq_ok.mp h
  obtain ⟨r, hr, hvalue⟩ := Option.map_eq_some_iff.mp (okOr_eq_ok.mp hsame)
  have hset : b = true := by rw [Xattrs.checkFlags_eq hb, hr]; rfl
  rw [if_pos hset] at h
  rw [update_eq_ok.mp h]
  unfold Db.updateXattr
  rw [KeyTable.updateAt_eq_self_of]
  intro x hx hkey
  obtain rfl : r = x := Option.some.inj (hr.symm.trans (KeyTable.find?_eq_some.mpr ⟨hx, hkey⟩))
  rw [← hvalue]

lemma Xattrs.remove_isOk (h : (d.xattrs.find? (ino, name)).isSome) :
    Xattrs.remove ino name d = .ok (⟨⟩, d.deleteXattr ino name) := by
  obtain ⟨r, hr, hkey⟩ := KeyTable.find?_isSome.mp h
  rw [key_xattrsRow, Prod.mk.injEq] at hkey
  have hpos : 0 < d.xattrs.count fun x => decide (x.inode = ino ∧ x.name = name) :=
    KeyTable.count_pos.mpr ⟨r, hr, decide_eq_true hkey⟩
  refine Body.ask_bind_eq_ok.mpr ⟨_, rfl, update_bind_eq_ok.mpr ?_⟩
  rw [if_neg (by omega)]
  rfl

lemma Xattrs.isSet_of_remove (h : Xattrs.remove ino name d = .ok (⟨⟩, d')) :
    (d.xattrs.find? (ino, name)).isSome := by
  obtain ⟨n, hn, h⟩ := Body.ask_bind_eq_ok.mp h
  replace h := update_bind_eq_ok.mp h
  cases hn
  split_ifs at h with hzero
  · cases Body.exec_eq_ok.mp h
  · obtain ⟨r, hr, hkey⟩ := KeyTable.count_pos.mp (Nat.pos_of_ne_zero hzero)
    refine KeyTable.find?_isSome.mpr ⟨r, hr, ?_⟩
    rw [key_xattrsRow, Prod.mk.injEq]
    exact of_decide_eq_true hkey

end Xattr

end Tables

end SqliteFs
