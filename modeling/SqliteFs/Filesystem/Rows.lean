import SqliteFs.Filesystem.Statements

/-!
# What a statement does to the rows

For every table, where the rows that a statement leaves come from, and which rows it takes away.
-/

namespace SqliteFs

/-- The tables of the schema. -/
inductive Table
  | nodes | entries | blobs | xattrs | symlinks
  deriving DecidableEq

/-- The table has the same rows in `d'` as in `d`. -/
def Table.Same (d d' : Db) : Table → Prop
  | nodes => d'.nodes = d.nodes ∧ d'.nodesSeq = d.nodesSeq
  | entries => d'.entries = d.entries
  | blobs => d'.blobs = d.blobs
  | xattrs => d'.xattrs = d.xattrs
  | symlinks => d'.symlinks = d.symlinks

namespace Statement

/-- The tables that the statement writes to. -/
def tables : Statement → List Table
  | insertNode .. | updateTimes .. | updateModeUidGid .. | updateSize .. | changeNlink .. => [.nodes]
  | deleteNode .. => [.nodes, .entries, .blobs, .xattrs, .symlinks]
  | insertEntry .. | deleteEntry .. | moveEntry .. => [.entries]
  | putBlob .. | updateBlob .. | deleteBlobs .. => [.blobs]
  | insertXattr .. | updateXattr .. | deleteXattr .. => [.xattrs]
  | insertSymlink .. => [.symlinks]

variable {d d' : Db} {st : Statement} {i : ℕ}

/-- A change of one table leaves the others alone. -/
lemma same_of_single {t u : Table} (ht : t ∉ [u]) (h : ∀ t : Table, t ≠ u → t.Same d d') :
    t.Same d d' :=
  h t fun htu => ht (htu ▸ List.mem_singleton_self t)

/-- A statement leaves the other tables alone. -/
lemma Does.same (h : st.Does d d') {t : Table} (ht : t ∉ st.tables) : t.Same d d' := by
  cases st with
  | insertNode row =>
    obtain ⟨rows, -, rfl⟩ := Db.insertNode_eq_ok.mp h.2
    exact same_of_single ht fun t hne => by cases t <;> first | rfl | exact absurd rfl hne
  | updateTimes inode a m c =>
    replace h : Nodes.updateTimes inode a m c d = .ok (⟨⟩, d') := h
    unfold Nodes.updateTimes at h
    split_ifs at h
    · obtain rfl : d' = d := (Txn.Body.pure_eq_ok.mp h).2
      cases t <;> first | rfl | exact ⟨rfl, rfl⟩
    · obtain rfl := update_eq_ok.mp h
      exact same_of_single ht fun t hne => by cases t <;> first | rfl | exact absurd rfl hne
  | updateModeUidGid inode mode uid gid c =>
    obtain rfl := update_eq_ok.mp h
    exact same_of_single ht fun t hne => by cases t <;> first | rfl | exact absurd rfl hne
  | updateSize inode size m c =>
    obtain rfl := update_eq_ok.mp h
    exact same_of_single ht fun t hne => by cases t <;> first | rfl | exact absurd rfl hne
  | changeNlink inode delta c =>
    cases h
    exact same_of_single ht fun t hne => by cases t <;> first | rfl | exact absurd rfl hne
  | deleteNode inode => cases t <;> exact absurd (by simp [tables]) ht
  | insertEntry row =>
    obtain ⟨-, -, rows, -, rfl⟩ := Db.insertEntry_eq_ok.mp h
    exact same_of_single ht fun t hne => by
      cases t <;> first | rfl | exact ⟨rfl, rfl⟩ | exact absurd rfl hne
  | moveEntry p m q n =>
    replace h : d.moveEntry p m q n = .ok d' := h
    by_cases hfind : (d.entries.find? (p, m)).isSome
    · obtain ⟨-, rows, -, rfl⟩ := (Db.moveEntry_eq_ok hfind).mp h
      exact same_of_single ht fun t hne => by
        cases t <;> first | rfl | exact ⟨rfl, rfl⟩ | exact absurd rfl hne
    · rw [Db.moveEntry, if_neg hfind] at h
      obtain rfl : d = d' := Except.ok.inj h
      cases t <;> first | rfl | exact ⟨rfl, rfl⟩
  | putBlob inode chunk data =>
    obtain ⟨-, rfl⟩ := Db.putBlob_eq_ok.mp h
    exact same_of_single ht fun t hne => by
      cases t <;> first | rfl | exact ⟨rfl, rfl⟩ | exact absurd rfl hne
  | insertXattr row =>
    obtain ⟨-, rows, -, rfl⟩ := Db.insertXattr_eq_ok.mp h
    exact same_of_single ht fun t hne => by
      cases t <;> first | rfl | exact ⟨rfl, rfl⟩ | exact absurd rfl hne
  | insertSymlink row =>
    obtain ⟨-, rows, -, rfl⟩ := Db.insertSymlink_eq_ok.mp h
    exact same_of_single ht fun t hne => by
      cases t <;> first | rfl | exact ⟨rfl, rfl⟩ | exact absurd rfl hne
  | deleteEntry | updateBlob | deleteBlobs | updateXattr | deleteXattr =>
    cases h
    exact same_of_single ht fun t hne => by
      cases t <;> first | rfl | exact ⟨rfl, rfl⟩ | exact absurd rfl hne

/-- A node that is deleted takes what belongs to it along. -/
lemma deleteNode_cases (h : d.deleteNode i = .ok d') : d' = d ∧ d.hasNode i = false ∨
    d' = { d with
      nodes := d.nodes.deleteWhere fun r => r.inode = i
      entries := d.entries.deleteWhere fun e => e.parent = i
      blobs := d.blobs.deleteWhere fun r => r.inode = i
      xattrs := d.xattrs.deleteWhere fun r => r.inode = i
      symlinks := d.symlinks.deleteWhere fun r => r.inode = i } := by
  cases hnode : d.hasNode i with
  | true => exact Or.inr ((Db.deleteNode_eq_ok hnode).mp h).2
  | false =>
    rw [Db.deleteNode, hnode] at h
    exact Or.inl ⟨(Except.ok.inj h).symm, rfl⟩

lemma deleteNode_gone (h : d.deleteNode i = .ok d') : d'.hasNode i = false := by
  rcases deleteNode_cases h with ⟨rfl, hnode⟩ | rfl
  · exact hnode
  · rw [Db.hasNode, Option.isSome_eq_false_iff, Option.isNone_iff_eq_none]
    refine KeyTable.find?_eq_none.mpr fun r hr hkey => ?_
    exact of_decide_eq_false (KeyTable.mem_deleteWhere.mp hr).2 hkey

section Nodes
variable {r r' : NodesRow}

/-- Where the row of a node comes from: it is a new one, or the old one with another owner or
another size, if the statement sets these. -/
structure FromRow (st : Statement) (r r' : NodesRow) : Prop where
  kind : r'.kind = r.kind
  owner : (r'.mode = r.mode ∧ r'.uid = r.uid ∧ r'.gid = r.gid) ∨ ∃ mode uid gid c,
    st = .updateModeUidGid r.inode mode uid gid c ∧ r'.mode = mode.getD r.mode ∧
      r'.uid = uid.getD r.uid ∧ r'.gid = gid.getD r.gid
  size : r'.size = r.size ∨ ∃ size m c, st = .updateSize r.inode size m c ∧ r'.size = size

lemma FromRow.refl : FromRow st r r := ⟨rfl, Or.inl ⟨rfl, rfl, rfl⟩, Or.inl rfl⟩

lemma fromRow_of_nodes (h : d'.nodes = d.nodes) (hr' : d'.nodes.find? i = some r') :
    ∃ r, d.nodes.find? i = some r ∧ FromRow st r r' := by
  rw [h] at hr'
  exact ⟨r', hr', .refl⟩

lemma fromRow_of_updateNode {j : ℕ} {f : NodesRow → NodesRow} {hf : ∀ r, (f r).inode = r.inode}
    (h : d' = d.updateNode j f hf) (hfrom : ∀ r, r.inode = j → FromRow st r (f r))
    (hr' : d'.nodes.find? i = some r') : ∃ r, d.nodes.find? i = some r ∧ FromRow st r r' := by
  rw [h] at hr'
  unfold Db.updateNode at hr'
  rw [KeyTable.find?_updateAt] at hr'
  split_ifs at hr' with hij
  · obtain ⟨r, hr, rfl⟩ := Option.map_eq_some_iff.mp hr'
    exact ⟨r, hr, hfrom r ((KeyTable.find?_eq_some.mp hr).2.trans hij)⟩
  · exact ⟨r', hr', .refl⟩

/-- Every row of `nodes` is a new one or comes from the row it replaces. -/
lemma Does.find?_nodes (h : st.Does d d') (hr' : d'.nodes.find? i = some r') :
    (st = .insertNode r' ∧ d.nodes.find? i = none ∧ i = d.nextInode) ∨
      ∃ r, d.nodes.find? i = some r ∧ FromRow st r r' := by
  cases st with
  | insertNode row =>
    obtain ⟨hnext, hins⟩ := h
    obtain ⟨t, ht, rfl⟩ := Db.insertNode_eq_ok.mp hins
    replace hr' : t.find? i = some r' := hr'
    rw [KeyTable.find?_insert? ht, key_nodesRow] at hr'
    split_ifs at hr' with hi
    · cases hr'
      subst hi
      exact Or.inl ⟨rfl, (KeyTable.insert?_eq_some.mp ht).1, hnext⟩
    · exact Or.inr ⟨r', hr', .refl⟩
  | updateTimes inode a m c =>
    right
    replace h : Nodes.updateTimes inode a m c d = .ok (⟨⟩, d') := h
    unfold Nodes.updateTimes at h
    split_ifs at h
    · exact fromRow_of_nodes (congrArg Db.nodes (Txn.Body.pure_eq_ok.mp h).2) hr'
    · refine fromRow_of_updateNode (update_eq_ok.mp h) (fun r _ => ?_) hr'
      exact ⟨rfl, Or.inl ⟨rfl, rfl, rfl⟩, Or.inl rfl⟩
  | updateModeUidGid inode mode uid gid c =>
    right
    refine fromRow_of_updateNode (update_eq_ok.mp h) (fun r hr => ?_) hr'
    exact ⟨rfl, Or.inr ⟨mode, uid, gid, c, by rw [hr], rfl, rfl, rfl⟩, Or.inl rfl⟩
  | updateSize inode size m c =>
    right
    refine fromRow_of_updateNode (update_eq_ok.mp h) (fun r hr => ?_) hr'
    exact ⟨rfl, Or.inl ⟨rfl, rfl, rfl⟩, Or.inr ⟨size, m, c, by rw [hr], rfl⟩⟩
  | changeNlink inode delta c =>
    right
    refine fromRow_of_updateNode h (fun r _ => ?_) hr'
    exact ⟨rfl, Or.inl ⟨rfl, rfl, rfl⟩, Or.inl rfl⟩
  | deleteNode inode =>
    right
    rcases deleteNode_cases h with ⟨rfl, -⟩ | rfl
    · exact ⟨r', hr', .refl⟩
    · dsimp only at hr'
      rw [KeyTable.find?_deleteWhere, Option.filter_eq_some_iff] at hr'
      exact ⟨r', hr'.1, .refl⟩
  | _ => exact Or.inr (fromRow_of_nodes (h.same (t := .nodes) (by simp [tables])).1 hr')

/-- The counter of `nodes` is at least as large as every number that a new node ever had. -/
lemma Does.nodesSeq (h : st.Does d d') : d.nodesSeq ≤ d'.nodesSeq ∧
    ∀ row, st = .insertNode row → row.inode ≤ d'.nodesSeq := by
  cases st with
  | insertNode row =>
    obtain ⟨rows, -, rfl⟩ := Db.insertNode_eq_ok.mp h.2
    refine ⟨le_max_left _ _, fun row' hrow => ?_⟩
    cases hrow
    exact le_max_right _ _
  | updateTimes inode a m c =>
    replace h : Nodes.updateTimes inode a m c d = .ok (⟨⟩, d') := h
    unfold Nodes.updateTimes at h
    split_ifs at h
    · obtain rfl : d' = d := (Txn.Body.pure_eq_ok.mp h).2
      exact ⟨le_rfl, fun _ hrow => Statement.noConfusion hrow⟩
    · obtain rfl := update_eq_ok.mp h
      exact ⟨le_rfl, fun _ hrow => Statement.noConfusion hrow⟩
  | updateModeUidGid inode mode uid gid c =>
    obtain rfl := update_eq_ok.mp h
    exact ⟨le_rfl, fun _ hrow => Statement.noConfusion hrow⟩
  | updateSize inode size m c =>
    obtain rfl := update_eq_ok.mp h
    exact ⟨le_rfl, fun _ hrow => Statement.noConfusion hrow⟩
  | changeNlink inode delta c =>
    cases h
    exact ⟨le_rfl, fun _ hrow => Statement.noConfusion hrow⟩
  | deleteNode inode =>
    rcases deleteNode_cases h with ⟨rfl, -⟩ | rfl
    · exact ⟨le_rfl, fun _ hrow => Statement.noConfusion hrow⟩
    · exact ⟨le_rfl, fun _ hrow => Statement.noConfusion hrow⟩
  | _ =>
    exact ⟨(h.same (t := .nodes) (by simp [tables])).2.ge, fun _ hrow => Statement.noConfusion hrow⟩

/-- A node stays until it is deleted. -/
lemma Does.hasNode (h : st.Does d d') (hi : d.hasNode i = true) :
    d'.hasNode i = true ∨ st = .deleteNode i := by
  have hupdate : ∀ (j : ℕ) (f : NodesRow → NodesRow) (hf : ∀ r, (f r).inode = r.inode),
      (d.updateNode j f hf).hasNode i = true := by
    intro j f hf
    unfold Db.hasNode Db.updateNode
    rw [KeyTable.find?_updateAt]
    split_ifs
    · rw [Option.isSome_map]
      exact hi
    · exact hi
  cases st with
  | insertNode row =>
    obtain ⟨rows, ht, rfl⟩ := Db.insertNode_eq_ok.mp h.2
    left
    unfold Db.hasNode
    rw [KeyTable.find?_insert? ht]
    split_ifs
    · rfl
    · exact hi
  | updateTimes inode a m c =>
    replace h : Nodes.updateTimes inode a m c d = .ok (⟨⟩, d') := h
    unfold Nodes.updateTimes at h
    split_ifs at h
    · obtain rfl : d' = d := (Txn.Body.pure_eq_ok.mp h).2
      exact Or.inl hi
    · obtain rfl := update_eq_ok.mp h
      exact Or.inl (hupdate _ _ _)
  | updateModeUidGid inode mode uid gid c =>
    obtain rfl := update_eq_ok.mp h
    exact Or.inl (hupdate _ _ _)
  | updateSize inode size m c =>
    obtain rfl := update_eq_ok.mp h
    exact Or.inl (hupdate _ _ _)
  | changeNlink inode delta c =>
    cases h
    exact Or.inl (hupdate _ _ _)
  | deleteNode inode =>
    rcases deleteNode_cases h with ⟨rfl, -⟩ | rfl
    · exact Or.inl hi
    · by_cases hij : i = inode
      · exact Or.inr (by rw [hij])
      · left
        obtain ⟨r, hr⟩ := Option.isSome_iff_exists.mp hi
        refine Option.isSome_iff_exists.mpr ⟨r, ?_⟩
        rw [KeyTable.find?_deleteWhere, hr, Option.filter_some, if_pos]
        rw [Bool.not_eq_true', decide_eq_false_iff_not]
        exact fun hri => hij ((KeyTable.find?_eq_some.mp hr).2.symm.trans hri)
  | _ =>
    left
    unfold Db.hasNode
    rw [(h.same (t := .nodes) (by simp [tables])).1]
    exact hi

end Nodes

/-! ### The other tables -/

lemma mem_updateXattr {name : Str} {value : Bytes} {x : XattrsRow} :
    x ∈ (d.updateXattr i name value).xattrs ↔ ∃ r ∈ d.xattrs,
      x = if Keyed.key r = (i, name) then { r with value := value } else r :=
  KeyTable.mem_updateAt d.xattrs (i, name) (fun r => { r with value := value }) fun _ => rfl

lemma mem_updateBlob {chunk : ℤ} {data : Bytes} {b : BlobsRow} :
    b ∈ (d.updateBlob i chunk data).blobs ↔ ∃ r ∈ d.blobs,
      b = if Keyed.key r = (i, chunk) then { r with data := data } else r :=
  KeyTable.mem_updateAt d.blobs (i, chunk) (fun r => { r with data := data }) fun _ => rfl

/-- Where an entry comes from. -/
lemma Does.mem_entries {e : EntryRow} (h : st.Does d d') (he : e ∈ d'.entries) : e ∈ d.entries ∨
    st = .insertEntry e ∨ ∃ p m, st = .moveEntry p m e.parent e.name := by
  cases st with
  | insertEntry row =>
    rcases (Db.mem_insertEntry h).mp he with he | rfl
    · exact Or.inl he
    · exact Or.inr (Or.inl rfl)
  | deleteEntry p n =>
    cases h
    exact Or.inl (KeyTable.mem_deleteWhere.mp he).1
  | moveEntry p m q n =>
    replace h : d.moveEntry p m q n = .ok d' := h
    by_cases hfind : (d.entries.find? (p, m)).isSome
    · obtain ⟨x, hx, hkey⟩ := KeyTable.find?_isSome.mp hfind
      cases hkey
      rcases (Db.mem_moveEntry hx h).mp he with ⟨he, -⟩ | rfl
      · exact Or.inl he
      · exact Or.inr (Or.inr ⟨_, _, rfl⟩)
    · rw [Db.moveEntry, if_neg hfind] at h
      obtain rfl : d = d' := Except.ok.inj h
      exact Or.inl he
  | deleteNode inode =>
    rcases deleteNode_cases h with ⟨rfl, -⟩ | rfl
    · exact Or.inl he
    · exact Or.inl (KeyTable.mem_deleteWhere.mp he).1
  | _ =>
    left
    rw [← h.same (t := .entries) (by simp [tables])]
    exact he

/-- Where a chunk comes from. -/
lemma Does.mem_blobs {b : BlobsRow} (h : st.Does d d') (hb : b ∈ d'.blobs) :
    (∃ b₀ ∈ d.blobs, b₀.inode = b.inode) ∨
      st = .putBlob b.inode b.chunkId b.data ∧ d.hasNode b.inode = true := by
  cases st with
  | putBlob inode chunk data =>
    obtain ⟨hnode, rfl⟩ := Db.putBlob_eq_ok.mp h
    rcases KeyTable.mem_put.mp hb with rfl | ⟨hb, -⟩
    · exact Or.inr ⟨rfl, hnode⟩
    · exact Or.inl ⟨b, hb, rfl⟩
  | updateBlob inode chunk data =>
    cases h
    obtain ⟨b₀, hb₀, rfl⟩ := mem_updateBlob.mp hb
    refine Or.inl ⟨b₀, hb₀, ?_⟩
    split_ifs <;> rfl
  | deleteBlobs inode p =>
    cases h
    exact Or.inl ⟨b, (KeyTable.mem_deleteWhere.mp hb).1, rfl⟩
  | deleteNode inode =>
    rcases deleteNode_cases h with ⟨rfl, -⟩ | rfl
    · exact Or.inl ⟨b, hb, rfl⟩
    · exact Or.inl ⟨b, (KeyTable.mem_deleteWhere.mp hb).1, rfl⟩
  | _ =>
    left
    rw [h.same (t := .blobs) (by simp [tables])] at hb
    exact ⟨b, hb, rfl⟩

/-- Where an extended attribute comes from. -/
lemma Does.mem_xattrs {x : XattrsRow} (h : st.Does d d') (hx : x ∈ d'.xattrs) : x ∈ d.xattrs ∨
    (st = .insertXattr x ∧ d.hasNode x.inode = true) ∨
      st = .updateXattr x.inode x.name x.value ∧ ∃ x₀ ∈ d.xattrs, x₀.inode = x.inode ∧ x₀.name = x.name := by
  cases st with
  | insertXattr row =>
    obtain ⟨hnode, t, ht, rfl⟩ := Db.insertXattr_eq_ok.mp h
    rcases (KeyTable.mem_insert? ht).mp hx with hx | rfl
    · exact Or.inl hx
    · exact Or.inr (Or.inl ⟨rfl, hnode⟩)
  | updateXattr inode name value =>
    cases h
    obtain ⟨x₀, hx₀, rfl⟩ := mem_updateXattr.mp hx
    split_ifs with hkey
    · cases hkey
      exact Or.inr (Or.inr ⟨rfl, x₀, hx₀, rfl, rfl⟩)
    · exact Or.inl hx₀
  | deleteXattr inode name =>
    cases h
    exact Or.inl (KeyTable.mem_deleteWhere.mp hx).1
  | deleteNode inode =>
    rcases deleteNode_cases h with ⟨rfl, -⟩ | rfl
    · exact Or.inl hx
    · exact Or.inl (KeyTable.mem_deleteWhere.mp hx).1
  | _ =>
    left
    rw [← h.same (t := .xattrs) (by simp [tables])]
    exact hx

/-- Where an extended attribute goes. -/
lemma Does.mem_xattrs_of_mem {x : XattrsRow} (h : st.Does d d') (hx : x ∈ d.xattrs) :
    x ∈ d'.xattrs ∨ (∃ value, st = .updateXattr x.inode x.name value) ∨
      st = .deleteXattr x.inode x.name ∨ (st = .deleteNode x.inode ∧ d'.hasNode x.inode = false) := by
  cases st with
  | insertXattr row =>
    obtain ⟨hnode, t, ht, rfl⟩ := Db.insertXattr_eq_ok.mp h
    exact Or.inl ((KeyTable.mem_insert? ht).mpr (Or.inl hx))
  | updateXattr inode name value =>
    cases h
    by_cases hkey : Keyed.key x = (inode, name)
    · cases hkey
      exact Or.inr (Or.inl ⟨value, rfl⟩)
    · exact Or.inl (mem_updateXattr.mpr ⟨x, hx, (if_neg hkey).symm⟩)
  | deleteXattr inode name =>
    cases h
    by_cases hkey : x.inode = inode ∧ x.name = name
    · obtain ⟨rfl, rfl⟩ := hkey
      exact Or.inr (Or.inr (Or.inl rfl))
    · exact Or.inl (KeyTable.mem_deleteWhere.mpr ⟨hx, decide_eq_false hkey⟩)
  | deleteNode inode =>
    by_cases hi : x.inode = inode
    · subst hi
      exact Or.inr (Or.inr (Or.inr ⟨rfl, deleteNode_gone h⟩))
    · rcases deleteNode_cases h with ⟨rfl, -⟩ | rfl
      · exact Or.inl hx
      · exact Or.inl (KeyTable.mem_deleteWhere.mpr ⟨hx, decide_eq_false hi⟩)
  | _ =>
    left
    rw [h.same (t := .xattrs) (by simp [tables])]
    exact hx

/-- Where the target of a symbolic link comes from. -/
lemma Does.mem_symlinks {l : SymlinksRow} (h : st.Does d d') (hl : l ∈ d'.symlinks) :
    l ∈ d.symlinks ∨ (st = .insertSymlink l ∧ d.hasNode l.inode = true) := by
  cases st with
  | insertSymlink row =>
    obtain ⟨hnode, t, ht, rfl⟩ := Db.insertSymlink_eq_ok.mp h
    rcases (KeyTable.mem_insert? ht).mp hl with hl | rfl
    · exact Or.inl hl
    · exact Or.inr ⟨rfl, hnode⟩
  | deleteNode inode =>
    rcases deleteNode_cases h with ⟨rfl, -⟩ | rfl
    · exact Or.inl hl
    · exact Or.inl (KeyTable.mem_deleteWhere.mp hl).1
  | _ =>
    left
    rw [← h.same (t := .symlinks) (by simp [tables])]
    exact hl

/-- Where the target of a symbolic link goes. -/
lemma Does.mem_symlinks_of_mem {l : SymlinksRow} (h : st.Does d d') (hl : l ∈ d.symlinks) :
    l ∈ d'.symlinks ∨ d'.hasNode l.inode = false := by
  cases st with
  | insertSymlink row =>
    obtain ⟨-, t, ht, rfl⟩ := Db.insertSymlink_eq_ok.mp h
    exact Or.inl ((KeyTable.mem_insert? ht).mpr (Or.inl hl))
  | deleteNode inode =>
    by_cases hi : l.inode = inode
    · subst hi
      exact Or.inr (deleteNode_gone h)
    · rcases deleteNode_cases h with ⟨rfl, -⟩ | rfl
      · exact Or.inl hl
      · exact Or.inl (KeyTable.mem_deleteWhere.mpr ⟨hl, decide_eq_false hi⟩)
  | _ =>
    left
    rw [h.same (t := .symlinks) (by simp [tables])]
    exact hl

/-! ### Kinds and owners -/

/-- A node keeps its kind as long as it exists. -/
lemma Does.kind (h : st.Does d d') (hi : d.hasNode i = true) (hi' : d'.hasNode i = true) :
    d'.kind i = d.kind i := by
  obtain ⟨r', hr'⟩ := Option.isSome_iff_exists.mp hi'
  rcases h.find?_nodes hr' with ⟨-, hnone, -⟩ | ⟨r, hr, hfrom⟩
  · rw [Db.hasNode, hnone] at hi
    cases hi
  · rw [Db.kind, Db.kind, Db.info_of_find? hr, Db.info_of_find? hr']
    exact congrArg some hfrom.kind

end Statement

/-- Chunks, extended attributes and link targets belong to nodes. -/
structure Db.Owned (d : Db) : Prop where
  blobs : ∀ b ∈ d.blobs, d.hasNode b.inode = true
  xattrs : ∀ x ∈ d.xattrs, d.hasNode x.inode = true
  symlinks : ∀ l ∈ d.symlinks, d.hasNode l.inode = true

namespace Statement

variable {d d' : Db} {st : Statement} {i : ℕ}

/-- Where a statement leaves something of a node, the node stays. -/
lemma Does.hasNode_of_remains (h : st.Does d d') (hi : d.hasNode i = true)
    (hremains : (∃ b ∈ d'.blobs, b.inode = i) ∨ (∃ x ∈ d'.xattrs, x.inode = i) ∨
      ∃ l ∈ d'.symlinks, l.inode = i) : d'.hasNode i = true := by
  rcases h.hasNode hi with hi' | rfl
  · exact hi'
  · rcases deleteNode_cases h with ⟨rfl, hnone⟩ | rfl
    · exact hi
    · rcases hremains with ⟨b, hb, hbi⟩ | ⟨x, hx, hxi⟩ | ⟨l, hl, hli⟩
      · exact absurd hbi (of_decide_eq_false (KeyTable.mem_deleteWhere.mp hb).2)
      · exact absurd hxi (of_decide_eq_false (KeyTable.mem_deleteWhere.mp hx).2)
      · exact absurd hli (of_decide_eq_false (KeyTable.mem_deleteWhere.mp hl).2)

/-- A node that is deleted takes along what belongs to it. -/
lemma Does.owned (h : st.Does d d') (hd : d.Owned) : d'.Owned := by
  refine ⟨fun b hb => ?_, fun x hx => ?_, fun l hl => ?_⟩
  · refine h.hasNode_of_remains ?_ (Or.inl ⟨b, hb, rfl⟩)
    rcases h.mem_blobs hb with ⟨b₀, hb₀, heq⟩ | ⟨-, hnode⟩
    · rw [← heq]
      exact hd.blobs b₀ hb₀
    · exact hnode
  · refine h.hasNode_of_remains ?_ (Or.inr (Or.inl ⟨x, hx, rfl⟩))
    rcases h.mem_xattrs hx with hx₀ | ⟨-, hnode⟩ | ⟨-, x₀, hx₀, heq, -⟩
    · exact hd.xattrs x hx₀
    · exact hnode
    · rw [← heq]
      exact hd.xattrs x₀ hx₀
  · refine h.hasNode_of_remains ?_ (Or.inr (Or.inr ⟨l, hl, rfl⟩))
    rcases h.mem_symlinks hl with hl₀ | ⟨-, hnode⟩
    · exact hd.symlinks l hl₀
    · exact hnode

/-! ### Contents -/

/-- The statement may change the contents of the node `i`. -/
def Rewrites (i : ℕ) : Statement → Prop
  | putBlob j _ _ | updateBlob j _ _ | deleteBlobs j _ | updateSize j _ _ _ => j = i
  | _ => False

lemma Does.select_blobs (h : st.Does d d') : d'.hasNode i = false ∨ st.Rewrites i ∨
    d'.blobs.select (fun b => b.inode = i) = d.blobs.select fun b => b.inode = i := by
  cases st with
  | putBlob j chunk data =>
    by_cases hij : i = j
    · exact Or.inr (Or.inl hij.symm)
    · exact Or.inr (Or.inr ((Blobs.ChangesChunks.putBlob h).others i hij))
  | updateBlob j chunk data =>
    cases h
    by_cases hij : i = j
    · exact Or.inr (Or.inl hij.symm)
    · exact Or.inr (Or.inr ((Blobs.ChangesChunks.updateBlob chunk data).others i hij))
  | deleteBlobs j p =>
    cases h
    by_cases hij : i = j
    · exact Or.inr (Or.inl hij.symm)
    · exact Or.inr (Or.inr ((Blobs.ChangesChunks.deleteBlobs fun b => p b = true).others i hij))
  | deleteNode j =>
    by_cases hij : i = j
    · subst hij
      exact Or.inl (deleteNode_gone h)
    · rcases deleteNode_cases h with ⟨rfl, -⟩ | rfl
      · exact Or.inr (Or.inr rfl)
      · refine Or.inr (Or.inr (KeyTable.select_deleteWhere fun b _ hb => ?_))
        exact decide_eq_false fun hbj => hij ((of_decide_eq_true hb).symm.trans hbj)
  | _ =>
    refine Or.inr (Or.inr ?_)
    rw [h.same (t := .blobs) (by simp [tables])]

/-- A statement leaves the size and the chunks of a node alone, unless it is about them or the node
goes. -/
lemma Does.sameFile (h : st.Does d d') (hnode : d.hasNode i = true) :
    d'.hasNode i = false ∨ st.Rewrites i ∨ d.SameFile d' i := by
  cases hnode' : d'.hasNode i with
  | false => exact Or.inl rfl
  | true =>
    right
    obtain ⟨r', hr'⟩ := Option.isSome_iff_exists.mp hnode'
    rcases h.find?_nodes hr' with ⟨-, hnone, -⟩ | ⟨r, hr, hfrom⟩
    · rw [Db.hasNode, hnone] at hnode
      cases hnode
    · rcases hfrom.size with hsize | ⟨size, m, c, rfl, -⟩
      · rcases h.select_blobs (i := i) with hgone | hrewrites | hchunks
        · rw [hnode'] at hgone
          cases hgone
        · exact Or.inl hrewrites
        · refine Or.inr ⟨?_, hchunks⟩
          rw [Db.info_of_find? hr, Db.info_of_find? hr']
          exact congrArg some hsize
      · exact Or.inl (KeyTable.find?_eq_some.mp hr).2

end Statement

/-! ### Numbers of nodes -/

namespace Db

variable {d d' : Db} {i : ℕ} {st : Statement}

/-- The counter of `nodes` has reached the number of every node. -/
def SeqBounds (d : Db) : Prop := ∀ i, d.hasNode i = true → i ≤ d.nodesSeq

lemma seq_lt_nextInode (d : Db) : d.nodesSeq < d.nextInode := by
  have hmax : ∀ (rows : List NodesRow) (m : ℕ), m ≤ rows.foldl (fun m r => max m r.inode) m := by
    intro rows
    induction rows with
    | nil => exact fun m => le_rfl
    | cons x rows ih => exact fun m => (le_max_left _ _).trans (ih _)
  exact Nat.lt_succ_of_le (hmax _ _)

lemma SeqBounds.does (h : d.SeqBounds) (hst : st.Does d d') : d'.SeqBounds := by
  intro i hi
  obtain ⟨r', hr'⟩ := Option.isSome_iff_exists.mp hi
  obtain ⟨hle, hnew⟩ := hst.nodesSeq
  rcases hst.find?_nodes hr' with ⟨hrow, -, -⟩ | ⟨r, hr, -⟩
  · rw [← (KeyTable.find?_eq_some.mp hr').2]
    exact hnew r' hrow
  · exact (h i (Option.isSome_iff_exists.mpr ⟨r, hr⟩)).trans hle

/-- A node that is gone does not come back: what the statements keep as long as the node is there
holds to the end, or the node is gone. -/
lemma Writes.gone_or {A : Statement → Prop} {P : Db → Prop} (hi : i ≤ d.nodesSeq) (hP : P d)
    (hstep : ∀ st d d', A st → st.Does d d' → d.hasNode i = true → P d →
      d'.hasNode i = false ∨ P d') (h : d.Writes A d') : d'.hasNode i = false ∨ P d' := by
  have hkeeps : ∀ st d d', A st → st.Does d d' → (i ≤ d.nodesSeq ∧ (d.hasNode i = false ∨ P d)) →
      (i ≤ d'.nodesSeq ∧ (d'.hasNode i = false ∨ P d')) := by
    rintro st d d' hA hst ⟨hle, hd⟩
    refine ⟨hle.trans hst.nodesSeq.1, ?_⟩
    cases hnode : d.hasNode i with
    | true =>
      rw [hnode] at hd
      exact hstep st d d' hA hst hnode (hd.resolve_left (by decide))
    | false =>
      left
      by_contra hback
      obtain ⟨r', hr'⟩ := Option.isSome_iff_exists.mp (Bool.not_eq_false _ ▸ hback)
      rcases hst.find?_nodes hr' with ⟨-, -, hnext⟩ | ⟨r, hr, -⟩
      · have hlt := d.seq_lt_nextInode
        omega
      · rw [Db.hasNode, hr] at hnode
        cases hnode
  exact (h.keeps hkeeps ⟨hi, Or.inr hP⟩).2

end Db

namespace Filesystem

variable {s : Filesystem}

lemma seqBounds_fresh (h : Fresh s) : s.conn.SeqBounds := by
  obtain ⟨chunkSize, ownerUid, ownerGid, now, readonly, uid, gid, rfl⟩ := h
  intro i hi
  obtain ⟨r, hr, rfl⟩ := KeyTable.find?_isSome.mp hi
  rcases KeyTable.mem_put.mp hr with rfl | ⟨hr, -⟩
  · exact le_rfl
  · exact absurd hr (KeyTable.not_mem_empty r)

lemma owned_fresh (h : Fresh s) : s.conn.Owned := by
  obtain ⟨chunkSize, ownerUid, ownerGid, now, readonly, uid, gid, rfl⟩ := h
  exact ⟨fun b hb => absurd hb (KeyTable.not_mem_empty b),
    fun x hx => absurd hx (KeyTable.not_mem_empty x),
    fun l hl => absurd hl (KeyTable.not_mem_empty l)⟩

/-- What every statement keeps holds along every run, if it does at the start. -/
theorem run_statements {init : Filesystem → Prop} {Ok : Filesystem → Call → Prop} {P : Db → Prop}
    (hinit : ∀ s, init s → P s.conn) (hP : ∀ (st : Statement) d d', st.Does d d' → P d → P d')
    (h : Run init Call.exec Ok s) : P s.conn := by
  refine Run.invariant (P := fun s => P s.conn) hinit ?_ h
  intro s call _ _ hs
  cases call with
  | reopen readonly uid gid => exact hs
  | op user clock operation =>
    exact (Call.writes user clock operation s).keeps (fun st d d' _ => hP st d d') hs

/-- Along every run, chunks, extended attributes and link targets belong to nodes. -/
lemma owned_runsTo {Ok : Filesystem → Call → Prop} (h : RunsTo Ok s) : s.conn.Owned :=
  run_statements (fun _ => owned_fresh) (fun _ _ _ hst hd => hst.owned hd) h

/-- Along every run the counter of `nodes` bounds the numbers in use, if it does at the start. -/
lemma seqBounds_run {init : Filesystem → Prop} {Ok : Filesystem → Call → Prop}
    (hinit : ∀ s, init s → s.conn.SeqBounds) (h : Run init Call.exec Ok s) : s.conn.SeqBounds :=
  run_statements hinit (fun _ _ _ hst hd => hd.does hst) h

end Filesystem

end SqliteFs
