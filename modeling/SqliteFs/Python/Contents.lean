import SqliteFs.Python.ChunkStores
import SqliteFs.Python.Skeleton

/-!
# The contents of files in the Python library

The contents of a node are its size and its chunks. Only `write` and the operations that truncate
change those of a node that stays: here is what their transactions do to one node, and when they
do something at all.
-/

namespace SqliteFs

open Txn

namespace Python

namespace Db

variable {d d₁ d₂ : Db} {i j : ℕ}

/-- Node `i` has the same size and the same chunks in both databases. -/
structure SameFile (d d' : Db) (i : ℕ) : Prop where
  size : (d'.nodes.find? i).map NodesRow.size = (d.nodes.find? i).map NodesRow.size
  blob : ∀ c, d'.blobs.find? (i, c) = d.blobs.find? (i, c)

/-- The nodes of `d'` are nodes of `d`, with the same contents. -/
def Shrinks (d d' : Db) : Prop := ∀ i, d'.hasNode i = true → d.SameFile d' i

/-- Where a node is in both databases, it has the same contents. -/
def Spares (d d' : Db) : Prop := ∀ i, d.hasNode i = true → d'.hasNode i = true → d.SameFile d' i

lemma SameFile.refl : d.SameFile d i := ⟨rfl, fun _ => rfl⟩

lemma SameFile.trans (h : d.SameFile d₁ i) (h' : d₁.SameFile d₂ i) : d.SameFile d₂ i :=
  ⟨h'.size.trans h.size, fun c => (h'.blob c).trans (h.blob c)⟩

lemma SameFile.hasNode (h : d.SameFile d₁ i) : d₁.hasNode i = d.hasNode i := by
  unfold Db.hasNode
  rw [← Option.isSome_map (f := NodesRow.size), h.size, Option.isSome_map]

lemma Shrinks.refl : d.Shrinks d := fun _ _ => .refl

lemma Shrinks.trans (h : d.Shrinks d₁) (h' : d₁.Shrinks d₂) : d.Shrinks d₂ := by
  intro i hi
  have hsame := h' i hi
  rw [hsame.hasNode] at hi
  exact (h i hi).trans hsame

lemma Shrinks.spares (h : d.Shrinks d₁) : d.Spares d₁ := fun i _ hi => h i hi

/-- A new node, and no others after it. -/
lemma Spares.of_insertNode {row : NodesRow} (h : d.insertNode row = some d₁) (h' : d₁.Shrinks d₂) :
    d.Spares d₂ := by
  intro i hi hi₂
  refine SameFile.trans ⟨?_, ?_⟩ (h' i hi₂)
  · obtain ⟨t, ht, rfl⟩ := Option.map_eq_some_iff.mp h
    have hne : Keyed.key row ≠ i := by
      rintro rfl
      have hfree := (KeyTable.insert?_eq_some.mp ht).1
      unfold Db.hasNode at hi
      rw [hfree] at hi
      cases hi
    dsimp only
    rw [KeyTable.find?_insert? ht, if_neg hne]
  · obtain ⟨t, -, rfl⟩ := Option.map_eq_some_iff.mp h
    exact fun _ => rfl

/-! ### Statements that leave contents alone -/

lemma shrinks_of_tables (hnodes : d₁.nodes = d.nodes) (hblobs : d₁.blobs = d.blobs) :
    d.Shrinks d₁ := by
  intro i _
  refine ⟨by rw [hnodes], fun c => by rw [hblobs]⟩

lemma shrinks_updateNode {f : NodesRow → NodesRow} {hf : ∀ r, (f r).inode = r.inode}
    (hsize : ∀ r, (f r).size = r.size) : d.Shrinks (d.updateNode i f hf) := by
  intro j _
  refine ⟨?_, fun _ => rfl⟩
  unfold Db.updateNode
  rw [KeyTable.find?_updateAt]
  split_ifs
  · rw [Option.map_map]
    congr 1
    funext r
    exact hsize r
  · rfl

lemma find?_deleteWhere_inode {ρ κ : Type} [DecidableEq κ] [Keyed ρ κ] {t : KeyTable ρ} {k : κ}
    {p : ρ → Bool} (h : ∀ r, Keyed.key r = k → p r = false) : (t.deleteWhere p).find? k = t.find? k := by
  rw [KeyTable.find?_deleteWhere]
  cases hr : t.find? k with
  | none => rfl
  | some r =>
    have hkey := (KeyTable.find?_eq_some.mp hr).2
    rw [Option.filter, h r hkey]
    rfl

lemma shrinks_deleteNode (h : d.deleteNode i = some d₁) : d.Shrinks d₁ := by
  intro j hj
  unfold deleteNode at h
  split_ifs at h with hnode
  · dsimp only at h
    split_ifs at h
    cases h
    have hne : j ≠ i := by
      rintro rfl
      obtain ⟨r, hr⟩ := Option.isSome_iff_exists.mp hj
      dsimp only at hr
      rw [KeyTable.find?_deleteWhere, Option.filter_eq_some_iff] at hr
      have hkey := (KeyTable.find?_eq_some.mp hr.1).2
      rw [key_nodesRow] at hkey
      simp [hkey] at hr
    refine ⟨?_, fun c => ?_⟩
    · dsimp only
      rw [find?_deleteWhere_inode]
      rintro r rfl
      exact decide_eq_false hne
    · dsimp only
      rw [find?_deleteWhere_inode]
      intro r hr
      rw [key_blobsRow, Prod.mk.injEq] at hr
      rw [hr.1]
      exact decide_eq_false hne
  · cases h
    exact .refl

end Db

section Chunks
variable {d d₁ d' : Db} {env : Env} {i j : ℕ} {new old chunkSize : ℤ} {u : PUnit}

/-- The nodes, and the chunks of all nodes but `i`, are the same in both databases. -/
def Db.EditsChunks (d : Db) (i : ℕ) (d' : Db) : Prop :=
  d'.nodes = d.nodes ∧ ∀ j ≠ i, ∀ c, d'.blobs.find? (j, c) = d.blobs.find? (j, c)

lemma Db.EditsChunks.refl : d.EditsChunks i d := ⟨rfl, fun _ _ _ => rfl⟩

lemma Db.EditsChunks.trans (h : d.EditsChunks i d₁) (h' : d₁.EditsChunks i d') :
    d.EditsChunks i d' :=
  ⟨h'.1.trans h.1, fun j hj c => (h'.2 j hj c).trans (h.2 j hj c)⟩

lemma keeps_editsChunks {f : Db → Db} (hf : ∀ d : Db, d.EditsChunks i (f d)) :
    Body.Keeps (d.EditsChunks i) (update f) := by
  refine .exec fun d₁ d₂ hd h => ?_
  obtain rfl := Except.ok.inj h
  exact hd.trans (hf d₁)

lemma Db.editsChunks_deleteBlobs {p : BlobsRow → Bool} (hp : ∀ r, p r = true → r.inode = i) :
    d.EditsChunks i (d.deleteBlobs p) := by
  refine ⟨rfl, fun j hj c => ?_⟩
  refine Db.find?_deleteWhere_inode fun r hr => Bool.eq_false_of_not_eq_true fun hpr => hj ?_
  rw [key_blobsRow, Prod.mk.injEq] at hr
  rw [← hr.1, hp r hpr]

lemma Db.editsChunks_updateBlob {chunkId : ℤ} {data : Bytes} :
    d.EditsChunks i (d.updateBlob i chunkId data) := by
  refine ⟨rfl, fun j hj c => ?_⟩
  unfold Db.updateBlob
  rw [KeyTable.find?_updateAt, if_neg fun h => hj (Prod.mk.inj h).1]

lemma keeps_truncateTo_chunks :
    Body.Keeps (d.EditsChunks i) (Blobs.truncateTo i new old chunkSize) := by
  have hcut : ∀ {c : BlobsRow → Prop} [DecidablePred c], Body.Keeps (d.EditsChunks i)
      (update fun d => d.deleteBlobs fun r => r.inode = i ∧ c r) := by
    intro c _
    exact keeps_editsChunks fun _ => Db.editsChunks_deleteBlobs fun _ hr => by simp at hr; exact hr.1
  refine .ite (.pure _) (.ite (.bind (.ask _) fun _ => .bind (.ask _) fun _ =>
    .bind (.ask _) fun _ => .bind hcut fun _ =>
    .ite hcut (.bind (.ask _) fun row => ?_)) (.pure _))
  cases row with
  | none => exact .pure _
  | some data => exact keeps_editsChunks fun _ => Db.editsChunks_updateBlob

lemma floorDiv_eq_ok {a b n : ℤ} : Blobs.floorDiv a b = .ok n ↔ b ≠ 0 ∧ n = a.fdiv b := by
  unfold Blobs.floorDiv raise
  split_ifs with hb <;> simp [hb, eq_comm]

lemma mod_eq_ok {a b n : ℤ} : Blobs.mod a b = .ok n ↔ b ≠ 0 ∧ n = a.fmod b := by
  unfold Blobs.mod raise
  split_ifs with hb <;> simp [hb, eq_comm]

/-- What truncation does to the chunk at its boundary never fails. -/
lemma boundaryChunk_isOk (b off : ℤ) (d : Db) : ∃ d', (if off = 0 then
      update fun d => d.deleteBlobs fun r => r.inode = i ∧ r.chunkId = b
    else do
      let row ← Body.ask fun d => .ok ((d.blobs.find? (i, b)).map BlobsRow.data)
      match row with
      | some data => update fun d => d.updateBlob i b (Blobs.slice data 0 off)
      | none => pure ⟨⟩ : Sql PUnit) d = .ok (⟨⟩, d') := by
  split_ifs
  · exact ⟨_, update_eq_ok.mpr rfl⟩
  · cases hrow : (d.blobs.find? (i, b)).map BlobsRow.data with
    | none => exact ⟨d, Body.ask_bind_eq_ok.mpr ⟨_, congrArg Except.ok hrow, rfl⟩⟩
    | some data =>
      exact ⟨_, Body.ask_bind_eq_ok.mpr ⟨_, congrArg Except.ok hrow, update_eq_ok.mpr rfl⟩⟩

/-- Truncation fails for chunks without a size, or when the boundary is no integer of SQLite's. -/
lemma truncateTo_isOk : (∃ d', Blobs.truncateTo i new old chunkSize d = .ok (⟨⟩, d')) ↔
    (new < old → chunkSize ≠ 0 ∧ Storable (new.fdiv chunkSize)) := by
  unfold Blobs.truncateTo
  split_ifs with heq hlt
  · exact iff_of_true ⟨_, rfl⟩ fun hlt => absurd heq hlt.ne
  · constructor
    · rintro ⟨d', h⟩ -
      obtain ⟨b, hb, h₁⟩ := Body.ask_bind_eq_ok.mp h
      obtain ⟨_, -, h₂⟩ := Body.ask_bind_eq_ok.mp h₁
      obtain ⟨hst, -⟩ := params_bind_eq_ok.mp h₂
      obtain ⟨hne, rfl⟩ := floorDiv_eq_ok.mp hb
      exact ⟨hne, hst _ (List.mem_singleton.mpr rfl)⟩
    · intro h
      obtain ⟨hne, hst⟩ := h hlt
      have hdiv : Blobs.floorDiv new chunkSize = .ok (new.fdiv chunkSize) :=
        floorDiv_eq_ok.mpr ⟨hne, rfl⟩
      have hmod : Blobs.mod new chunkSize = .ok (new.fmod chunkSize) := mod_eq_ok.mpr ⟨hne, rfl⟩
      obtain ⟨d', hd'⟩ := boundaryChunk_isOk (i := i) (new.fdiv chunkSize) (new.fmod chunkSize)
        (d.deleteBlobs fun r => r.inode = i ∧ r.chunkId > new.fdiv chunkSize)
      refine ⟨d', Body.ask_bind_eq_ok.mpr ⟨_, hdiv, Body.ask_bind_eq_ok.mpr ⟨_, hmod, ?_⟩⟩⟩
      exact params_bind_eq_ok.mpr ⟨fun n hn => (List.mem_singleton.mp hn) ▸ hst,
        update_bind_eq_ok.mpr hd'⟩
  · exact iff_of_true ⟨_, rfl⟩ fun hlt' => absurd hlt' hlt

/-- The database that a transaction leaves. -/
def committed {α : Type} (b : Sql α) (d : Db) : Db :=
  match b d with
  | .ok r => r.2
  | .error _ => d

/-- Only the contents of node `i` may differ in `d'`, and they do if and only if `c`. -/
structure Db.Edits (d d' : Db) (i : ℕ) (c : Prop) : Prop where
  others : ∀ j ≠ i, d.SameFile d' j
  node : d'.hasNode i = d.hasNode i
  contents : ¬ d.SameFile d' i ↔ c

/-- Truncation from `old` bytes to `new` goes through and changes the size. -/
structure Resizes (chunkSize new old : ℤ) : Prop where
  differs : new ≠ old
  storable : Storable new
  boundary : new < old → chunkSize ≠ 0 ∧ Storable (new.fdiv chunkSize)

lemma updateSize_eq_ok {size : ℤ} {m c : ℤ} : Nodes.updateSize i size m c d = .ok (u, d') ↔
    Storable size ∧ d' = d.updateNode i
      (fun r => { r with size := size, mtimeNs := m, ctimeNs := c }) fun _ => rfl := by
  refine params_bind_eq_ok.trans (and_congr ?_ update_eq_ok)
  simp

/-- A change of chunks of node `i` and then of its size. -/
lemma sizes_updateSize {size m c : ℤ} (h : d.EditsChunks i d₁)
    (h' : Nodes.updateSize i size m c d₁ = .ok (u, d')) :
    (∀ j ≠ i, d.SameFile d' j) ∧ d'.hasNode i = d.hasNode i ∧ d'.blobs = d₁.blobs ∧
      (d'.nodes.find? i).map NodesRow.size = (d.nodes.find? i).map fun _ => size := by
  obtain ⟨-, rfl⟩ := updateSize_eq_ok.mp h'
  refine ⟨fun j hj => ⟨?_, fun c => h.2 j hj c⟩, ?_, rfl, ?_⟩
  · unfold Db.updateNode
    rw [KeyTable.find?_updateAt, if_neg hj, h.1]
  · unfold Db.updateNode Db.hasNode
    rw [KeyTable.find?_updateAt, if_pos rfl, Option.isSome_map, h.1]
  · unfold Db.updateNode
    rw [KeyTable.find?_updateAt, if_pos rfl, Option.map_map, h.1]
    rfl

/-- When the contents of a node with a given row, size and table of chunks differ. -/
lemma not_sameFile_iff {row : NodesRow} {size : ℤ} (hrow : d.nodes.find? i = some row)
    (hsize : (d'.nodes.find? i).map NodesRow.size = (d.nodes.find? i).map fun _ => size) :
    ¬ d.SameFile d' i ↔
      size ≠ row.size ∨ ∃ c, d'.blobs.find? (i, c) ≠ d.blobs.find? (i, c) := by
  rw [hrow] at hsize
  constructor
  · intro hdiff
    by_contra hnot
    simp only [not_or, not_exists, not_not] at hnot
    refine hdiff ⟨?_, hnot.2⟩
    rw [hsize, hrow, Option.map_some, Option.map_some, hnot.1]
  · rintro (hne | ⟨c, hc⟩) hsame
    · have hs := hsame.size
      rw [hsize, hrow] at hs
      exact hne (Option.some.inj hs)
    · exact hc (hsame.blob c)

lemma edits_truncateBody (env : Env) (new chunkSize : ℤ) {row : NodesRow}
    (hrow : d.nodes.find? i = some row) :
    d.Edits (committed (Filesystem.truncateBody env i new row.size chunkSize) d) i
      (Resizes chunkSize new row.size) := by
  unfold committed
  cases h : Filesystem.truncateBody env i new row.size chunkSize d with
  | error e =>
    refine ⟨fun _ _ => .refl, rfl, iff_of_false (not_not_intro .refl) fun hres => ?_⟩
    obtain ⟨d₁, h₁⟩ := truncateTo_isOk (d := d) (i := i) |>.mpr hres.boundary
    have hok : Filesystem.truncateBody env i new row.size chunkSize d = .ok (⟨⟩, _) :=
      Body.bind_eq_ok.mpr ⟨⟨⟩, d₁, h₁, updateSize_eq_ok.mpr ⟨hres.storable, rfl⟩⟩
    cases h.symm.trans hok
  | ok r =>
    obtain ⟨u, d'⟩ := r
    obtain ⟨_, d₁, h₁, h₂⟩ := Body.bind_eq_ok.mp h
    obtain ⟨hothers, hnode, hblobs, hsize⟩ :=
      sizes_updateSize (keeps_truncateTo_chunks d _ d₁ .refl h₁) h₂
    refine ⟨hothers, hnode, (not_sameFile_iff hrow hsize).trans ?_⟩
    constructor
    · intro hdiff
      refine ⟨fun hnew => ?_, (updateSize_eq_ok.mp h₂).1, truncateTo_isOk.mp ⟨d₁, h₁⟩⟩
      have hsame : d₁ = d := by
        unfold Blobs.truncateTo at h₁
        rw [if_pos hnew] at h₁
        exact (Body.pure_eq_ok.mp h₁).2
      obtain ⟨c, hc⟩ := hdiff.resolve_left (not_not_intro hnew)
      rw [hblobs, hsame] at hc
      exact hc rfl
    · exact fun hres => Or.inl hres.differs

end Chunks

end Python

end SqliteFs
