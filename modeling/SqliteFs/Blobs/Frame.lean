import SqliteFs.Blobs.Basic

/-!
# What the blob functions leave alone

The writing functions change the chunks of one inode and nothing else. Reading depends on the
chunks of its inode only. None of the functions returns `Err` on a node that exists: where the
arithmetic goes wrong, they panic.
-/

namespace SqliteFs

open Txn

namespace Blobs

/-! ### Writing -/

/-- `d'` differs from `d` in the chunks of `inode` only. -/
structure ChangesChunks (d d' : Db) (inode : ℕ) : Prop where
  rest : d' = { d with blobs := d'.blobs }
  others : ∀ i, i ≠ inode →
    d'.blobs.select (fun r => r.inode = i) = d.blobs.select fun r => r.inode = i

namespace ChangesChunks

variable {d d' d'' : Db} {inode : ℕ}

lemma refl : ChangesChunks d d inode := ⟨rfl, fun _ _ => rfl⟩

lemma trans (h : ChangesChunks d d' inode) (h' : ChangesChunks d' d'' inode) :
    ChangesChunks d d'' inode := by
  refine ⟨?_, fun i hi => (h'.others i hi).trans (h.others i hi)⟩
  rw [h'.rest, h.rest]

lemma nodes (h : ChangesChunks d d' inode) : d'.nodes = d.nodes := by rw [h.rest]

lemma entries (h : ChangesChunks d d' inode) : d'.entries = d.entries := by rw [h.rest]

lemma hasNode (h : ChangesChunks d d' inode) (n : ℕ) : d'.hasNode n = d.hasNode n := by
  rw [Db.hasNode, Db.hasNode, h.nodes]

/-- A row of `inode` is no row of another one. -/
lemma decide_inode {r : BlobsRow} {i : ℕ} (hr : r.inode = inode) (hi : i ≠ inode) :
    decide (r.inode = i) = false := by
  rw [decide_eq_false_iff_not, hr]
  exact hi.symm

lemma putBlob {i : ℤ} {data : Bytes} (h : d.putBlob inode i data = .ok d') :
    ChangesChunks d d' inode := by
  obtain ⟨-, rfl⟩ := Db.putBlob_eq_ok.mp h
  exact ⟨rfl, fun j hj => KeyTable.select_put fun x hx => decide_inode (congrArg Prod.fst hx) hj⟩

lemma deleteBlobs (p : BlobsRow → Prop) [DecidablePred p] :
    ChangesChunks d (d.deleteBlobs fun r => r.inode = inode ∧ p r) inode := by
  refine ⟨rfl, fun j hj => KeyTable.select_deleteWhere fun r _ hr => ?_⟩
  rw [decide_eq_false_iff_not]
  rintro ⟨hri, -⟩
  exact hj ((of_decide_eq_true hr).symm.trans hri)

lemma updateBlob (i : ℤ) (data : Bytes) : ChangesChunks d (d.updateBlob inode i data) inode := by
  refine ⟨rfl, fun j hj => ?_⟩
  refine KeyTable.select_updateAt d.blobs (inode, i) (fun r => { r with data := data })
    (fun _ => rfl) fun r hr => ?_
  have hri : r.inode = inode := congrArg Prod.fst hr
  exact ⟨decide_inode hri hj, decide_inode (r := { r with data := data }) hri hj⟩

end ChangesChunks

section Changes
variable {d : Db} {inode chunkSize : ℕ}

lemma writeLoop_changes {existing : List (ℕ × Bytes)} {data : Bytes} {offset n : ℕ}
    (cids : List ℕ) : ∀ {cursor : ℕ} {d d' : Db} {u : PUnit},
      writeLoop inode existing data offset n chunkSize cids cursor d = .ok (u, d') →
      ChangesChunks d d' inode := by
  induction cids with
  | nil =>
    intro cursor d d' u h
    rw [(Body.pure_eq_ok.mp h).2]
    exact .refl
  | cons cid cids ih =>
    intro cursor d d' u h
    obtain ⟨m, -, h⟩ := Body.ask_bind_eq_ok.mp h
    obtain ⟨d₂, hput, h⟩ := stmt_bind_eq_ok.mp h
    exact (ChangesChunks.putBlob hput).trans (ih h)

lemma writeRange_changes {data : Bytes} {offset fileSize n : ℕ} {d' : Db}
    (h : writeRange inode data offset fileSize chunkSize d = .ok (n, d')) :
    ChangesChunks d d' inode := by
  unfold writeRange at h
  split_ifs at h
  · rw [(Body.pure_eq_ok.mp h).2]
    exact .refl
  · obtain ⟨first, -, h⟩ := Body.ask_bind_eq_ok.mp h
    obtain ⟨last, -, h⟩ := Body.ask_bind_eq_ok.mp h
    obtain ⟨existing, -, h⟩ := Body.ask_bind_eq_ok.mp h
    obtain ⟨u, d₁, hloop, h⟩ := Body.bind_eq_ok.mp h
    rw [(Body.pure_eq_ok.mp h).2]
    exact writeLoop_changes _ hloop

lemma truncateTo_changes {newSize oldSize : ℕ} {d' : Db} {u : PUnit}
    (h : truncateTo inode newSize oldSize chunkSize d = .ok (u, d')) :
    ChangesChunks d d' inode := by
  unfold truncateTo at h
  split_ifs at h
  · rw [(Body.pure_eq_ok.mp h).2]
    exact .refl
  obtain ⟨boundary, -, h⟩ := Body.ask_bind_eq_ok.mp h
  obtain ⟨boundaryOff, -, h⟩ := Body.ask_bind_eq_ok.mp h
  replace h := update_bind_eq_ok.mp h
  have hpast : ChangesChunks d
      (d.deleteBlobs fun r => r.inode = inode ∧ r.chunkId > U64.toI64 boundary) inode :=
    .deleteBlobs fun r => r.chunkId > U64.toI64 boundary
  refine hpast.trans ?_
  split_ifs at h
  · rw [update_eq_ok.mp h]
    exact .deleteBlobs fun r => r.chunkId = U64.toI64 boundary
  · obtain ⟨bytes, -, h⟩ := Body.ask_bind_eq_ok.mp h
    cases bytes with
    | none =>
      rw [(Body.pure_eq_ok.mp h).2]
      exact .refl
    | some bytes =>
      rw [update_eq_ok.mp h]
      exact .updateBlob _ _

end Changes

/-! ### Reading -/

section Reading
variable {d d' : Db} {inode : ℕ}

lemma selectChunks_congr
    (h : d'.blobs.select (fun r => r.inode = inode) = d.blobs.select fun r => r.inode = inode)
    (first last : ℕ) : selectChunks d' inode first last = selectChunks d inode first last := by
  have hsplit : ∀ t : KeyTable BlobsRow, t.select (fun r => r.inode = inode ∧
      U64.toI64 first ≤ r.chunkId ∧ r.chunkId ≤ U64.toI64 last)
      = (t.select fun r => r.inode = inode).filter fun r =>
        U64.toI64 first ≤ r.chunkId ∧ r.chunkId ≤ U64.toI64 last := by
    intro t
    unfold KeyTable.select
    rw [List.filter_filter]
    refine List.filter_congr fun r _ => ?_
    rw [← Bool.decide_and]
    exact decide_eq_decide.mpr and_comm
  unfold selectChunks
  rw [hsplit, hsplit, h]

lemma readRange_congr
    (h : d'.blobs.select (fun r => r.inode = inode) = d.blobs.select fun r => r.inode = inode)
    (offset size fileSize chunkSize : ℕ) :
    readRange d' inode offset size fileSize chunkSize
      = readRange d inode offset size fileSize chunkSize := by
  unfold readRange
  simp only [selectChunks_congr h]

end Reading

/-! ### Functions that do not return `Err` -/

/-- `r` is a value, a panic or a loop, but not `Err`. -/
def NoErr {α : Type} (r : Res α) : Prop := ∀ e, r ≠ .error (.error e)

namespace NoErr

variable {α β : Type}

lemma ok (a : α) : NoErr (.ok a : Res α) := fun _ h => nomatch h

lemma panic : NoErr (.error .panic : Res α) := fun _ h => nomatch h

lemma ite {c : Prop} [Decidable c] {r r' : Res α} (h : NoErr r) (h' : NoErr r') :
    NoErr (if c then r else r') := by
  split_ifs
  · exact h
  · exact h'

lemma bind {r : Res α} {f : α → Res β} (hr : NoErr r) (hf : ∀ a, r = .ok a → NoErr (f a)) :
    NoErr (r >>= f) := by
  cases r with
  | ok a => exact hf a rfl
  | error x =>
    intro e h
    cases h
    exact hr e rfl

lemma foldlM {f : β → α → Res β} (hf : ∀ b a, NoErr (f b a)) (l : List α) :
    ∀ b, NoErr (l.foldlM f b) := by
  induction l with
  | nil => exact fun b => ok b
  | cons a l ih =>
    intro b
    rw [List.foldlM_cons]
    exact bind (hf b a) fun b _ => ih b

lemma div (a b : ℕ) : NoErr (Blobs.div a b) := ite panic (ok _)

lemma slice (data : Bytes) (lo hi : ℕ) : NoErr (Blobs.slice data lo hi) := ite (ok _) panic

lemma reserve (n : ℕ) : NoErr (Blobs.reserve n) := ite (ok _) panic

end NoErr

section NoErr
variable {d : Db} {inode chunkSize : ℕ}

lemma readChunk_noErr (present : List (ℕ × Bytes)) (offset end_ cid : ℕ) :
    NoErr (readChunk present offset end_ chunkSize cid) := by
  unfold readChunk
  cases present.lookup cid with
  | none => exact .ok _
  | some data => exact .bind (.slice _ _ _) fun _ _ => .ok _

lemma readRange_noErr (offset size fileSize : ℕ) :
    NoErr (readRange d inode offset size fileSize chunkSize) := by
  unfold readRange
  refine .ite (.ok _) (.bind (.div _ _) fun first _ => .bind (.div _ _) fun last _ =>
    .bind (.reserve _) fun _ _ => .foldlM (fun out cid => ?_) _ _)
  exact .bind (readChunk_noErr _ _ _ _) fun _ _ => .ok _

lemma growTo_noErr (v : Bytes) (n : ℕ) : NoErr (growTo v n) :=
  .ite (.bind (.reserve _) fun _ _ => .ok _) (.ok _)

lemma mergeChunk_noErr (existing : List (ℕ × Bytes)) (data : Bytes) (offset n cursor cid : ℕ) :
    NoErr (mergeChunk existing data offset n chunkSize cursor cid) :=
  .bind (growTo_noErr _ _) fun _ _ => .bind (.slice _ _ _) fun _ _ => .ok _

/-- A body that reads, and goes on, does not return `Err` if neither part does. -/
lemma ask_bind_noErr {α β : Type} {q : Db → Res α} {f : α → Sql β} (hq : NoErr (q d))
    (hf : ∀ a, NoErr (f a d)) : NoErr ((Body.ask q >>= f) d) := by
  rw [Body.bind_apply]
  refine .bind ?_ fun x hx => ?_
  · unfold Body.ask
    cases hqd : q d with
    | ok a => exact .ok _
    | error x =>
      intro e he
      cases he
      exact hq e hqd
  · rw [(Body.ask_eq_ok.mp hx).2]
    exact hf x.1

lemma writeLoop_noErr (existing : List (ℕ × Bytes)) (data : Bytes) (offset n : ℕ)
    (cids : List ℕ) : ∀ (cursor : ℕ) {d : Db}, d.hasNode inode = true →
      NoErr (writeLoop inode existing data offset n chunkSize cids cursor d) := by
  induction cids with
  | nil => exact fun _ _ _ => .ok _
  | cons cid cids ih =>
    intro cursor d hnode
    refine ask_bind_noErr (mergeChunk_noErr _ _ _ _ _ _) fun merged => ?_
    rw [Body.bind_apply]
    refine .bind ?_ fun x hx => ?_
    · have hput : d.putBlob inode (U64.toI64 cid) merged.1 = .ok _ :=
        Db.putBlob_eq_ok.mpr ⟨hnode, rfl⟩
      rw [stmt_eq_ok (u := ⟨⟩).mpr hput]
      exact .ok _
    · obtain ⟨-, hd⟩ := Db.putBlob_eq_ok.mp (stmt_eq_ok.mp hx)
      rw [hd]
      exact ih merged.2 hnode

lemma writeRange_noErr (data : Bytes) (offset fileSize : ℕ) (hnode : d.hasNode inode = true) :
    NoErr (writeRange inode data offset fileSize chunkSize d) := by
  unfold writeRange
  split_ifs
  · exact .ok _
  · refine ask_bind_noErr (.div _ _) fun first => ask_bind_noErr (.div _ _) fun last =>
      ask_bind_noErr (.ok _) fun existing => ?_
    rw [Body.bind_apply]
    exact .bind (writeLoop_noErr _ _ _ _ _ _ hnode) fun _ _ => .ok _

end NoErr

end Blobs

end SqliteFs
