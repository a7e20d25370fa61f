import SqliteFs.Blobs.Bounds
import SqliteFs.Filesystem.Frames
import SqliteFs.Filesystem.Success

/-!
# What the files hold

To its clients the filesystem is a store: every node has an array of bytes, a write overlays a part
of one array, and `open` with `O_TRUNC` empties one. In the database these arrays are cut into
chunks, which descriptors, names and transactions all work around. Here the chunks of every node are
shown to stand for an array of its size, in every state of every run, and each call to do to the
arrays what the store does.
-/

namespace SqliteFs

open Txn
open Blobs (I64_MAX)

/-- The bytes of every node that there is. -/
abbrev Store := ℕ → Option Bytes

namespace Store

/-- Overlay the bytes of the node `i` from `offset` on. -/
def write (σ : Store) (i : ℕ) (data : Bytes) (offset : ℕ) : Store :=
  Function.update σ i ((σ i).map fun f => Flat.write 0 f data offset)

/-- Empty the node `i`. -/
def clear (σ : Store) (i : ℕ) : Store := Function.update σ i ((σ i).map fun _ => [])

/-- The store where `live` says which nodes there are: a new one has no bytes. -/
def settle (σ : Store) (live : ℕ → Bool) : Store :=
  fun i => if live i then some ((σ i).getD []) else none

variable {σ : Store} {live : ℕ → Bool} {i j : ℕ}

lemma settle_of_live (h : live i = true) : σ.settle live i = some ((σ i).getD []) := if_pos h

lemma settle_of_dead (h : live i = false) : σ.settle live i = none :=
  if_neg (by rw [h]; exact Bool.false_ne_true)

lemma write_of_ne {data : Bytes} {offset : ℕ} (h : j ≠ i) : σ.write i data offset j = σ j :=
  Function.update_of_ne h _ _

lemma clear_of_ne (h : j ≠ i) : σ.clear i j = σ j := Function.update_of_ne h _ _

lemma write_self {data : Bytes} {offset : ℕ} {f : Bytes} (h : σ i = some f) :
    σ.write i data offset i = some (Flat.write 0 f data offset) := by
  refine (Function.update_self ..).trans ?_
  rw [h]
  rfl

lemma clear_self {f : Bytes} (h : σ i = some f) : σ.clear i i = some [] := by
  refine (Function.update_self ..).trans ?_
  rw [h]
  rfl

lemma write_eq_none {data : Bytes} {offset : ℕ} (h : σ j = none) : σ.write i data offset j = none := by
  by_cases hij : j = i
  · subst hij
    refine (Function.update_self ..).trans ?_
    rw [h]
    rfl
  · rw [write_of_ne hij, h]

lemma clear_eq_none (h : σ j = none) : σ.clear i j = none := by
  by_cases hij : j = i
  · subst hij
    refine (Function.update_self ..).trans ?_
    rw [h]
    rfl
  · rw [clear_of_ne hij, h]

end Store

namespace Filesystem

/-- What the size and the chunks of each node stand for. -/
def store (s : Filesystem) : Store := fun i =>
  (s.conn.nodes.find? i).map fun row =>
    Flat.segment (Chunks.value 0 (Blobs.chunk s.conn i) s.chunkSize) 0 row.size

/-- What an operation that returns does to the store. -/
def Op.onStore (s : Filesystem) : Op → Store → Store
  | .writeFd fd offset data, σ =>
    match s.fdtable.entries.find? fd with
    | some f => σ.write f.inode data offset
    | none => σ
  | .open_ path flags, σ =>
    match resolveToInode s.conn path with
    | .ok i => if flags &&& Libc.O_TRUNC = 0 then σ else σ.clear i
    | .error _ => σ
  | _, σ => σ

/-- What a call does to the store. -/
def Call.onStore (s : Filesystem) (call : Call) (σ : Store) : Store :=
  match call with
  | .op _ _ operation => if (call.outcome s).result.isOk then operation.onStore s σ else σ
  | .reopen .. => σ

/-- A write ends within the range of an `i64`. -/
def WritesInRange (_ : Filesystem) : Call → Prop
  | .op _ _ (.writeFd _ offset data) => offset + data.length ≤ I64_MAX
  | _ => True

end Filesystem

lemma Statement.Does.chunkSize {d d' : Db} {st : Statement} (h : st.Does d d') :
    d'.chunkSize = d.chunkSize := by
  cases st with
  | insertNode row =>
    obtain ⟨rows, -, rfl⟩ := Db.insertNode_eq_ok.mp h.2
    rfl
  | updateTimes inode a m c =>
    replace h : Nodes.updateTimes inode a m c d = .ok (⟨⟩, d') := h
    unfold Nodes.updateTimes at h
    split_ifs at h
    · rw [(Txn.Body.pure_eq_ok.mp h).2]
    · rw [update_eq_ok.mp h]
      rfl
  | updateModeUidGid inode mode uid gid c =>
    rw [update_eq_ok.mp h]
    rfl
  | updateSize inode size m c =>
    rw [update_eq_ok.mp h]
    rfl
  | deleteNode inode => rcases Statement.deleteNode_cases h with ⟨rfl, -⟩ | rfl <;> rfl
  | insertEntry row =>
    obtain ⟨-, -, rows, -, rfl⟩ := Db.insertEntry_eq_ok.mp h
    rfl
  | moveEntry p m q n =>
    replace h : d.moveEntry p m q n = .ok d' := h
    by_cases hfind : (d.entries.find? (p, m)).isSome
    · obtain ⟨-, rows, -, rfl⟩ := (Db.moveEntry_eq_ok hfind).mp h
      rfl
    · rw [Db.moveEntry, if_neg hfind] at h
      rw [← Except.ok.inj h]
  | putBlob inode chunk data =>
    obtain ⟨-, rfl⟩ := Db.putBlob_eq_ok.mp h
    rfl
  | insertXattr row =>
    obtain ⟨-, rows, -, rfl⟩ := Db.insertXattr_eq_ok.mp h
    rfl
  | insertSymlink row =>
    obtain ⟨-, rows, -, rfl⟩ := Db.insertSymlink_eq_ok.mp h
    rfl
  | changeNlink | deleteEntry | updateBlob | deleteBlobs | updateXattr | deleteXattr =>
    cases h
    rfl

/-! ### Files and the arrays they stand for -/

namespace Blobs

variable {d d' : Db} {i k : ℕ} {f : Bytes}

lemma chunk?_congr
    (h : d'.blobs.select (fun r => r.inode = i) = d.blobs.select fun r => r.inode = i) (c : ℤ) :
    chunk? d' i c = chunk? d i c := by
  unfold chunk?
  rw [KeyTable.find?_congr_key fun r hr => ?_]
  have hi : r.inode = i := congrArg Prod.fst hr
  have hmem : r ∈ d'.blobs.select (fun r => r.inode = i) ↔ r ∈ d.blobs.select fun r => r.inode = i := by
    rw [h]
  simpa only [KeyTable.mem_select, hi, decide_true, and_true] using hmem

/-- What `writeRange` returns is the size of the array that is written. -/
lemma writeRange_saved {data : Bytes} {offset n : ℕ} (h : BlobCall.Saved d i k f)
    (hrange : offset + data.length ≤ I64_MAX) {d₁ : Db}
    (hrun : writeRange i data offset f.length k d = .ok (n, d₁)) :
    n = (Flat.write 0 f data offset).length ∧ Represents d₁ i k (Flat.write 0 f data offset) := by
  by_cases hdata : data = []
  · have hkeep : writeRange i data offset f.length k = pure f.length := if_pos hdata
    rw [hkeep] at hrun
    obtain ⟨rfl, rfl⟩ := Body.pure_eq_ok.mp hrun
    have hwrite : Flat.write 0 f data offset = f := if_pos hdata
    rw [hwrite]
    exact ⟨rfl, h.represents⟩
  · rcases Nat.eq_zero_or_pos k with rfl | hk
    · -- without a chunk size nothing can be written
      unfold writeRange at hrun
      rw [if_neg hdata] at hrun
      obtain ⟨first, hfirst, -⟩ := Body.ask_bind_eq_ok.mp hrun
      cases hfirst
    · obtain ⟨d', hrun', hrep⟩ := writeRange_of_represents h.represents hk h.hasNode
        (hrange.trans_lt (by decide) : offset + data.length < 2 ^ 63)
      cases hrun.symm.trans hrun'
      exact ⟨rfl, hrep⟩

lemma truncateTo_saved (h : BlobCall.Saved d i k f) {u : PUnit}
    (hrun : truncateTo i 0 f.length k d = .ok (u, d')) : Represents d' i k [] := by
  rcases Nat.eq_zero_or_pos f.length with hzero | hpos
  · rw [truncateTo, if_pos hzero.le] at hrun
    rw [(Body.pure_eq_ok.mp hrun).2, ← List.eq_nil_of_length_eq_zero hzero]
    exact h.represents
  · rcases Nat.eq_zero_or_pos k with rfl | hk
    · unfold truncateTo at hrun
      rw [if_neg (by omega)] at hrun
      obtain ⟨boundary, hboundary, -⟩ := Body.ask_bind_eq_ok.mp hrun
      cases hboundary
    · obtain ⟨d₁, hrun', hrep⟩ := truncateTo_of_represents h.represents hk (by decide : 0 < 2 ^ 63)
      cases hrun.symm.trans hrun'
      have hempty : Flat.resize 0 f 0 = [] := by
        unfold Flat.resize
        rw [Nat.zero_sub]
        rfl
      rw [← hempty]
      exact hrep

namespace BlobCall.Saved

/-- The array is what the chunks stand for. -/
lemma eq_segment (h : Saved d i k f) {row : NodesRow} (hrow : d.nodes.find? i = some row) :
    f = Flat.segment (Chunks.value 0 (chunk d i) k) 0 row.size := by
  obtain ⟨row', hrow', hsize⟩ := h.node
  cases hrow.symm.trans hrow'
  apply List.ext_getElem?
  intro x
  rw [Flat.segment.getElem?_eq, Nat.zero_add, h.represents.bytes, hsize, Nat.sub_zero]
  split_ifs with hx
  · rw [List.getD_eq_getElem?_getD, List.getElem?_eq_getElem hx]
    rfl
  · exact List.getElem?_eq_none (Nat.le_of_not_lt hx)

/-- A node that no row of `blobs` belongs to, and whose size is none, is empty. -/
lemma empty {row : NodesRow} (hrow : d.nodes.find? i = some row) (hsize : row.size = 0)
    (hblobs : ∀ r ∈ d.blobs, r.inode ≠ i) : Saved d i k [] :=
  ⟨represents_nil k hblobs, row, hrow, hsize⟩

lemma congr (h : Saved d i k f) (hsame : d.SameFile d' i) : Saved d' i k f := by
  obtain ⟨row, hrow, hsize⟩ := h.node
  have hchunk := chunk?_congr hsame.chunks
  have hsizes := hsame.size
  rw [Db.info_of_find? hrow, Option.map_some] at hsizes
  obtain ⟨n, hn, hnsize⟩ := Option.map_eq_some_iff.mp hsizes
  obtain ⟨row', hrow', rfl⟩ := Option.map_eq_some_iff.mp hn
  refine ⟨⟨fun c data hc => ?_, fun x => ?_⟩, row', hrow', hnsize.trans hsize⟩
  · exact h.represents.fits c data ((hchunk c).symm.trans hc)
  · rw [← h.represents.bytes x]
    unfold Chunks.value chunk
    rw [hchunk]

/-- The size is recorded with the chunks. -/
lemma updateSize {g : Bytes} (h : Saved d i k f) (hchanges : ChangesChunks d d' i)
    (hrep : Represents d' i k g) {now : ℤ} {u : PUnit} {d'' : Db}
    (hrun : Nodes.updateSize i g.length now now d' = .ok (u, d'')) : Saved d'' i k g := by
  obtain ⟨row, hrow, -⟩ := h.node
  rw [update_eq_ok.mp hrun]
  refine ⟨⟨hrep.fits, hrep.bytes⟩, { row with size := g.length, mtimeNs := now, ctimeNs := now }, ?_, rfl⟩
  unfold Db.updateNode
  rw [KeyTable.find?_updateAt, if_pos rfl, hchanges.nodes, hrow]
  rfl

end BlobCall.Saved

end Blobs

namespace Filesystem

variable {s : Filesystem} {i : ℕ} {f : Bytes}

/-- The chunks of the node `i` stand for `f`, which is of its size. -/
abbrev Holds (s : Filesystem) (i : ℕ) (f : Bytes) : Prop := Blobs.BlobCall.Saved s.conn i s.chunkSize f

lemma Holds.store_eq (h : s.Holds i f) : s.store i = some f := by
  obtain ⟨row, hrow, -⟩ := h.node
  unfold store
  rw [hrow, h.eq_segment hrow]
  rfl

lemma store_eq_none (h : s.conn.hasNode i = false) : s.store i = none := by
  have hnone : s.conn.nodes.find? i = none := Option.isNone_iff_eq_none.mp (by
    rw [← Option.not_isSome]
    exact congrArg not h)
  unfold store
  rw [hnone]
  rfl

/-! ### The calls that change contents -/

section Operations
variable {clock : Clock} {path : Str} {flags : Flags}

/-- A write that is not refused returns the size of the array that it leaves. -/
lemma writeFd_holds (htree : s.conn.Tree) {fd offset : ℕ} {data : Bytes} {e : FdEntry}
    (he : s.fdtable.entries.find? fd = some e) (h : s.Holds e.inode f)
    (hrange : offset + data.length ≤ I64_MAX) :
    Prog.RefusesOr (writeFd clock fd offset data) s fun o =>
      o.result = .ok (Flat.write 0 f data offset).length ∧
        Blobs.BlobCall.Saved o.state.conn e.inode s.chunkSize (Flat.write 0 f data offset) := by
  apply bind_requireWritable
  intro _
  apply Prog.RefusesOr.bind_query
  intro e' he'
  cases (FdTable.get_eq_ok.mp he').symm.trans he
  apply bind_require
  intro _
  apply bind_getNode
  intro row hrow
  apply Prog.RefusesOr.bind_query
  intro chunkSize hchunk
  cases hchunk
  apply bind_tx
  intro newSize d _ hd
  obtain ⟨n, d₁, hwrite, hd⟩ := Body.bind_eq_ok.mp hd
  obtain ⟨_, d₂, hsize, hd⟩ := Body.bind_eq_ok.mp hd
  obtain ⟨rfl, rfl⟩ := Body.pure_eq_ok.mp hd
  obtain ⟨r, hr, rfl⟩ := Nodes.get_eq_ok.mp hrow
  obtain ⟨r', hr', hlength⟩ := h.node
  cases hr.symm.trans hr'
  have hchanges := Blobs.writeRange_changes hwrite
  rw [show r.read.size = f.length from hlength] at hwrite
  obtain ⟨rfl, hrep⟩ := Blobs.writeRange_saved h hrange hwrite
  have hsaved := h.updateSize hchanges hrep hsize
  obtain ⟨p, hp⟩ := (htree.sameNames (hchanges.rewrites.trans (Nodes.updateSize_ok hsize)).names).pathForInode_ok
    e.inode
  have hrun : ∀ g : Option Str → Action ℕ,
      (ask (fun s => pathForInode s.conn e.inode) >>= g) { s with conn := d }
        = g p { s with conn := d } := fun g => ask_bind hp
  rw [hrun]
  cases p with
  | none => exact ⟨rfl, hsaved⟩
  | some path => exact ⟨rfl, hsaved⟩

lemma emptyFile_holds (h : s.Holds i f) {u : PUnit} {d : Db}
    (hrun : emptyFile clock i f.length s.chunkSize s.conn = .ok (u, d)) :
    Blobs.BlobCall.Saved d i s.chunkSize [] := by
  obtain ⟨_, d₁, htrunc, hsize⟩ := Body.bind_eq_ok.mp hrun
  exact h.updateSize (Blobs.truncateTo_changes htrunc) (Blobs.truncateTo_saved h htrunc) hsize

/-- `open` with `O_TRUNC` empties the file that it returns a descriptor of. -/
lemma open_holds (h : s.Holds i f) (hi : resolveToInode s.conn path = .ok i)
    (htrunc : flags &&& Libc.O_TRUNC ≠ 0) :
    Prog.RefusesOr (open_ clock path flags) s fun o =>
      (∃ fd, o.result = .ok fd) ∧ Blobs.BlobCall.Saved o.state.conn i s.chunkSize [] := by
  apply Prog.RefusesOr.bind_query
  intro i' hi'
  cases hi.symm.trans hi'
  apply bind_getNode
  intro row hrow
  apply bind_require
  intro _
  apply Prog.RefusesOr.bind_query
  intro _ _
  rw [if_neg htrunc]
  apply bind_requireWritable
  intro _
  apply Prog.RefusesOr.bind_query
  intro chunkSize hchunk
  cases hchunk
  obtain ⟨r, hr, rfl⟩ := Nodes.get_eq_ok.mp hrow
  obtain ⟨r', hr', hlength⟩ := h.node
  cases hr.symm.trans hr'
  apply bind_tx
  intro _ d _ hd
  rw [show r.read.size = f.length from hlength] at hd
  exact ⟨⟨_, rfl⟩, emptyFile_holds h hd⟩

end Operations

/-! ### Calls -/

section Calls
variable {user : Option (UInt32 × UInt32)} {clock : Clock} {operation : Op}

lemma chunkSize_exec_op : ((Call.op user clock operation).exec s).chunkSize = s.chunkSize :=
  Call.frames ⟨fun _ _ => rfl, fun _ _ _ => rfl, fun _ _ => rfl⟩ user clock operation
    (fun _ _ _ => rfl) (fun _ _ _ => rfl) s

/-- No operation makes a node and changes contents. -/
lemma not_issues_insertNode {st : Statement} {row : NodesRow} (hissues : operation.Issues s st)
    (hst : st.Rewrites i) : ¬ operation.Issues s (.insertNode row) := by
  intro hinsert
  cases st with
  | putBlob | updateBlob | deleteBlobs | updateSize =>
    cases operation <;> first | exact hissues | exact hinsert
  | _ => exact hst

lemma callersNode_of_issues {row : NodesRow} (h : operation.Issues s (.insertNode row)) :
    row.size = 0 := by
  cases operation <;> first | exact CallersNode.size h | exact absurd h id

/-- A node that a call makes is empty. -/
lemma newNode_holds (howned : s.conn.Owned) (hi : s.conn.hasNode i = false)
    (hi' : ((Call.op user clock operation).exec s).conn.hasNode i = true) :
    ((Call.op user clock operation).exec s).Holds i [] := by
  let P : Db → Prop := fun d => d.Owned ∧ (d.hasNode i = false ∨
    Blobs.BlobCall.Saved d i s.chunkSize [] ∧ ∃ row, operation.Issues (s.actAs user) (.insertNode row))
  have hkeeps : ∀ st d d', operation.Issues (s.actAs user) st → st.Does d d' → P d → P d' := by
    rintro st d d' hissues hst ⟨howned, hd⟩
    refine ⟨hst.owned howned, ?_⟩
    cases hnode' : d'.hasNode i with
    | false => exact Or.inl rfl
    | true =>
      obtain ⟨r', hr'⟩ := Option.isSome_iff_exists.mp hnode'
      rcases hd with hnode | ⟨hsaved, row, hinsert⟩
      · -- the statement makes the node, which nothing belongs to yet
        rcases hst.find?_nodes hr' with ⟨rfl, -, -⟩ | ⟨r, hr, -⟩
        · refine Or.inr ⟨.empty hr' (callersNode_of_issues hissues) fun b hb hbi => ?_, r', hissues⟩
          rw [hst.same (t := .blobs) (by simp [Statement.tables])] at hb
          have hold := howned.blobs b hb
          rw [hbi, hnode] at hold
          cases hold
        · rw [Db.hasNode, hr] at hnode
          cases hnode
      · rcases hst.sameFile hsaved.hasNode with hgone | hrewrites | hsame
        · rw [hnode'] at hgone
          cases hgone
        · exact absurd hinsert (not_issues_insertNode hissues hrewrites)
        · exact Or.inr ⟨hsaved.congr hsame, row, hinsert⟩
  have hafter := (Call.writes user clock operation s).keeps hkeeps ⟨howned, Or.inl hi⟩
  rcases hafter.2 with hgone | ⟨hsaved, -⟩
  · rw [hi'] at hgone
    cases hgone
  · rw [Holds, chunkSize_exec_op]
    exact hsaved

/-- Where an operation of `user` refuses, its call does; otherwise it ends as the operation. -/
lemma outcome_cases {α : Type} {p : Action α} {g : α → Reply} {Q : Outcome Filesystem Db Halt α → Prop}
    (hrun : operation.run clock = answer g p) (h : Prog.RefusesOr p (s.actAs user) Q) :
    (∃ e, (Call.op user clock operation).outcome s = ⟨.error e, s, []⟩) ∨ Q (p (s.actAs user)) ∧
      ((Call.op user clock operation).outcome s).result = (p (s.actAs user)).result.map g ∧
      ((Call.op user clock operation).exec s).conn = (p (s.actAs user)).state.conn := by
  rcases h with ⟨e, he⟩ | hq
  · refine Or.inl ⟨e, ?_⟩
    rw [outcome_op]
    refine asUser_refuses ?_
    rw [hrun, answer_apply, he]
    rfl
  · refine Or.inr ⟨hq, ?_, ?_⟩
    · rw [outcome_op, asUser_result, hrun, answer_apply]
    · rw [exec_op, asUser_conn, hrun, answer_apply]

lemma onStore_op {σ : Store} : (Call.op user clock operation).onStore s σ
    = if ((Call.op user clock operation).outcome s).result.isOk then operation.onStore s σ else σ := rfl

/-- The state after an operation of `user`, and what its node `i` holds there. -/
def LeavesAt (s : Filesystem) (user : Option (UInt32 × UInt32)) (clock : Clock) (operation : Op) (i : ℕ)
    (f : Bytes) : Prop :=
  ((Call.op user clock operation).exec s).Holds i f ∧ f.length ≤ I64_MAX ∧
    (Call.op user clock operation).onStore s s.store i = some f

lemma leavesAt_of_sameFile (h : s.Holds i f) (hlen : f.length ≤ I64_MAX)
    (hsame : s.conn.SameFile ((Call.op user clock operation).exec s).conn i)
    (hstore : operation.onStore s s.store i = s.store i) : s.LeavesAt user clock operation i f := by
  refine ⟨?_, hlen, ?_⟩
  · rw [Holds, chunkSize_exec_op]
    exact h.congr hsame
  · rw [onStore_op]
    split_ifs
    · rw [hstore, h.store_eq]
    · exact h.store_eq

lemma leavesAt_of_refused (h : s.Holds i f) (hlen : f.length ≤ I64_MAX) {e : Halt}
    (hrun : (Call.op user clock operation).outcome s = ⟨.error e, s, []⟩) :
    s.LeavesAt user clock operation i f := by
  refine ⟨?_, hlen, ?_⟩
  · rw [Call.exec, hrun]
    exact h
  · rw [onStore_op, hrun]
    exact h.store_eq

lemma leavesAt_of_returns {g : Bytes} {reply : Reply} (hlen : g.length ≤ I64_MAX)
    (hrun : ((Call.op user clock operation).outcome s).result = .ok reply)
    (hsaved : Blobs.BlobCall.Saved ((Call.op user clock operation).exec s).conn i s.chunkSize g)
    (hstore : operation.onStore s s.store i = some g) : s.LeavesAt user clock operation i g := by
  refine ⟨?_, hlen, ?_⟩
  · rw [Holds, chunkSize_exec_op]
    exact hsaved
  · rw [onStore_op, hrun]
    exact hstore

@[simp] lemma actAs_chunkSize : (s.actAs user).chunkSize = s.chunkSize := by cases user <;> rfl

lemma holds_actAs : (s.actAs user).Holds i f ↔ s.Holds i f := by cases user <;> exact Iff.rfl

lemma length_write_le {data : Bytes} {offset : ℕ} (hlen : f.length ≤ I64_MAX)
    (hrange : offset + data.length ≤ I64_MAX) : (Flat.write 0 f data offset).length ≤ I64_MAX := by
  have hcall : (Blobs.BlobCall.writeRange data offset).InRange := hrange
  exact Blobs.BlobCall.length_apply hcall hlen

lemma sameFile_exec (hbounds : s.conn.SeqBounds) (hi : s.conn.hasNode i = true)
    (hi' : ((Call.op user clock operation).exec s).conn.hasNode i = true)
    (hfd : ¬ WritesThroughFd (s.actAs user) i operation)
    (hopen : ∀ path flags, operation = .open_ path flags →
      ¬ ∃ row, MayTruncate (s.actAs user) path flags i row) :
    s.conn.SameFile ((Call.op user clock operation).exec s).conn i :=
  (sameFile_of_issues clock hbounds hi hfd hopen).resolve_left (by rw [hi']; decide)

lemma writeFd_leavesAt (htree : s.conn.Tree) (hbounds : s.conn.SeqBounds) {fd offset : ℕ} {data : Bytes}
    (hrange : offset + data.length ≤ I64_MAX) (h : s.Holds i f) (hlen : f.length ≤ I64_MAX)
    (hi' : ((Call.op user clock (.writeFd fd offset data)).exec s).conn.hasNode i = true) :
    ∃ g, s.LeavesAt user clock (.writeFd fd offset data) i g := by
  by_cases hfd : ∃ e, s.fdtable.entries.find? fd = some e ∧ e.inode = i
  · obtain ⟨e, he, rfl⟩ := hfd
    have hstore : (Op.writeFd fd offset data).onStore s s.store e.inode
        = some (Flat.write 0 f data offset) := by
      rw [Op.onStore, he]
      exact Store.write_self h.store_eq
    rw [← actAs_conn s user] at htree
    rw [← actAs_fdtable s user] at he
    have hop : Op.run clock (.writeFd fd offset data) = answer .size (writeFd clock fd offset data) := rfl
    rcases outcome_cases hop (writeFd_holds htree he (holds_actAs.mpr h) hrange) with
      ⟨x, hx⟩ | ⟨⟨hres, hsaved⟩, hrun, hconn⟩
    · exact ⟨f, leavesAt_of_refused h hlen hx⟩
    · rw [hres] at hrun
      rw [← hconn, actAs_chunkSize] at hsaved
      exact ⟨_, leavesAt_of_returns (length_write_le hlen hrange) hrun hsaved hstore⟩
  · have hnot : ¬ WritesThroughFd (s.actAs user) i (.writeFd fd offset data) := by
      rintro ⟨e, he, -, hi⟩
      rw [actAs_fdtable] at he
      exact hfd ⟨e, he, hi⟩
    refine ⟨f, leavesAt_of_sameFile h hlen (sameFile_exec hbounds h.hasNode hi' hnot ?_) ?_⟩
    · intro path flags heq
      cases heq
    rw [Op.onStore]
    cases he : s.fdtable.entries.find? fd with
    | none => rfl
    | some e => exact Store.write_of_ne fun hi => hfd ⟨e, he, hi.symm⟩

lemma open_leavesAt (hbounds : s.conn.SeqBounds) {path : Str} {flags : Flags} (h : s.Holds i f)
    (hlen : f.length ≤ I64_MAX)
    (hi' : ((Call.op user clock (.open_ path flags)).exec s).conn.hasNode i = true) :
    ∃ g, s.LeavesAt user clock (.open_ path flags) i g := by
  by_cases htrunc : resolveToInode s.conn path = .ok i ∧ flags &&& Libc.O_TRUNC ≠ 0
  · obtain ⟨hi, hflags⟩ := htrunc
    have hstore : (Op.open_ path flags).onStore s s.store i = some [] := by
      rw [Op.onStore, hi]
      dsimp only
      rw [if_neg hflags]
      exact Store.clear_self h.store_eq
    rw [← actAs_conn s user] at hi
    have hop : Op.run clock (.open_ path flags) = answer .fd (open_ clock path flags) := rfl
    rcases outcome_cases hop (open_holds (holds_actAs.mpr h) hi hflags) with
      ⟨x, hx⟩ | ⟨⟨⟨fd, hres⟩, hsaved⟩, hrun, hconn⟩
    · exact ⟨f, leavesAt_of_refused h hlen hx⟩
    · rw [hres] at hrun
      rw [← hconn, actAs_chunkSize] at hsaved
      exact ⟨_, leavesAt_of_returns (Nat.zero_le _) hrun hsaved hstore⟩
  · have hnot : ∀ path' flags', Op.open_ path flags = .open_ path' flags' →
        ¬ ∃ row, MayTruncate (s.actAs user) path' flags' i row := by
      rintro path' flags' heq ⟨row, hmay⟩
      cases heq
      have hresolved := hmay.resolved
      rw [actAs_conn] at hresolved
      exact htrunc ⟨hresolved, hmay.truncates⟩
    refine ⟨f, leavesAt_of_sameFile h hlen (sameFile_exec hbounds h.hasNode hi' id hnot) ?_⟩
    rw [Op.onStore]
    cases hj : resolveToInode s.conn path with
    | error e => rfl
    | ok j =>
      dsimp only
      split_ifs with hflags
      · rfl
      · refine Store.clear_of_ne fun hij => htrunc ⟨?_, hflags⟩
        rw [hj, hij]

/-- What a node holds after an operation follows from what it held before. -/
lemma op_leavesAt (htree : s.conn.Tree) (hbounds : s.conn.SeqBounds)
    (hok : WritesInRange s (.op user clock operation)) (h : s.Holds i f) (hlen : f.length ≤ I64_MAX)
    (hi' : ((Call.op user clock operation).exec s).conn.hasNode i = true) :
    ∃ g, s.LeavesAt user clock operation i g := by
  cases operation with
  | writeFd fd offset data => exact writeFd_leavesAt htree hbounds hok h hlen hi'
  | open_ path flags => exact open_leavesAt hbounds h hlen hi'
  | _ =>
    refine ⟨f, leavesAt_of_sameFile h hlen (sameFile_exec hbounds h.hasNode hi' id ?_) rfl⟩
    intro path flags heq
    cases heq

/-- The chunks of every node stand for an array of its size, which is within the range of an
`i64`. -/
structure Kept (s : Filesystem) : Prop where
  chunkSize : s.chunkSize = U64.ofI64 s.conn.chunkSize
  holds : ∀ i, s.conn.hasNode i = true → ∃ f, s.Holds i f ∧ f.length ≤ I64_MAX

lemma kept_fresh (h : Fresh s) : s.Kept := by
  obtain ⟨chunkSize, ownerUid, ownerGid, now, readonly, uid, gid, rfl⟩ := h
  refine ⟨rfl, fun i hi => ⟨[], ?_, Nat.zero_le _⟩⟩
  obtain ⟨r, hr⟩ := Option.isSome_iff_exists.mp hi
  have hroot : r = rootRow ownerUid ownerGid now :=
    (KeyTable.mem_put.mp (KeyTable.find?_eq_some.mp hr).1).resolve_right
      fun hold => KeyTable.not_mem_empty r hold.1
  refine .empty hr (by rw [hroot]; rfl) fun b hb => absurd hb (KeyTable.not_mem_empty b)

lemma onStore_eq_none {call : Call} {σ : Store} (h : σ i = none) : call.onStore s σ i = none := by
  cases call with
  | reopen => exact h
  | op user clock operation =>
    rw [onStore_op]
    split_ifs
    · cases operation with
      | writeFd fd offset data =>
        rw [Op.onStore]
        cases s.fdtable.entries.find? fd with
        | none => exact h
        | some e => exact Store.write_eq_none h
      | open_ path flags =>
        rw [Op.onStore]
        cases resolveToInode s.conn path with
        | error e => exact h
        | ok j =>
          dsimp only
          split_ifs
          · exact h
          · exact Store.clear_eq_none h
      | _ => exact h
    · exact h

lemma chunkSize_exec_conn (call : Call) : (call.exec s).conn.chunkSize = s.conn.chunkSize := by
  cases call with
  | reopen => rfl
  | op user clock operation =>
    exact (Call.writes user clock operation s).keeps (P := fun d => d.chunkSize = s.conn.chunkSize)
      (fun _ _ _ _ hst hd => hst.chunkSize.trans hd) rfl

end Calls

/-! ### Runs -/

/-- One call. -/
lemma Kept.exec (h : s.Kept) (htree : s.conn.Tree) (howned : s.conn.Owned) (hbounds : s.conn.SeqBounds)
    {call : Call} (hok : WritesInRange s call) (hi' : (call.exec s).conn.hasNode i = true) :
    ∃ f, (call.exec s).Holds i f ∧ f.length ≤ I64_MAX ∧ (call.onStore s s.store i).getD [] = f := by
  cases call with
  | reopen readonly uid gid =>
    obtain ⟨f, hf, hlen⟩ := h.holds i hi'
    refine ⟨f, ?_, hlen, ?_⟩
    · have hchunk : ((Call.reopen readonly uid gid).exec s).chunkSize = s.chunkSize := h.chunkSize.symm
      rw [Holds, hchunk]
      exact hf
    · change (s.store i).getD [] = f
      rw [hf.store_eq]
      rfl
  | op user clock operation =>
    cases hi : s.conn.hasNode i with
    | true =>
      obtain ⟨f, hf, hlen⟩ := h.holds i hi
      obtain ⟨g, hg, hglen, hstore⟩ := op_leavesAt htree hbounds hok hf hlen hi'
      exact ⟨g, hg, hglen, by rw [hstore]; rfl⟩
    | false =>
      refine ⟨[], newNode_holds howned hi hi', Nat.zero_le _, ?_⟩
      rw [onStore_eq_none (store_eq_none hi)]
      rfl

lemma kept_runsTo (h : RunsTo WritesInRange s) : s.Kept := by
  refine Run.invariant (P := Kept) (fun _ => kept_fresh) (fun s call hrun hok hs => ⟨?_, ?_⟩) h
  · rw [chunkSize_exec_conn]
    cases call with
    | reopen => rfl
    | op => rw [chunkSize_exec_op, hs.chunkSize]
  · intro i hi
    obtain ⟨f, hf, hlen, -⟩ := hs.exec (rooted_runsTo hrun).tree (owned_runsTo hrun)
      (seqBounds_run (fun _ => seqBounds_fresh) hrun) hok hi
    exact ⟨f, hf, hlen⟩

lemma store_exec (h : RunsTo WritesInRange s) {call : Call} (hok : WritesInRange s call) :
    (call.exec s).store = (call.onStore s s.store).settle (call.exec s).conn.hasNode := by
  funext i
  cases hi : (call.exec s).conn.hasNode i with
  | false => rw [Store.settle_of_dead hi, store_eq_none hi]
  | true =>
    obtain ⟨f, hf, -, hstore⟩ := (kept_runsTo h).exec (rooted_runsTo h).tree (owned_runsTo h)
      (seqBounds_run (fun _ => seqBounds_fresh) h) hok hi
    rw [Store.settle_of_live hi, hstore, hf.store_eq]

/-- Along every run whose writes end within the range of an `i64`, the chunks of every node stand
for an array of its size, and a call does to these arrays what it does to the store: a write that
returns overlays the array of its descriptor's node, an `open` with `O_TRUNC` that returns empties
one, a new node is empty, and every other array stays, whatever happens to names, descriptors and
permissions, or when the filesystem is closed and opened again. -/
theorem contents_refine (h : RunsTo WritesInRange s) :
    s.Kept ∧ ∀ call, WritesInRange s call →
      (call.exec s).store = (call.onStore s s.store).settle (call.exec s).conn.hasNode :=
  ⟨kept_runsTo h, fun _ hok => store_exec h hok⟩

/-- A file of root's with the bytes 1, 2, 3, on which a descriptor is open. -/
def numberedFile : Filesystem :=
  newFsAfter [.create ['/', 'f'] Libc.O_RDWR 0o644, .writeFd 1 0 [1, 2, 3]]

lemma numberedFile_runsTo : RunsTo WritesInRange numberedFile := by
  have hcreate : RunsTo WritesInRange
      ((Call.byRoot (.create ['/', 'f'] Libc.O_RDWR 0o644)).exec newFs) :=
    .next (.start fresh_newFs) trivial
  have hwrite : WritesInRange ((Call.byRoot (.create ['/', 'f'] Libc.O_RDWR 0o644)).exec newFs)
      (Call.byRoot (.writeFd 1 0 [1, 2, 3])) := by
    change 0 + [1, 2, 3].length ≤ I64_MAX
    decide
  exact .next hcreate hwrite

theorem contents_refine_numberedFile : numberedFile.Kept ∧
    ∀ call, WritesInRange numberedFile call → (call.exec numberedFile).store
      = (call.onStore numberedFile numberedFile.store).settle (call.exec numberedFile).conn.hasNode :=
  contents_refine numberedFile_runsTo

/-! ### What the operations report -/

lemma Kept.holds_of_store (h : s.Kept) {g : Bytes} (hg : s.store i = some g) :
    s.Holds i g ∧ g.length ≤ I64_MAX := by
  cases hi : s.conn.hasNode i with
  | false =>
    rw [store_eq_none hi] at hg
    cases hg
  | true =>
    obtain ⟨f, hf, hlen⟩ := h.holds i hi
    cases hf.store_eq.symm.trans hg
    exact ⟨hf, hlen⟩

lemma Kept.store_of_get (h : s.Kept) {row : NodeRow} (hrow : Nodes.get s.conn i = .ok row) :
    ∃ g, s.store i = some g ∧ row.size = g.length := by
  obtain ⟨f, hf, -⟩ := h.holds i (Db.hasNode_of_kind (Nodes.kind_of_get hrow))
  obtain ⟨r, hr, rfl⟩ := Nodes.get_eq_ok.mp hrow
  obtain ⟨r', hr', hsize⟩ := hf.node
  cases hr.symm.trans hr'
  exact ⟨f, hf.store_eq, hsize⟩

lemma Kept.readFd_result (h : s.Kept) {fd offset size : ℕ} {e : FdEntry} {g : Bytes}
    (he : s.fdtable.entries.find? fd = some e) (hmay : e.Readable) (hg : s.store e.inode = some g)
    (hchunk : s.chunkSize ≠ 0) (hsize : offset + size < 2 ^ 64) :
    (readFd fd offset size s).result = .ok (Flat.read g offset size) := by
  obtain ⟨hmem, rfl⟩ := KeyTable.find?_eq_some.mp he
  obtain ⟨hholds, hlen⟩ := h.holds_of_store hg
  obtain ⟨r, hr, hlength⟩ := hholds.node
  rw [key_fdEntry, Filesystem.readFd_result hmem hmay (Nodes.get_eq_ok.mpr ⟨r, hr, rfl⟩)]
  rw [show r.read.size = g.length from hlength]
  exact Blobs.readRange_of_represents hholds.represents (Nat.pos_of_ne_zero hchunk)
    (hlen.trans_lt (by decide)) hsize

lemma writeFd_finds {clock : Clock} {fd offset : ℕ} {data : Bytes} :
    Prog.RefusesOr (writeFd clock fd offset data) s fun _ => ∃ e row,
      s.fdtable.entries.find? fd = some e ∧ Nodes.get s.conn e.inode = .ok row := by
  apply bind_requireWritable
  intro _
  apply Prog.RefusesOr.bind_query
  intro e he
  apply bind_require
  intro _
  apply bind_getNode
  intro row hrow
  exact .of_run ⟨e, row, FdTable.get_eq_ok.mp he, hrow⟩

/-- A descriptor that may read returns the bytes that the store has there, cut off at its end; what
`stat` calls the size is the length of the array; and a write returns the length that it leaves. -/
theorem reports_store (h : RunsTo WritesInRange s) :
    (∀ fd offset size e g, s.fdtable.entries.find? fd = some e → e.Readable →
      s.store e.inode = some g → s.chunkSize ≠ 0 → offset + size < 2 ^ 64 →
        (readFd fd offset size s).result = .ok (Flat.read g offset size)) ∧
    (∀ path st, (stat path s).result = .ok st →
      ∃ g, s.store st.inode = some g ∧ st.size = g.length) ∧
    ∀ clock fd offset data n, offset + data.length ≤ I64_MAX →
      (writeFd clock fd offset data s).result = .ok n →
        ∃ e g, s.fdtable.entries.find? fd = some e ∧ s.store e.inode = some g ∧
          n = (Flat.write 0 g data offset).length := by
  have hkept := kept_runsTo h
  refine ⟨fun fd offset size e g he hmay hg hchunk hsize => hkept.readFd_result he hmay hg hchunk hsize,
    fun path st hst => ?_, fun clock fd offset data n hrange hn => ?_⟩
  · obtain ⟨i, row, hi, hrow⟩ := stat_returns.mp ⟨st, hst⟩
    unfold stat at hst
    rw [resolve_bind hi, getNode_bind hrow] at hst
    cases hst
    rw [show row.inode = i from (Nodes.info_of_get hrow).choose_spec.2.2.2.2]
    exact hkept.store_of_get hrow
  · obtain ⟨e, row, he, hrow⟩ := writeFd_finds.of_ok hn
    obtain ⟨g, hg, -⟩ := hkept.store_of_get hrow
    have hholds := (hkept.holds_of_store hg).1
    obtain ⟨hres, -⟩ := (writeFd_holds (rooted_runsTo h).tree he hholds hrange).of_ok hn
    exact ⟨e, g, he, hg, Except.ok.inj (hn.symm.trans hres)⟩

theorem reports_store_numberedFile :
    (∀ fd offset size e g, numberedFile.fdtable.entries.find? fd = some e → e.Readable →
      numberedFile.store e.inode = some g → numberedFile.chunkSize ≠ 0 → offset + size < 2 ^ 64 →
        (readFd fd offset size numberedFile).result = .ok (Flat.read g offset size)) ∧
    (∀ path st, (stat path numberedFile).result = .ok st →
      ∃ g, numberedFile.store st.inode = some g ∧ st.size = g.length) ∧
    ∀ clock fd offset data n, offset + data.length ≤ I64_MAX →
      (writeFd clock fd offset data numberedFile).result = .ok n →
        ∃ e g, numberedFile.fdtable.entries.find? fd = some e ∧ numberedFile.store e.inode = some g ∧
          n = (Flat.write 0 g data offset).length :=
  reports_store numberedFile_runsTo

/-! ### What has been written stays -/

/-- The operation writes to one of the bytes of the node `i` from `a` on before `b`, or empties the
node. -/
def Op.Touches (s : Filesystem) (i a b : ℕ) : Op → Prop
  | .writeFd fd offset data => (∃ e, s.fdtable.entries.find? fd = some e ∧ e.inode = i) ∧
    ∃ x, (a ≤ x ∧ x < b) ∧ offset ≤ x ∧ x < offset + data.length
  | .open_ path flags => resolveToInode s.conn path = .ok i ∧ flags &&& Libc.O_TRUNC ≠ 0
  | _ => False

/-- The call returns and has written to one of these bytes, or has emptied the node. -/
def Call.Touches (s : Filesystem) (i a b : ℕ) (call : Call) : Prop :=
  match call with
  | .op _ _ operation => (call.outcome s).result.isOk ∧ operation.Touches s i a b
  | .reopen .. => False

/-- Bytes that a call does not touch stay where they are. -/
lemma carries_onStore {call : Call} {σ : Store} {a : ℕ} {l : Bytes} (hσ : σ i = some f)
    (hf : Flat.Carries f a l) (h : ¬ call.Touches s i a (a + l.length)) :
    ∃ f', call.onStore s σ i = some f' ∧ Flat.Carries f' a l := by
  cases call with
  | reopen => exact ⟨f, hσ, hf⟩
  | op user clock operation =>
    rw [onStore_op]
    split_ifs with hok
    · replace h : ¬ operation.Touches s i a (a + l.length) := fun htouches => h ⟨hok, htouches⟩
      cases operation with
      | writeFd fd offset data =>
        rw [Op.onStore]
        cases he : s.fdtable.entries.find? fd with
        | none => exact ⟨f, hσ, hf⟩
        | some e =>
          by_cases hi : e.inode = i
          · subst hi
            refine ⟨_, Store.write_self hσ, hf.write 0 fun x hax hxb hx => ?_⟩
            exact h ⟨⟨e, he, rfl⟩, x, ⟨hax, hxb⟩, hx⟩
          · exact ⟨f, (Store.write_of_ne fun heq => hi heq.symm).trans hσ, hf⟩
      | open_ path flags =>
        rw [Op.onStore]
        cases hj : resolveToInode s.conn path with
        | error e => exact ⟨f, hσ, hf⟩
        | ok j =>
          dsimp only
          split_ifs with hflags
          · exact ⟨f, hσ, hf⟩
          · by_cases hi : i = j
            · exact absurd ⟨hi ▸ hj, hflags⟩ h
            · exact ⟨f, (Store.clear_of_ne hi).trans hσ, hf⟩
      | _ => exact ⟨f, hσ, hf⟩
    · exact ⟨f, hσ, hf⟩

/-- A node that is gone does not come back, and the counter of `nodes` does not go down. -/
lemma gone_exec (call : Call) (hi : i ≤ s.conn.nodesSeq) : i ≤ (call.exec s).conn.nodesSeq ∧
    (s.conn.hasNode i = false → (call.exec s).conn.hasNode i = false) := by
  cases call with
  | reopen => exact ⟨hi, id⟩
  | op user clock operation =>
    have hwrites := Call.writes user clock operation s
    refine ⟨hwrites.keeps (P := fun d => i ≤ d.nodesSeq) (fun _ _ _ _ hst hd => hd.trans hst.nodesSeq.1) hi,
      fun hgone => ?_⟩
    refine (hwrites.gone_or (P := fun d => d.hasNode i = false) hi hgone ?_).elim id id
    intro _ d _ _ _ hnode hd
    rw [hnode] at hd
    cases hd

/-- The node `i` has the bytes `l` from `a` on, as long as it is there. -/
structure StillHolds (s : Filesystem) (i a : ℕ) (l : Bytes) : Prop where
  runs : RunsTo WritesInRange s
  seen : i ≤ s.conn.nodesSeq
  holds : s.conn.hasNode i = false ∨ ∃ g, s.store i = some g ∧ Flat.Carries g a l

lemma stillHolds_of_store {g l : Bytes} {a : ℕ} (h : RunsTo WritesInRange s) (hg : s.store i = some g)
    (hl : Flat.Carries g a l) : s.StillHolds i a l := by
  refine ⟨h, ?_, Or.inr ⟨g, hg, hl⟩⟩
  exact seqBounds_run (fun _ => seqBounds_fresh) h i ((kept_runsTo h).holds_of_store hg).1.hasNode

namespace StillHolds

variable {a : ℕ} {l : Bytes}

lemma store (h : s.StillHolds i a l) (hnode : s.conn.hasNode i = true) :
    ∃ g, s.store i = some g ∧ Flat.Carries g a l :=
  h.holds.resolve_left (by rw [hnode]; decide)

/-- A call that neither writes to these bytes nor empties the node. -/
lemma exec (h : s.StillHolds i a l) {call : Call} (hok : WritesInRange s call)
    (htouches : ¬ call.Touches s i a (a + l.length)) : (call.exec s).StillHolds i a l := by
  obtain ⟨hle, hgone⟩ := gone_exec call h.seen
  refine ⟨.next h.runs hok, hle, ?_⟩
  cases hnode : (call.exec s).conn.hasNode i with
  | false => exact Or.inl rfl
  | true =>
    right
    rcases h.holds with hno | ⟨g, hg, hl⟩
    · rw [hgone hno] at hnode
      cases hnode
    · obtain ⟨g', hg', hl'⟩ := carries_onStore hg hl htouches
      refine ⟨g', ?_, hl'⟩
      rw [store_exec h.runs hok, Store.settle_of_live hnode, hg']
      rfl

/-- Bytes of a node stay as long as the node is there and they are not written to or emptied. -/
lemma run {s' : Filesystem} (h : s.StillHolds i a l)
    (hrun : Run (· = s) Call.exec
      (fun t call => WritesInRange t call ∧ ¬ call.Touches t i a (a + l.length)) s') :
    s'.StillHolds i a l := by
  refine Run.invariant (P := fun t => t.StillHolds i a l) ?_ ?_ hrun
  · rintro _ rfl
    exact h
  · exact fun t call _ hok ht => ht.exec hok.1 hok.2

/-- Every descriptor that may read the node returns them. -/
lemma readFd_result (h : s.StillHolds i a l) (hnode : s.conn.hasNode i = true)
    (hchunk : s.chunkSize ≠ 0) (hrange : a + l.length < 2 ^ 64) {fd : ℕ} {e : FdEntry}
    (he : s.fdtable.entries.find? fd = some e) (hi : e.inode = i) (hmay : e.Readable) :
    (readFd fd a l.length s).result = .ok l := by
  obtain ⟨g, hg, hl⟩ := h.store hnode
  rw [← hi] at hg
  rw [(kept_runsTo h.runs).readFd_result he hmay hg hchunk hrange, hl.read_eq]

end StillHolds

/-- A write that returns leaves the node with every part of the data where it was written to. -/
lemma writeFd_stillHolds (h : RunsTo WritesInRange s) {user : Option (UInt32 × UInt32)} {clock : Clock}
    {fd offset : ℕ} {data : Bytes} (hrange : offset + data.length ≤ I64_MAX) {e : FdEntry}
    (he : s.fdtable.entries.find? fd = some e) {reply : Reply}
    (hreply : ((Call.op user clock (.writeFd fd offset data)).outcome s).result = .ok reply)
    {skip size : ℕ} (hpart : skip + size ≤ data.length) :
    ((Call.op user clock (.writeFd fd offset data)).exec s).StillHolds e.inode (offset + skip)
      (Flat.read data skip size) := by
  have hop : Op.run clock (.writeFd fd offset data) = answer .size (writeFd clock fd offset data) := rfl
  have htree : (s.actAs user).conn.Tree := by
    rw [actAs_conn]
    exact (rooted_runsTo h).tree
  have heAs : (s.actAs user).fdtable.entries.find? fd = some e := by
    rw [actAs_fdtable]
    exact he
  have hholds : ∃ f, s.Holds e.inode f := by
    rcases outcome_cases hop writeFd_finds with ⟨x, hx⟩ | ⟨⟨e₁, row, he₁, hrow⟩, -⟩
    · rw [hx] at hreply
      cases hreply
    · cases heAs.symm.trans he₁
      rw [actAs_conn] at hrow
      obtain ⟨g, hg, -⟩ := (kept_runsTo h).store_of_get hrow
      exact ⟨g, ((kept_runsTo h).holds_of_store hg).1⟩
  obtain ⟨f, hf⟩ := hholds
  refine stillHolds_of_store (.next h hrange) (Holds.store_eq ?_) (Flat.carries_write 0 f data hpart)
  rcases outcome_cases hop (writeFd_holds htree heAs (holds_actAs.mpr hf) hrange) with
    ⟨x, hx⟩ | ⟨⟨-, hsaved⟩, -, hconn⟩
  · rw [hx] at hreply
    cases hreply
  · rw [Holds, chunkSize_exec_op]
    rw [← hconn, actAs_chunkSize] at hsaved
    exact hsaved

/-- What a write puts into a file is what any descriptor of the file reads there later, by whatever
user and under whatever name it was opened and however often the filesystem was closed in between.
A part of the data is read as long as nothing is written to that part, whatever is written before it
and behind it, and as long as the file is not emptied or removed. -/
theorem write_survives (h : RunsTo WritesInRange s) {user : Option (UInt32 × UInt32)} {clock : Clock}
    {fd offset : ℕ} {data : Bytes} (hrange : offset + data.length ≤ I64_MAX) {e : FdEntry}
    (he : s.fdtable.entries.find? fd = some e) {reply : Reply}
    (hreply : ((Call.op user clock (.writeFd fd offset data)).outcome s).result = .ok reply)
    {skip size : ℕ} (hpart : skip + size ≤ data.length) {s' : Filesystem}
    (hrun : Run (· = (Call.op user clock (.writeFd fd offset data)).exec s) Call.exec
      (fun t call => WritesInRange t call ∧
        ¬ call.Touches t e.inode (offset + skip) (offset + skip + size)) s')
    (hnode : s'.conn.hasNode e.inode = true) (hchunk : s'.chunkSize ≠ 0) {fd' : ℕ} {e' : FdEntry}
    (he' : s'.fdtable.entries.find? fd' = some e') (hi : e'.inode = e.inode) (hmay : e'.Readable) :
    (readFd fd' (offset + skip) size s').result = .ok (Flat.read data skip size) := by
  have hlen : (Flat.read data skip size).length = size := Flat.length_read hpart
  rw [← hlen] at hrun
  have hkept := (writeFd_stillHolds h hrange he hreply hpart).run hrun
  have hread := hkept.readFd_result hnode hchunk ?_ he' hi hmay
  · rwa [hlen] at hread
  · have hmax : I64_MAX < 2 ^ 64 := by decide
    omega

/-- The file, written to behind its first two bytes, closed and opened again under another name. -/
def reopenedFile : Filesystem :=
  (Call.byRoot (.open_ ['/', 'g'] Libc.O_RDONLY)).exec ((Call.reopen false 5 5).exec
    ((Call.byRoot (.writeFd 1 2 [9, 9])).exec
      ((Call.byRoot (.rename ['/', 'f'] ['/', 'g'])).exec numberedFile)))

theorem write_survives_reopenedFile : (readFd 1 0 2 reopenedFile).result = .ok [1, 2] := by
  have hcreated : RunsTo WritesInRange (newFsAfter [.create ['/', 'f'] Libc.O_RDWR 0o644]) :=
    .next (.start fresh_newFs) trivial
  have hrange : 0 + [1, 2, 3].length ≤ I64_MAX := by decide
  have hfd : (newFsAfter [.create ['/', 'f'] Libc.O_RDWR 0o644]).fdtable.entries.find? 1
      = some ⟨1, 2, Libc.O_RDWR, 0, 0, 0⟩ := by decide +kernel
  have hreply : ((Call.op none ⟨0, 0⟩ (.writeFd 1 0 [1, 2, 3])).outcome
      (newFsAfter [.create ['/', 'f'] Libc.O_RDWR 0o644])).result = .ok (.size 3) := by decide +kernel
  have hpart : 0 + 2 ≤ [1, 2, 3].length := by decide
  have hrun : Run (· = (Call.op none ⟨0, 0⟩ (.writeFd 1 0 [1, 2, 3])).exec
      (newFsAfter [.create ['/', 'f'] Libc.O_RDWR 0o644])) Call.exec
      (fun t call => WritesInRange t call ∧ ¬ Call.Touches t 2 (0 + 0) (0 + 0 + 2) call)
      reopenedFile := by
    have hbehind : WritesInRange numberedFile (Call.byRoot (.writeFd 1 2 [9, 9])) := by
      change 2 + [9, 9].length ≤ I64_MAX
      decide
    refine .next (.next (.next (.next (.start rfl) ⟨trivial, And.right⟩) ⟨hbehind, ?_⟩)
      ⟨trivial, id⟩) ⟨trivial, ?_⟩
    · rintro ⟨-, -, x, ⟨-, hx⟩, hx', -⟩
      omega
    · rintro ⟨-, -, hflags⟩
      exact hflags (by decide)
  have hfd' : reopenedFile.fdtable.entries.find? 1
      = some ⟨1, 2, Libc.O_RDONLY, 5, 5, 0⟩ := by decide +kernel
  exact write_survives hcreated hrange hfd hreply hpart hrun (by decide +kernel) (by decide +kernel)
    hfd' rfl (Or.inl rfl)

end Filesystem

end SqliteFs
