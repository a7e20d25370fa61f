import SqliteFs.Blobs.Runs

/-!
# How much is stored

The filesystem keeps the size of a file beside its chunks, and records it anew after every write and
every truncation. As long as this is done, no byte is stored past the end of the file.
-/

namespace SqliteFs

open Txn

namespace Blobs

variable {d : Db} {inode chunkSize size : ℕ}

/-- The chunks of a file of `size` bytes: each is non-empty, fits into a chunk and ends within the
file, and each number has one at most. -/
structure Bounded (d : Db) (inode chunkSize size : ℕ) : Prop where
  nonempty : ∀ r ∈ d.blobs, r.inode = inode → r.data ≠ []
  length : ∀ r ∈ d.blobs, r.inode = inode → r.data.length ≤ chunkSize
  within : ∀ r ∈ d.blobs, r.inode = inode →
    0 ≤ r.chunkId ∧ r.chunkId * chunkSize + r.data.length ≤ size
  unique : ∀ r ∈ d.blobs, ∀ r' ∈ d.blobs, r.inode = inode → r'.inode = inode →
    r.chunkId = r'.chunkId → r = r'
  count : countChunks d inode ≤ size ⌈/⌉ chunkSize
  total : ∃ n, totalBytes d inode = some n ∧ n ≤ size
  empty : size = 0 → ∀ r ∈ d.blobs, r.inode ≠ inode

lemma Fits.of_mem (h : Fits d inode chunkSize size) {r : BlobsRow} (hr : r ∈ d.blobs)
    (hi : r.inode = inode) : ∃ c : ℕ, r.chunkId = c ∧ r.data ≠ [] ∧ r.data.length ≤ chunkSize ∧
      c * chunkSize + r.data.length ≤ size := by
  refine h r.chunkId r.data ?_
  have hfind := KeyTable.find?_key hr
  rw [key_blobsRow, hi] at hfind
  rw [chunk?, hfind]
  rfl

/-- Rows that fit are as few and as short as the file allows. -/
lemma Fits.bounded (h : Fits d inode chunkSize size) (hk : 1 ≤ chunkSize) (hsize : size ≤ I64_MAX) :
    Bounded d inode chunkSize size := by
  have hunique : ∀ r ∈ d.blobs, ∀ r' ∈ d.blobs, r.inode = inode → r'.inode = inode →
      r.chunkId = r'.chunkId → r = r' := fun r hr r' hr' hi hi' hid =>
    KeyTable.eq_of_key hr hr' (Prod.ext (hi.trans hi'.symm) hid)
  let rows := d.blobs.select fun r => r.inode = inode
  have hmem : ∀ r ∈ rows, r ∈ d.blobs ∧ r.inode = inode := fun r hr =>
    (KeyTable.mem_select.mp hr).imp_right of_decide_eq_true
  have hfits : ∀ r ∈ rows, r.data ≠ [] ∧ r.data.length ≤ chunkSize ∧
      r.chunkId.toNat * chunkSize + r.data.length ≤ size := by
    intro r hr
    obtain ⟨c, hc, hne, hlen, hend⟩ := h.of_mem (hmem r hr).1 (hmem r hr).2
    rw [hc, Int.toNat_natCast]
    exact ⟨hne, hlen, hend⟩
  have hnd : (rows.map fun r => r.chunkId.toNat).Nodup := by
    refine List.Nodup.map_on (fun r hr r' hr' hid => ?_) (d.blobs.nodup.of_map.filter _)
    obtain ⟨c, hc, -⟩ := h.of_mem (hmem r hr).1 (hmem r hr).2
    obtain ⟨c', hc', -⟩ := h.of_mem (hmem r' hr').1 (hmem r' hr').2
    rw [hc, hc', Int.toNat_natCast, Int.toNat_natCast] at hid
    refine hunique r (hmem r hr).1 r' (hmem r' hr').1 (hmem r hr).2 (hmem r' hr').2 ?_
    rw [hc, hc', hid]
  have hsum : (rows.map fun r => r.data.length).sum ≤ size :=
    Chunks.sum_length_le hnd fun r hr => (hfits r hr).2
  have hmax : I64_MAX < 2 ^ 63 := by decide
  refine ⟨fun r hr hi => ?_, fun r hr hi => ?_, fun r hr hi => ?_, hunique, ?_, ⟨_, ?_, hsum⟩,
    fun hzero r hr hi => ?_⟩
  · exact (hfits r (KeyTable.mem_select.mpr ⟨hr, decide_eq_true hi⟩)).1
  · exact (hfits r (KeyTable.mem_select.mpr ⟨hr, decide_eq_true hi⟩)).2.1
  · obtain ⟨c, hc, -, -, hend⟩ := h.of_mem hr hi
    rw [hc]
    exact ⟨Int.natCast_nonneg c, by exact_mod_cast hend⟩
  · have hcount : countChunks d inode = rows.length := List.countP_eq_length_filter
    rw [hcount]
    refine Chunks.length_le_ceilDiv hk hnd fun r hr => ?_
    obtain ⟨hne, -, hend⟩ := hfits r hr
    exact (Nat.lt_add_of_pos_right (List.length_pos_of_ne_nil hne)).trans_le hend
  · exact if_pos ((hsum.trans hsize).trans_lt hmax)
  · obtain ⟨c, -, hne, -, hend⟩ := h.of_mem hr hi
    have hpos := List.length_pos_of_ne_nil hne
    omega

/-! ### The size in the table of nodes -/

namespace BlobCall

/-- Make the call on the file as its node has it, and record its new size there. -/
def save (inode chunkSize : ℕ) (call : BlobCall) (nowNs : ℤ) : Sql PUnit := do
  let row ← Body.ask fun d => Nodes.get d inode
  let size ← call.run inode chunkSize row.size
  Nodes.updateSize inode size nowNs nowNs

/-- Make the calls one after the other, each at its time. -/
def saveAll (inode chunkSize : ℕ) : List (BlobCall × ℤ) → Sql PUnit
  | [] => pure ⟨⟩
  | (call, nowNs) :: calls => do
    save inode chunkSize call nowNs
    saveAll inode chunkSize calls

/-- The node has the size of the byte array that its chunks stand for. -/
structure Saved (d : Db) (inode chunkSize : ℕ) (f : Bytes) : Prop where
  represents : Represents d inode chunkSize f
  node : ∃ row, d.nodes.find? inode = some row ∧ row.size = f.length

variable {f : Bytes} {call : BlobCall}

lemma Saved.hasNode (h : Saved d inode chunkSize f) : d.hasNode inode = true := by
  obtain ⟨row, hrow, -⟩ := h.node
  rw [Db.hasNode, hrow]
  rfl

lemma run_changes {n : ℕ} {d' : Db} (h : call.run inode chunkSize size d = .ok (n, d')) :
    ChangesChunks d d' inode := by
  cases call with
  | writeRange data offset => exact writeRange_changes h
  | truncateTo newSize =>
    obtain ⟨_, d₁, htrunc, h⟩ := Body.bind_eq_ok.mp h
    rw [(Body.pure_eq_ok.mp h).2]
    exact truncateTo_changes htrunc

/-- A call that records the size keeps the file in step with the byte array. -/
lemma save_of_saved (h : Saved d inode chunkSize f) (hk : 0 < chunkSize) (hcall : call.InRange)
    (nowNs : ℤ) : ∃ d', call.save inode chunkSize nowNs d = .ok (⟨⟩, d') ∧
      Saved d' inode chunkSize (call.apply f) := by
  obtain ⟨row, hrow, hsize⟩ := h.node
  obtain ⟨d₁, hrun, hrep, -⟩ := run_of_represents h.represents hk h.hasNode hcall
  have hget : Nodes.get d inode = .ok row.read := by rw [Nodes.get, hrow]; rfl
  have hrun' : call.run inode chunkSize row.read.size d = .ok ((call.apply f).length, d₁) := by
    rw [show row.read.size = f.length from hsize, hrun]
  let d' := d₁.updateNode inode (fun r =>
    { r with size := (call.apply f).length, mtimeNs := nowNs, ctimeNs := nowNs }) fun _ => rfl
  refine ⟨d', ?_, ⟨hrep.fits, hrep.bytes⟩,
    { row with size := (call.apply f).length, mtimeNs := nowNs, ctimeNs := nowNs }, ?_, rfl⟩
  · exact Body.ask_bind_eq_ok.mpr ⟨_, hget, Body.bind_eq_ok.mpr ⟨_, d₁, hrun',
      update_eq_ok.mpr rfl⟩⟩
  · unfold d' Db.updateNode
    rw [KeyTable.find?_updateAt, if_pos rfl, (run_changes hrun).nodes, hrow]
    rfl

/-- So does a run. -/
lemma saveAll_of_saved (hk : 0 < chunkSize) (calls : List (BlobCall × ℤ)) :
    ∀ {d : Db} {f : Bytes}, Saved d inode chunkSize f → f.length ≤ I64_MAX →
      (∀ call ∈ calls, call.1.InRange) → ∃ d', saveAll inode chunkSize calls d = .ok (⟨⟩, d') ∧
        Saved d' inode chunkSize ((calls.map Prod.fst).foldl apply f) ∧
        ((calls.map Prod.fst).foldl apply f).length ≤ I64_MAX := by
  induction calls with
  | nil =>
    intro d f h hf _
    exact ⟨d, rfl, h, hf⟩
  | cons call calls ih =>
    intro d f h hf hcalls
    have hcall := hcalls call List.mem_cons_self
    obtain ⟨d₁, hsave, h₁⟩ := save_of_saved h hk hcall call.2
    obtain ⟨d', hrest, h', hlen⟩ := ih h₁ (length_apply hcall hf)
      fun c hc => hcalls c (List.mem_cons_of_mem _ hc)
    exact ⟨d', Body.bind_eq_ok.mpr ⟨⟨⟩, d₁, hsave, hrest⟩, h', hlen⟩

end BlobCall

/-- Whatever writes and truncations have been made on a file that began without chunks, each with
the size that the one before it left, the chunks are bounded by the size of the file; and so they
are if the size is kept in the file's node. -/
theorem bounded_runAll (hk : 1 ≤ chunkSize) {row : NodesRow} (hrow : d.nodes.find? inode = some row)
    (hsize : row.size = 0) (hempty : ∀ r ∈ d.blobs, r.inode ≠ inode) (calls : List (BlobCall × ℤ))
    (hcalls : ∀ call ∈ calls, call.1.InRange) :
    (∃ size d', BlobCall.runAll inode chunkSize (calls.map Prod.fst) 0 d = .ok (size, d') ∧
      Bounded d' inode chunkSize size) ∧
    ∃ row' d', BlobCall.saveAll inode chunkSize calls d = .ok (⟨⟩, d') ∧
      d'.nodes.find? inode = some row' ∧ Bounded d' inode chunkSize row'.size := by
  have hnode : d.hasNode inode = true := by
    rw [Db.hasNode, hrow]
    rfl
  have hrep := represents_nil chunkSize hempty
  constructor
  · obtain ⟨d', hrun, hrep', hlen⟩ := BlobCall.runAll_of_represents (calls.map Prod.fst) hrep hk hnode
      (Nat.zero_le _) (List.forall_mem_map.mpr hcalls)
    exact ⟨_, d', hrun, hrep'.fits.bounded hk hlen⟩
  · obtain ⟨d', hrun, ⟨hrep', row', hrow', hsize'⟩, hlen⟩ :=
      BlobCall.saveAll_of_saved hk calls ⟨hrep, row, hrow, hsize⟩ (Nat.zero_le _) hcalls
    refine ⟨row', d', hrun, hrow', ?_⟩
    rw [hsize']
    exact hrep'.fits.bounded hk hlen

theorem bounded_runAll_oneFile :
    (∃ size d', BlobCall.runAll 2 4
        [.writeRange [1, 2, 3] 2, .truncateTo 3, .writeRange [4] 9] 0 oneFile = .ok (size, d') ∧
      Bounded d' 2 4 size) ∧
    ∃ row' d', BlobCall.saveAll 2 4
        [(.writeRange [1, 2, 3] 2, 7), (.truncateTo 3, 8), (.writeRange [4] 9, 9)] oneFile
          = .ok (⟨⟩, d') ∧
      d'.nodes.find? 2 = some row' ∧ Bounded d' 2 4 row'.size :=
  have hrow : oneFile.nodes.find? 2 = some ⟨2, .file, 0o644, 0, 0, 0, 0, 0, 0, 1⟩ := by decide
  bounded_runAll (by decide) hrow rfl (by decide)
    [(.writeRange [1, 2, 3] 2, 7), (.truncateTo 3, 8), (.writeRange [4] 9, 9)] (by decide)

end Blobs

end SqliteFs
