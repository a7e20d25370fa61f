import SqliteFs.Python.Tables

/-!
# File contents in chunks, in the Python library

The arithmetic is that of unbounded integers, with a division that rounds down; slices cut off
what lies beyond the data.
-/

namespace SqliteFs

open Txn

namespace Python

namespace Blobs

/-- An index into data of the given length; a negative one counts from the end. -/
def index (length : ℕ) (i : ℤ) : ℕ := if i < 0 then (length + i).toNat else min i.toNat length

/-- `data[lo:hi]`. -/
def slice (data : Bytes) (lo hi : ℤ) : Bytes :=
  (data.take (index data.length hi)).drop (index data.length lo)

/-- `b"\x00" * n`. -/
def zeros (n : ℤ) : Bytes := List.replicate n.toNat 0

/-- `a // b`. -/
def floorDiv (a b : ℤ) : Res ℤ := if b = 0 then raise .zeroDivisionError else .ok (a.fdiv b)

/-- `a % b`. -/
def mod (a b : ℤ) : Res ℤ := if b = 0 then raise .zeroDivisionError else .ok (a.fmod b)

/-- `range(start, stop)`. -/
def range (start stop : ℤ) : List ℤ :=
  (List.range (stop - start).toNat).map fun (k : ℕ) => start + k

/-- The rows with `chunk_id BETWEEN first AND last`, keyed by chunk. -/
def selectChunks (d : Db) (inode : ℕ) (first last : ℤ) : List (ℤ × Bytes) :=
  (d.blobs.select fun r => r.inode = inode ∧ first ≤ r.chunkId ∧ r.chunkId ≤ last).map
    fun r => (r.chunkId, r.data)

/-- One round of the loop of `readRange`: what chunk `cid` contributes. -/
def readChunk (present : List (ℤ × Bytes)) (offset end_ chunkSize cid : ℤ) : Bytes :=
  let chunkStart := cid * chunkSize
  let inChunkLo := max 0 (offset - chunkStart)
  let inChunkHi := min chunkSize (end_ - chunkStart)
  let chunkData := (present.lookup cid).getD []
  let piece := slice chunkData inChunkLo inChunkHi
  if (piece.length : ℤ) < inChunkHi - inChunkLo
  then piece ++ zeros (inChunkHi - inChunkLo - piece.length)
  else piece

def readRange (d : Db) (inode : ℕ) (offset size fileSize chunkSize : ℤ) : Res Bytes :=
  if offset ≥ fileSize ∨ size = 0 then .ok [] else do
  let end_ := min (offset + size) fileSize
  let actualSize := end_ - offset
  let firstChunk ← floorDiv offset chunkSize
  let lastChunk ← floorDiv (end_ - 1) chunkSize
  bindParams [firstChunk, lastChunk]
  let present := selectChunks d inode firstChunk lastChunk
  let parts := (range firstChunk (lastChunk + 1)).map (readChunk present offset end_ chunkSize)
  let result := parts.flatten
  check ((result.length : ℤ) = actualSize) (.assertionError [.lit "chunk math bug"])
  return result

/-- One round of the loop of `writeRange`: the new data of chunk `cid`, and where the rest of
`data` begins. The chunk's old bytes before and after the written range stay. -/
def mergeChunk (existing : List (ℤ × Bytes)) (data : Bytes) (offset chunkSize dataCursor cid : ℤ) :
    Bytes × ℤ :=
  let chunkStart := cid * chunkSize
  let inChunkLo := max 0 (offset - chunkStart)
  let inChunkHi := min chunkSize (offset + data.length - chunkStart)
  let sliceLen := inChunkHi - inChunkLo
  let old := (existing.lookup cid).getD []
  let old := if (old.length : ℤ) < inChunkLo then old ++ zeros (inChunkLo - old.length) else old
  (slice old 0 inChunkLo ++ slice data dataCursor (dataCursor + sliceLen)
    ++ slice old inChunkHi old.length, dataCursor + sliceLen)

/-- The loop of `writeRange`, which lists the rows to write. -/
def mergeLoop (existing : List (ℤ × Bytes)) (data : Bytes) (offset chunkSize : ℤ) :
    List ℤ → ℤ → List (ℤ × Bytes)
  | [], _ => []
  | cid :: cids, dataCursor =>
    let merged := mergeChunk existing data offset chunkSize dataCursor cid
    (cid, merged.1) :: mergeLoop existing data offset chunkSize cids merged.2

/-- `executemany` of `INSERT OR REPLACE INTO blobs`. -/
def putAll (inode : ℕ) : List (ℤ × Bytes) → Sql PUnit
  | [] => pure ⟨⟩
  | (cid, blob) :: toWrite => do
    execute fun d => d.putBlob inode cid blob
    putAll inode toWrite

def writeRange (inode : ℕ) (data : Bytes) (offset fileSize chunkSize : ℤ) : Sql ℤ :=
  if data = [] then pure fileSize else do
  let firstChunk ← Body.ask fun _ => floorDiv offset chunkSize
  let lastChunk ← Body.ask fun _ => floorDiv (offset + data.length - 1) chunkSize
  params [firstChunk, lastChunk]
  let existing ← Body.ask fun d => .ok (selectChunks d inode firstChunk lastChunk)
  putAll inode
    (mergeLoop existing data offset chunkSize (range firstChunk (lastChunk + 1)) 0)
  return max fileSize (offset + data.length)

def truncateTo (inode : ℕ) (newSize oldSize chunkSize : ℤ) : Sql PUnit :=
  if newSize = oldSize then pure ⟨⟩
  else if newSize < oldSize then do
    let boundary ← Body.ask fun _ => floorDiv newSize chunkSize
    let boundaryOffset ← Body.ask fun _ => mod newSize chunkSize
    params [boundary]
    update fun d => d.deleteBlobs fun r => r.inode = inode ∧ r.chunkId > boundary
    if boundaryOffset = 0 then
      update fun d => d.deleteBlobs fun r => r.inode = inode ∧ r.chunkId = boundary
    else do
      let row ← Body.ask fun d => .ok ((d.blobs.find? (inode, boundary)).map BlobsRow.data)
      match row with
      | some data =>
        let trimmed := slice data 0 boundaryOffset
        update fun d => d.updateBlob inode boundary trimmed
      | none => pure ⟨⟩
  else pure ⟨⟩

end Blobs

end Python

end SqliteFs
