import SqliteFs.Filesystem.Rows

/-!
# Changing contents

The contents of a file change by writes through descriptors that may write, and by `open` with
`O_TRUNC`. For the latter, `open` asks for the access that its mode stands for: with `O_RDONLY` that
is the right to read, and a caller who may not write to the file empties it.
-/

namespace SqliteFs

open Txn

namespace Filesystem

variable {s : Filesystem} {user : Option (UInt32 × UInt32)} {clock : Clock} {path : Str}
  {flags : Flags} {i : ℕ}

/-- The caller may write to the node `i`. -/
def CanWrite (s : Filesystem) (i : ℕ) : Prop := ∃ row, Nodes.get s.conn i = .ok row ∧
  checkAccess row.mode row.uid row.gid s.callerUid s.callerGid Access.W = true

/-- The operation writes through a descriptor that may write to the node `i`. -/
def WritesThroughFd (s : Filesystem) (i : ℕ) : Op → Prop
  | .writeFd fd _ _ => ∃ f, s.fdtable.entries.find? fd = some f ∧ f.Writable ∧ f.inode = i
  | _ => False

/-- If the call changes the contents of a node that exists before and after it, then it writes
through a descriptor that may write, or the caller may write to the node. -/
def ContentGuarded (s : Filesystem) (user : Option (UInt32 × UInt32)) (clock : Clock)
    (operation : Op) : Prop :=
  ∀ i, s.conn.hasNode i = true → ((Call.op user clock operation).exec s).conn.hasNode i = true →
    ¬ s.conn.SameFile ((Call.op user clock operation).exec s).conn i →
      WritesThroughFd (s.actAs user) i operation ∨ CanWrite (s.actAs user) i

/-- `open` is to truncate a file that has contents, for reading only, and the caller may read the
file but not write to it. -/
def TruncatesForReading (s : Filesystem) : Op → Prop
  | .open_ path flags => flags &&& Libc.O_ACCMODE = Libc.O_RDONLY ∧ s.chunkSize ≠ 0 ∧
      ∃ i row, MayTruncate s path flags i row ∧ row.size ≠ 0 ∧ ¬ CanWrite s i
  | _ => False

/-! ### What `open` does with `O_TRUNC` -/

lemma bind_conn {α β : Type} {p : Action α} {f : α → Action β}
    (hf : ∀ a s', (f a s').state.conn = s'.conn) : ((p >>= f) s).state.conn = (p s).state.conn := by
  cases h : p s with
  | mk r s' l =>
    cases r with
    | error e => rw [Prog.bind_apply_error h]
    | ok a =>
      rw [Prog.bind_apply_ok h]
      exact hf a s'

/-- What `open` does to a file that it truncates. -/
def emptyFile (clock : Clock) (i size chunkSize : ℕ) : Sql PUnit := do
  Blobs.truncateTo i 0 size chunkSize
  Nodes.updateSize i 0 clock.now clock.now

/-- Chunks without a size make cutting a file off divide by zero. -/
lemma emptyFile_panics {size : ℕ} {d : Db} (hsize : size ≠ 0) :
    emptyFile clock i size 0 d = .error .panic := by
  have hlt : ¬ 0 ≥ size := fun hge => hsize (Nat.le_zero.mp hge)
  unfold emptyFile Blobs.truncateTo
  rw [if_neg hlt]
  rfl

lemma truncateTo_empties {size chunkSize : ℕ} {d : Db} (hsize : size ≠ 0) (hchunk : chunkSize ≠ 0) :
    ∃ d', Blobs.truncateTo i 0 size chunkSize d = .ok (⟨⟩, d') := by
  have hlt : ¬ 0 ≥ size := fun hge => hsize (Nat.le_zero.mp hge)
  have hdiv : Blobs.div 0 chunkSize = .ok 0 := (if_neg hchunk).trans (by rw [Nat.zero_div])
  have hrem : Blobs.rem 0 chunkSize = .ok 0 := (if_neg hchunk).trans (by rw [Nat.zero_mod])
  refine ⟨(d.deleteBlobs fun b => b.inode = i ∧ b.chunkId > U64.toI64 0).deleteBlobs
    fun b => b.inode = i ∧ b.chunkId = U64.toI64 0, ?_⟩
  unfold Blobs.truncateTo
  rw [if_neg hlt]
  refine Body.ask_bind_eq_ok.mpr ⟨0, hdiv, Body.ask_bind_eq_ok.mpr ⟨0, hrem, ?_⟩⟩
  exact update_bind_eq_ok.mpr (update_eq_ok.mpr rfl)

lemma open_run {row : NodeRow} (h : MayTruncate s path flags i row) : open_ clock path flags s
    = (tx (emptyFile clock i row.size s.chunkSize) >>= fun _ => openFd i flags) s := by
  have haccess : ∀ f : PUnit → Action ℕ, (checkOpenAccess row flags >>= f) s = f ⟨⟩ s :=
    fun f => Prog.query_bind_ok h.access
  unfold open_
  rw [resolve_bind h.resolved, getNode_bind h.node, require_bind h.notDir, haccess,
    if_neg h.truncates, requireWritable_bind h.writable, ask_bind (b := s.chunkSize) rfl]
  rfl

lemma open_conn {row : NodeRow} (h : MayTruncate s path flags i row) :
    (open_ clock path flags s).state.conn
      = (tx (emptyFile clock i row.size s.chunkSize) s).state.conn := by
  rw [open_run h]
  exact bind_conn fun _ _ => rfl

lemma tx_conn_ok {α : Type} {b : Sql α} {a : α} {d : Db} (hw : s.readonly = false)
    (h : b s.conn = .ok (a, d)) : (tx b s).state.conn = d := by
  rw [tx_run hw h]

lemma tx_conn_error {α : Type} {b : Sql α} {x : Halt} (h : b s.conn = .error x) :
    (tx b s).state.conn = s.conn := by
  cases hc : s.connReadonly with
  | true =>
    have hrun : tx b s = ⟨err (.sqlite .readOnly), s, []⟩ :=
      Prog.query_bind_error (by rw [hc]; rfl)
    rw [hrun]
  | false =>
    have hdisk : b (disk s) = .error x := h
    rw [tx_of_connReadonly hc, Prog.transaction, hdisk]

/-- A file without contents, or any file where chunks have no size, stays as it is. -/
lemma open_sameFile (clock : Clock) {row : NodeRow} (h : MayTruncate s path flags i row)
    (hnot : row.size = 0 ∨ s.chunkSize = 0) (j : ℕ) :
    s.conn.SameFile (open_ clock path flags s).state.conn j := by
  rw [open_conn h]
  by_cases hsize : row.size = 0
  · have hrun : emptyFile clock i row.size s.chunkSize s.conn
        = .ok (⟨⟩, s.conn.updateNode i
          (fun r => { r with size := 0, mtimeNs := clock.now, ctimeNs := clock.now }) fun _ => rfl) := by
      rw [hsize]
      rfl
    rw [tx_conn_ok h.writable hrun]
    refine ⟨?_, rfl⟩
    obtain ⟨r, hr, hrow⟩ := Nodes.get_eq_ok.mp h.node
    unfold Db.info Db.updateNode
    rw [KeyTable.find?_updateAt]
    split_ifs with hj
    · rw [hj, hr]
      rw [hrow] at hsize
      exact congrArg some hsize.symm
    · rfl
  · have hchunk : s.chunkSize = 0 := hnot.resolve_left hsize
    have hrun : emptyFile clock i row.size s.chunkSize s.conn = .error .panic := by
      rw [hchunk]
      exact emptyFile_panics hsize
    rw [tx_conn_error hrun]
    exact .refl

/-- Any other file is empty then, and `open` returns a descriptor. -/
lemma open_truncates (clock : Clock) {row : NodeRow} (h : MayTruncate s path flags i row)
    (hsize : row.size ≠ 0) (hchunk : s.chunkSize ≠ 0) : ∃ d fd t, s.conn.Rewrites d i ∧
      (d.info i).map NodeInfo.size = some 0 ∧
      open_ clock path flags s = ⟨.ok fd, { s with conn := d, fdtable := t }, [d]⟩ := by
  obtain ⟨r, hr, -⟩ := Nodes.get_eq_ok.mp h.node
  obtain ⟨d, hd⟩ := truncateTo_empties (i := i) (d := s.conn) hsize hchunk
  have hupdate : Nodes.updateSize i 0 clock.now clock.now d = .ok (⟨⟩, d.updateNode i
      (fun r => { r with size := 0, mtimeNs := clock.now, ctimeNs := clock.now }) fun _ => rfl) :=
    update_eq_ok.mpr rfl
  have hrun : emptyFile clock i row.size s.chunkSize s.conn = .ok (⟨⟩, d.updateNode i
      (fun r => { r with size := 0, mtimeNs := clock.now, ctimeNs := clock.now }) fun _ => rfl) :=
    Body.bind_eq_ok.mpr ⟨⟨⟩, d, hd, hupdate⟩
  refine ⟨_, _, _, (Blobs.truncateTo_changes hd).rewrites.trans (Nodes.updateSize_ok hupdate), ?_,
    (open_run h).trans (tx_bind (a := PUnit.unit) h.writable hrun)⟩
  unfold Db.info Db.updateNode
  rw [KeyTable.find?_updateAt, if_pos rfl, (Blobs.truncateTo_changes hd).nodes, hr]
  rfl

lemma open_size (clock : Clock) {row : NodeRow} (h : MayTruncate s path flags i row) (hsize : row.size ≠ 0)
    (hchunk : s.chunkSize ≠ 0) :
    ((open_ clock path flags s).state.conn.info i).map NodeInfo.size = some 0 := by
  obtain ⟨d, fd, t, -, hempty, hrun⟩ := open_truncates clock h hsize hchunk
  rw [hrun]
  exact hempty

/-! ### Who changes contents -/

/-- Past the check of `open`, a caller who may not write to the file opens it for reading. -/
lemma readOnly_of_mayTruncate {row : NodeRow} (h : MayTruncate s path flags i row)
    (hwrite : ¬ CanWrite s i) : flags &&& Libc.O_ACCMODE = Libc.O_RDONLY := by
  by_contra hmode
  refine hwrite ⟨row, h.node, ?_⟩
  have haccess : requireAccess row.mode row.uid row.gid s.callerUid s.callerGid
      (if flags &&& Libc.O_ACCMODE = Libc.O_RDONLY then Access.R
        else if flags &&& Libc.O_ACCMODE = Libc.O_WRONLY then Access.W
        else Access.R ||| Access.W) = .ok ⟨⟩ := h.access
  rw [if_neg hmode] at haccess
  split_ifs at haccess
  · exact requireAccess_eq_ok.mp haccess
  · exact checkAccess_mono rfl (requireAccess_eq_ok.mp haccess)

/-- Where only the statements of `operation` count, contents change as they should. -/
lemma sameFile_of_issues (clock : Clock) {operation : Op} (hbounds : s.conn.SeqBounds)
    (hi : s.conn.hasNode i = true) (hfd : ¬ WritesThroughFd (s.actAs user) i operation)
    (hopen : ∀ path flags, operation = .open_ path flags →
      ¬ ∃ row, MayTruncate (s.actAs user) path flags i row) :
    ((Call.op user clock operation).exec s).conn.hasNode i = false ∨
      s.conn.SameFile ((Call.op user clock operation).exec s).conn i := by
  refine (Call.writes user clock operation s).gone_or (P := fun d => s.conn.SameFile d i)
    (hbounds i hi) .refl fun st d d' hissues hst hnode hd => ?_
  rcases hst.sameFile hnode with hgone | hrewrites | hsame
  · exact Or.inl hgone
  · cases st with
    | putBlob j chunk data =>
      obtain rfl : j = i := hrewrites
      cases operation with
      | writeFd fd offset data => exact absurd hissues hfd
      | _ => exact hissues.elim
    | updateBlob j chunk data =>
      obtain rfl : j = i := hrewrites
      cases operation with
      | open_ path flags => exact absurd hissues (hopen path flags rfl)
      | _ => exact hissues.elim
    | deleteBlobs j p =>
      obtain rfl : j = i := hrewrites
      cases operation with
      | open_ path flags => exact absurd hissues (hopen path flags rfl)
      | _ => exact hissues.elim
    | updateSize j size m c =>
      obtain rfl : j = i := hrewrites
      cases operation with
      | open_ path flags => exact absurd hissues (hopen path flags rfl)
      | writeFd fd offset data => exact absurd hissues hfd
      | _ => exact hissues.elim
    | _ => exact hrewrites.elim
  · exact Or.inr (hd.trans hsame)

/-- `open` changes the contents of the file that it truncates, if there are any. -/
lemma open_changes (clock : Clock) {row : NodeRow} (h : MayTruncate (s.actAs user) path flags i row)
    (hsize : row.size ≠ 0) (hchunk : (s.actAs user).chunkSize ≠ 0) :
    s.conn.hasNode i = true ∧
      ((Call.op user clock (.open_ path flags)).exec s).conn.hasNode i = true ∧
      ¬ s.conn.SameFile ((Call.op user clock (.open_ path flags)).exec s).conn i := by
  have hconn : ((Call.op user clock (.open_ path flags)).exec s).conn
      = (open_ clock path flags (s.actAs user)).state.conn := by
    rw [exec_op, asUser_conn, Op.run, answer_apply]
  have hafter := open_size clock h hsize hchunk
  rw [← hconn] at hafter
  refine ⟨?_, ?_, fun hsame => ?_⟩
  · rw [← actAs_conn s user]
    exact Db.hasNode_of_kind (Nodes.kind_of_get h.node)
  · obtain ⟨n, hn, -⟩ := Option.map_eq_some_iff.mp hafter
    exact Db.hasNode_iff.mpr ⟨n, hn⟩
  · obtain ⟨n, hn, -, hnsize, -⟩ := Nodes.info_of_get h.node
    rw [actAs_conn] at hn
    rw [hsame.size, hn] at hafter
    exact hsize (hnsize.symm.trans (Option.some.inj hafter))

/-- What changes the contents of a node that stays writes through a descriptor or truncates a file
that has contents. -/
lemma changes_cases (clock : Clock) {operation : Op} (hbounds : s.conn.SeqBounds)
    (hi : s.conn.hasNode i = true)
    (hi' : ((Call.op user clock operation).exec s).conn.hasNode i = true)
    (hdiff : ¬ s.conn.SameFile ((Call.op user clock operation).exec s).conn i) :
    WritesThroughFd (s.actAs user) i operation ∨ ∃ path flags row, operation = .open_ path flags ∧
      MayTruncate (s.actAs user) path flags i row ∧ row.size ≠ 0 ∧ (s.actAs user).chunkSize ≠ 0 := by
  by_contra hnot
  obtain ⟨hfd, htrunc⟩ := not_or.mp hnot
  have hopen : ∀ path flags, operation = .open_ path flags →
      ¬ ∃ row, MayTruncate (s.actAs user) path flags i row := by
    rintro path flags rfl ⟨row, hmay⟩
    refine hdiff ?_
    have hsame := open_sameFile clock hmay ?_ i
    · rw [exec_op, asUser_conn, Op.run, answer_apply]
      rw [actAs_conn] at hsame
      exact hsame
    · by_contra hnonempty
      obtain ⟨hsize, hchunk⟩ := not_or.mp hnonempty
      exact htrunc ⟨path, flags, row, rfl, hmay, hsize, hchunk⟩
  rcases sameFile_of_issues clock hbounds hi hfd hopen with hgone | hsame
  · rw [hgone] at hi'
    cases hi'
  · exact hdiff hsame

/-- In every reachable state and for every caller, contents change with the right to write only,
unless `open` truncates for reading. -/
theorem contentGuarded_iff (h : Reachable s) (operation : Op) :
    ContentGuarded s user clock operation ↔ ¬ TruncatesForReading (s.actAs user) operation := by
  constructor
  · intro hguard htrunc
    cases operation with
    | open_ path flags =>
      obtain ⟨-, hchunk, i, row, hmay, hsize, hwrite⟩ := htrunc
      obtain ⟨hnode, hnode', hdiff⟩ := open_changes clock hmay hsize hchunk
      rcases hguard i hnode hnode' hdiff with hfd | hcan
      · exact hfd
      · exact hwrite hcan
    | _ => exact htrunc
  · intro hnot i hi hi' hdiff
    by_contra hguard
    obtain ⟨hfd, hwrite⟩ := not_or.mp hguard
    have hbounds : s.conn.SeqBounds := seqBounds_run (fun _ => seqBounds_fresh) h
    rcases changes_cases clock hbounds hi hi' hdiff with hfd' | ⟨path, flags, row, rfl, hmay, hsize, hchunk⟩
    · exact hfd hfd'
    · exact hnot ⟨readOnly_of_mayTruncate hmay hwrite, hchunk, i, row, hmay, hsize, hwrite⟩

/-- A file of root's with one byte in it, which others may read. -/
def readableFile : Filesystem :=
  newFsAfter [.create ['/', 'f'] Libc.O_RDWR 0o644, .writeFd 1 0 [7]]

theorem contentGuarded_iff_readableFile :
    (ContentGuarded readableFile (some (5, 5)) ⟨1, 1⟩ (.open_ ['/', 'f'] Libc.O_RDONLY) ↔
      ¬ TruncatesForReading (readableFile.actAs (some (5, 5))) (.open_ ['/', 'f'] Libc.O_RDONLY)) ∧
    (ContentGuarded readableFile (some (5, 5)) ⟨1, 1⟩
        (.open_ ['/', 'f'] (Libc.O_RDONLY ||| Libc.O_TRUNC)) ↔
      ¬ TruncatesForReading (readableFile.actAs (some (5, 5)))
        (.open_ ['/', 'f'] (Libc.O_RDONLY ||| Libc.O_TRUNC))) ∧
    ¬ TruncatesForReading (readableFile.actAs (some (5, 5))) (.open_ ['/', 'f'] Libc.O_RDONLY) ∧
    TruncatesForReading (readableFile.actAs (some (5, 5)))
      (.open_ ['/', 'f'] (Libc.O_RDONLY ||| Libc.O_TRUNC)) := by
  refine ⟨contentGuarded_iff (reachable_newFsAfter _) _,
    contentGuarded_iff (reachable_newFsAfter _) _, ?_, ?_⟩
  · rintro ⟨-, -, i, row, hmay, -⟩
    exact hmay.truncates (by decide)
  · refine ⟨by decide, by decide, 2, ⟨2, .file, 0o644, 0, 0, 1, 0, 0, 0, 1⟩,
      ⟨by decide +kernel, by decide +kernel, by decide, by decide +kernel, by decide, rfl⟩,
      by decide, ?_⟩
    rintro ⟨row, hrow, haccess⟩
    have hnode : Nodes.get (readableFile.actAs (some (5, 5))).conn 2
        = .ok ⟨2, .file, 0o644, 0, 0, 1, 0, 0, 0, 1⟩ := by decide +kernel
    cases hnode.symm.trans hrow
    exact absurd haccess (by decide)

/-- The user 5 empties the file by opening it for reading. -/
theorem not_contentGuarded_readableFile : Reachable readableFile ∧
    ¬ ContentGuarded readableFile (some (5, 5)) ⟨1, 1⟩
      (.open_ ['/', 'f'] (Libc.O_RDONLY ||| Libc.O_TRUNC)) := by
  refine ⟨reachable_newFsAfter _, fun h => ?_⟩
  have hbefore : (readableFile.conn.info 2).map NodeInfo.size = some 1 := by decide +kernel
  have hafter : (((Call.op (some (5, 5)) ⟨1, 1⟩ (.open_ ['/', 'f']
      (Libc.O_RDONLY ||| Libc.O_TRUNC))).exec readableFile).conn.info 2).map NodeInfo.size
        = some 0 := by decide +kernel
  have hdiff : ¬ readableFile.conn.SameFile ((Call.op (some (5, 5)) ⟨1, 1⟩ (.open_ ['/', 'f']
      (Libc.O_RDONLY ||| Libc.O_TRUNC))).exec readableFile).conn 2 := by
    intro hsame
    have hsize := hsame.size
    rw [hbefore, hafter] at hsize
    exact absurd hsize (by decide)
  rcases h 2 (by decide +kernel) (by decide +kernel) hdiff with hfd | hcan
  · exact hfd
  · obtain ⟨row, hrow, haccess⟩ := hcan
    have hnode : Nodes.get readableFile.conn 2
        = .ok ⟨2, .file, 0o644, 0, 0, 1, 0, 0, 0, 1⟩ := by decide +kernel
    cases hnode.symm.trans hrow
    exact absurd haccess (by decide)

end Filesystem

end SqliteFs
