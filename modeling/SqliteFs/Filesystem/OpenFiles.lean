import SqliteFs.Filesystem.Unlink

/-!
# Open files

An open descriptor should keep the node it was opened on, whatever happens to the names. Two
operations delete a node without a look at the descriptors: `rmdir`, for `create` opens
directories that exist, and a rename that replaces the last name of a file. While no step of a run
is one of these, every descriptor can be read, written and closed, and what it reads changes by
writes to its file only.
-/

namespace SqliteFs

open Txn

namespace Db

/-! ### Which contents a change of the database keeps -/

section SameFile
variable {d d' : Db} {e t : EntryRow} {i j q : ℕ} {m : Str} {k : NodeKind}

lemma AddsNode.sameFile {n : NodeInfo} (h : d.AddsNode d' i n) (hj : d.hasNode j = true) :
    d.SameFile d' j := by
  refine ⟨?_, by rw [h.blobs]⟩
  rw [h.info, if_neg]
  rintro rfl
  obtain ⟨m, hm⟩ := hasNode_iff.mp hj
  rw [h.fresh] at hm
  cases hm

lemma RemovesNode.sameFile (h : d.RemovesNode d' i) (hj : j ≠ i) : d.SameFile d' j := by
  refine ⟨by rw [h.info, if_neg hj], ?_⟩
  rw [h.blobs]
  apply KeyTable.select_deleteWhere
  intro r _ hr
  exact decide_eq_false fun hri => hj ((of_decide_eq_true hr).symm.trans hri)

lemma sameFile_insertEntry (h : d.insertEntry e = .ok d') (j : ℕ) : d.SameFile d' j := by
  refine ⟨by rw [info_insertEntry h], ?_⟩
  obtain ⟨-, -, t, -, rfl⟩ := insertEntry_eq_ok.mp h
  rfl

lemma sameFile_moveEntry (he : e ∈ d.entries) (h : d.moveEntry e.parent e.name q m = .ok d')
    (j : ℕ) : d.SameFile d' j := by
  refine ⟨by rw [info_moveEntry he h], ?_⟩
  obtain ⟨-, t, -, rfl⟩ := (moveEntry_eq_ok_of_mem he).mp h
  rfl

/-- Taking an entry away changes no file. -/
lemma Adjust.sameFile_deleteEntry {p : ℕ} {n : Str} {δ : ℕ → ℤ} (h : (d.deleteEntry p n).Adjust d' δ)
    (j : ℕ) : d.SameFile d' j := by
  have hdel : d.SameFile (d.deleteEntry p n) j := ⟨rfl, rfl⟩
  exact hdel.trans (h.sameFile j)

lemma Attaches.sameFile (h : d.Attaches d' k e) (hj : d.hasNode j = true) : d.SameFile d' j := by
  obtain ⟨-, d₁, d₂, hadd, hins, hadj⟩ := h
  exact (hadd.sameFile hj).trans ((sameFile_insertEntry hins j).trans (hadj.sameFile j))

lemma Attaches.hasNode (h : d.Attaches d' k e) : d'.hasNode e.inode = true := by
  obtain ⟨-, d₁, d₂, hadd, hins, hadj⟩ := h
  rw [hadj.hasNode, (sameFile_insertEntry hins e.inode).hasNode]
  exact hasNode_iff.mpr ⟨_, (hadd.info _).trans (if_pos rfl)⟩

lemma Links.sameFile (h : d.Links d' e) (j : ℕ) : d.SameFile d' j := by
  obtain ⟨-, -, -, d₁, hins, hadj⟩ := h
  exact (sameFile_insertEntry hins j).trans (hadj.sameFile j)

lemma RemovesDir.sameFile (h : d.RemovesDir d' e) (hj : j ≠ e.inode) : d.SameFile d' j := by
  obtain ⟨-, -, -, d₁, hadj, hrem⟩ := h
  exact (hadj.sameFile_deleteEntry j).trans (hrem.sameFile hj)

lemma Drops.sameFile {n : ℕ} (h : d.Drops d' e n) (j : ℕ) : d.SameFile d' j :=
  h.2.2.1.sameFile_deleteEntry j

/-- The collector leaves the nodes of the open descriptors alone. -/
lemma Collects.sameFile {connReadonly : Bool} {tab : FdTable} {n : ℕ}
    (h : d.Collects connReadonly tab n i d') (hj : tab.openCount j ≠ 0) : d.SameFile d' j := by
  cases h with
  | removed _ _ hopen hrem =>
    refine hrem.sameFile ?_
    rintro rfl
    exact hj hopen
  | kept _ => exact .refl

lemma Moves.sameFile {isDir : Prop} [Decidable isDir] (h : d.Moves d' isDir e q m)
    (he : e ∈ d.entries) (j : ℕ) : d.SameFile d' j := by
  obtain ⟨d₁, hmove, hadj⟩ := h
  exact (sameFile_moveEntry he hmove j).trans (hadj.sameFile j)

/-- Eviction deletes a node only with its last name, and if its link count reads as one. -/
lemma Evicts.sameFile {isDir : Prop} [Decidable isDir] {p : ℕ} (h : d.Tree)
    (hv : d.Evicts d' isDir p t)
    (hj : j = t.inode → d.names j ≠ 1 ∨ ∃ m, d.info j = some m ∧ U32.ofI64 (m.nlink + -1) ≠ 0) :
    d.SameFile d' j := by
  have hleaf := hv.leaf h.shaped
  obtain ⟨ht, -, -, n, d₁, hn, hadj, hlast⟩ := hv
  refine (hadj.sameFile_deleteEntry j).trans ?_
  split_ifs at hlast with hzero
  · refine hlast.sameFile ?_
    rintro rfl
    rcases hj rfl with hnames | ⟨m, hm, hcount⟩
    · refine hnames ?_
      rw [Filesystem.names_deleteEntry ht, ← Filesystem.names_congr hadj.entries,
        Filesystem.names_eq_zero.mpr]
      intro x hx
      have hx' := (mem_deleteEntry ht).mp (hadj.entries ▸ hx)
      exact hlast.unnamed x hx (hleaf x hx'.1)
    · obtain rfl : m = n := Option.some.inj (hm.symm.trans hn)
      exact hcount hzero
  · rw [hlast]
    exact .refl

end SameFile

end Db

/-! ### Steps that spare the open nodes -/

/-- No directory is removed that is open, and no entry is replaced that is the only name of an open
node whose link count reads as one. -/
def Label.Spares (c : Core) : Label → Prop
  | .removesDir e => c.fdtable.openCount e.inode = 0
  | .replaces _ t => c.fdtable.openCount t.inode = 0 ∨ c.conn.names t.inode ≠ 1 ∨
      ∃ m, c.conn.info t.inode = some m ∧ U32.ofI64 (m.nlink + -1) ≠ 0
  | _ => True

lemma FdTable.openCount_ne_zero {t : FdTable} {f : FdEntry} (hf : f ∈ t.entries) :
    t.openCount f.inode ≠ 0 :=
  fun h => openCount_eq_zero.mp h f hf rfl

section Effect
variable {c c' : Core} {l : Label} {f : FdEntry}

/-- A step that spares the open nodes leaves the file of a descriptor that stays open as it is, but
for a write to it. -/
lemma Effect.sameFile (htree : c.conn.Tree) (hspares : l.Spares c) (hnode : c.conn.hasNode f.inode = true)
    (hl : l ≠ .writes f.inode) (hf : f ∈ c.fdtable.entries) (hf' : f ∈ c'.fdtable.entries)
    (he : Effect c l c') : c.conn.SameFile c'.conn f.inode := by
  have hopen := FdTable.openCount_ne_zero hf
  cases he with
  | quiet hadj => exact hadj.sameFile _
  | writes hrewrites =>
    refine hrewrites.others _ ?_
    rintro rfl
    exact hl rfl
  | truncates hrewrites =>
    refine hrewrites.others _ ?_
    rintro rfl
    exact hl rfl
  | opens => exact .refl
  | attaches ha => exact ha.sameFile hnode
  | creates ha => exact ha.sameFile hnode
  | links hlinks => exact hlinks.sameFile _
  | removesDir _ hr =>
    refine hr.sameFile fun hfe => hopen ?_
    rw [hfe]
    exact hspares
  | unlinks _ hd hc => exact (hd.sameFile _).trans (hc.sameFile hopen)
  | closes hfd hc =>
    rcases hc with ⟨-, rfl⟩ | ⟨m, -, hc⟩
    · exact .refl
    · exact hc.sameFile (FdTable.openCount_ne_zero hf')
  | moves _ hmay hm => exact hm.sameFile hmay.1 _
  | replaces _ hmay hne hv hm =>
    refine (hv.sameFile htree fun hft => ?_).trans (hm.sameFile (hv.mayMove htree hmay hne).1 _)
    rw [hft] at hopen ⊢
    exact hspares.resolve_left hopen
  | reopens => exact absurd hf' (KeyTable.not_mem_empty f)

/-- A descriptor stays open until it is closed. -/
lemma Effect.mem_entries (hnext : ∀ f ∈ c.fdtable.entries, f.fd < c.fdtable.nextFd)
    (hf : f ∈ c.fdtable.entries) (hcloses : l ≠ .closes f.fd) (hreopens : l ≠ .reopens)
    (he : Effect c l c') : f ∈ c'.fdtable.entries := by
  have hopened : ∀ {i : ℕ} {flags : Flags} {uid gid : UInt32},
      f ∈ (c.fdtable.open_ i flags uid gid).2.entries :=
    FdTable.mem_open.mpr (Or.inr ⟨hf, (hnext f hf).ne⟩)
  cases he with
  | opens => exact hopened
  | truncates => exact hopened
  | creates => exact hopened
  | @closes _ fd _ _ _ =>
    refine FdTable.mem_close.mpr ⟨hf, fun hfd => hcloses ?_⟩
    rw [hfd]
  | reopens => exact absurd rfl hreopens
  | _ => exact hf

/-- Every descriptor refers to a node, and has a number below the next one. -/
structure Core.Pinned (c : Core) : Prop where
  node : ∀ f ∈ c.fdtable.entries, c.conn.hasNode f.inode = true
  below : ∀ f ∈ c.fdtable.entries, f.fd < c.fdtable.nextFd

lemma Core.Pinned.open_ {d : Db} (h : c.Pinned) {i : ℕ} {flags : Flags} {uid gid : UInt32}
    (hi : d.hasNode i = true) (hd : ∀ f ∈ c.fdtable.entries, d.hasNode f.inode = true) :
    Core.Pinned { c with conn := d, fdtable := (c.fdtable.open_ i flags uid gid).2 } := by
  refine ⟨fun f hf => ?_, fun f hf => ?_⟩
  · rcases FdTable.mem_open.mp hf with rfl | ⟨hf, -⟩
    · exact hi
    · exact hd f hf
  · rcases FdTable.mem_open.mp hf with rfl | ⟨hf, -⟩
    · exact Nat.lt_succ_self _
    · exact Nat.lt_succ_of_lt (h.below f hf)

lemma Core.Pinned.effect (h : c.Pinned) (htree : c.conn.Tree) (hspares : l.Spares c)
    (he : Effect c l c') : c'.Pinned := by
  -- a step that opens nothing and writes nothing leaves every file as it is
  have hkeeps : (∀ i, l ≠ .writes i) → (∀ f ∈ c'.fdtable.entries, f ∈ c.fdtable.entries) →
      c'.fdtable.nextFd = c.fdtable.nextFd → c'.Pinned := by
    intro hl hsub hnext
    refine ⟨fun f hf => ?_, fun f hf => hnext ▸ h.below f (hsub f hf)⟩
    have hnode := h.node f (hsub f hf)
    rw [(Effect.sameFile htree hspares hnode (hl _) (hsub f hf) hf he).hasNode]
    exact hnode
  cases he with
  | writes hrewrites =>
    refine ⟨fun f hf => ?_, h.below⟩
    rw [Db.hasNode_congr (hrewrites.names.kind _)]
    exact h.node f hf
  | truncates hrewrites hnode =>
    refine h.open_ ?_ fun f hf => ?_
    · rw [Db.hasNode_congr (hrewrites.names.kind _)]
      exact hnode
    · rw [Db.hasNode_congr (hrewrites.names.kind _)]
      exact h.node f hf
  | opens hnode => exact h.open_ hnode h.node
  | creates ha =>
    refine h.open_ ha.hasNode fun f hf => ?_
    rw [(ha.sameFile (h.node f hf)).hasNode]
    exact h.node f hf
  | @closes _ fd _ _ _ =>
    refine hkeeps (fun _ hl => nomatch hl) (fun f hf => (FdTable.mem_close.mp hf).1) ?_
    exact FdTable.nextFd_close
  | reopens => exact ⟨fun f hf => absurd hf (KeyTable.not_mem_empty f), fun f hf => absurd hf (KeyTable.not_mem_empty f)⟩
  | _ => exact hkeeps (fun _ hl => nomatch hl) (fun _ hf => hf) rfl

end Effect

lemma Effect.chunkSize {c c' : Core} {l : Label} (hl : l ≠ .reopens) (he : Effect c l c') :
    c'.chunkSize = c.chunkSize := by
  cases he with
  | reopens => exact absurd rfl hl
  | _ => rfl

namespace Filesystem

/-! ### Reading, writing and closing -/

section Operations
variable {s s' : Filesystem} {f : FdEntry}

lemma fdtable_get (hf : f ∈ s.fdtable.entries) : s.fdtable.get f.fd = .ok f :=
  FdTable.get_eq_ok.mpr (KeyTable.find?_key hf)

lemma readFd_result (hf : f ∈ s.fdtable.entries) (hmay : f.Readable) {row : NodeRow}
    (hrow : Nodes.get s.conn f.inode = .ok row) (offset size : ℕ) :
    (readFd f.fd offset size s).result
      = Blobs.readRange s.conn f.inode offset size row.size s.chunkSize := by
  have hmode : f.flags &&& Libc.O_ACCMODE = Libc.O_RDONLY ∨
      f.flags &&& Libc.O_ACCMODE = Libc.O_RDWR := hmay
  unfold readFd
  rw [ask_bind (fdtable_get hf), require_bind hmode, getNode_bind hrow]
  rfl

lemma readFd_refused (hf : f ∈ s.fdtable.entries) (hmay : ¬ f.Readable) (offset size : ℕ) :
    (readFd f.fd offset size s).result
      = err (.permissionDenied [.lit "fd ", .num f.fd, .lit " not opened for read"]) := by
  have hmode : ¬ (f.flags &&& Libc.O_ACCMODE = Libc.O_RDONLY ∨
      f.flags &&& Libc.O_ACCMODE = Libc.O_RDWR) := hmay
  unfold readFd
  rw [ask_bind (fdtable_get hf), require_bind_error hmode]

/-- What a descriptor reads is settled by the size and the chunks of its node. -/
lemma readFd_congr (hf : f ∈ s.fdtable.entries) (hf' : f ∈ s'.fdtable.entries)
    (hnode : s.conn.hasNode f.inode = true) (hfile : s.conn.SameFile s'.conn f.inode)
    (hchunk : s'.chunkSize = s.chunkSize) (offset size : ℕ) :
    (readFd f.fd offset size s').result = (readFd f.fd offset size s).result := by
  by_cases hmay : f.Readable
  · obtain ⟨r, hr⟩ := Option.isSome_iff_exists.mp hnode
    obtain ⟨r', hr'⟩ := Option.isSome_iff_exists.mp (hfile.hasNode.trans hnode)
    have hsize : r'.size = r.size := by
      have hsizes := hfile.size
      rw [Db.info_of_find? hr, Db.info_of_find? hr'] at hsizes
      exact Option.some.inj hsizes
    rw [readFd_result hf hmay (Nodes.get_eq_ok.mpr ⟨r, hr, rfl⟩),
      readFd_result hf' hmay (Nodes.get_eq_ok.mpr ⟨r', hr', rfl⟩), hchunk,
      Blobs.readRange_congr hfile.chunks]
    change Blobs.readRange _ _ _ _ r'.size _ = Blobs.readRange _ _ _ _ r.size _
    rw [hsize]
  · rw [readFd_refused hf hmay, readFd_refused hf' hmay]

lemma tx_bind_noErr {α β : Type} {b : Sql β} {p : β → Action α} (hw : s.readonly = false)
    (hb : Blobs.NoErr (b s.conn))
    (hp : ∀ a d, b s.conn = .ok (a, d) → Blobs.NoErr (p a { s with conn := d }).result) :
    Blobs.NoErr ((tx b >>= p) s).result := by
  cases h : b s.conn with
  | ok x =>
    obtain ⟨a, d⟩ := x
    rw [tx_bind hw h]
    exact hp a d h
  | error x =>
    have hrun : tx b s = ⟨.error x, s, []⟩ := by
      have hdisk : b (disk s) = .error x := h
      rw [tx_apply hw, Prog.transaction, hdisk]
    rw [Prog.bind_apply_error hrun]
    rw [h] at hb
    intro e he
    cases he
    exact hb e rfl

lemma writeFd_noErr (htree : s.conn.Tree) (hw : s.readonly = false) (hf : f ∈ s.fdtable.entries)
    (hmay : f.Writable) (hnode : s.conn.hasNode f.inode = true) (clock : Clock) (offset : ℕ)
    (data : Bytes) : Blobs.NoErr (writeFd clock f.fd offset data s).result := by
  obtain ⟨r, hr⟩ := Option.isSome_iff_exists.mp hnode
  have hmode : f.flags &&& Libc.O_ACCMODE = Libc.O_WRONLY ∨
      f.flags &&& Libc.O_ACCMODE = Libc.O_RDWR := hmay
  unfold writeFd
  rw [requireWritable_bind hw, ask_bind (fdtable_get hf), require_bind hmode,
    getNode_bind (Nodes.get_eq_ok.mpr ⟨r, hr, rfl⟩), ask_bind (b := s.chunkSize) rfl]
  refine tx_bind_noErr hw ?_ fun n d hd => ?_
  · rw [Body.bind_apply]
    exact .bind (Blobs.writeRange_noErr _ _ _ hnode) fun _ _ => .ok _
  · obtain ⟨n', d₁, hwrite, hd⟩ := Body.bind_eq_ok.mp hd
    obtain ⟨_, d₂, hsize, hd⟩ := Body.bind_eq_ok.mp hd
    obtain ⟨rfl, rfl⟩ := Body.pure_eq_ok.mp hd
    have hrewrites := (Blobs.writeRange_changes hwrite).rewrites.trans (Nodes.updateSize_ok hsize)
    obtain ⟨p, hp⟩ := (htree.sameNames hrewrites.names).pathForInode_ok f.inode
    rw [ask_bind hp]
    cases p with
    | none => exact .ok _
    | some path => exact .ok _

lemma collect_result (n i : ℕ) (s : Filesystem) : (collect n i s).result = .ok ⟨⟩ ∨
    ∃ e, (collect n i s).result = .error (.error (.sqlite e)) := by
  by_cases hz : n = 0 ∧ s.fdtable.openCount i = 0
  · obtain ⟨hn, ho⟩ := hz
    by_cases hfails : s.connReadonly = true ∨ ∃ e, s.conn.deleteNode i = .error e
    · obtain ⟨e, he⟩ := collect_failed hn ho hfails
      exact Or.inr ⟨e, congrArg Outcome.result he⟩
    · rw [not_or, Bool.not_eq_true] at hfails
      cases hd : s.conn.deleteNode i with
      | error e => exact absurd ⟨e, hd⟩ hfails.2
      | ok d => exact Or.inl (congrArg Outcome.result (collect_removed hfails.1 hn ho hd))
  · exact Or.inl (congrArg Outcome.result (collect_kept hz))

lemma closeFd_ne_notFound (hf : f ∈ s.fdtable.entries) (hnode : s.conn.hasNode f.inode = true)
    (msg : Msg) : (closeFd f.fd s).result ≠ err (.notFound msg) := by
  obtain ⟨r, hr⟩ := Option.isSome_iff_exists.mp hnode
  have hget : Nodes.get (closed s f).conn f.inode = .ok r.read := Nodes.get_eq_ok.mpr ⟨r, hr, rfl⟩
  have hfd : s.fdtable.entries.find? f.fd = some f := KeyTable.find?_key hf
  rw [closeFd_open hfd, getNode_bind hget]
  rcases collect_result r.read.nlink f.inode (closed s f) with h | ⟨e, h⟩
  · rw [h]
    exact fun hc => nomatch hc
  · rw [h]
    exact fun hc => nomatch hc

end Operations

/-! ### Runs -/

/-- Every open descriptor refers to a node, through which it can be read and written, as far as its
flags go, and closed. -/
structure ServesOpenFiles (s : Filesystem) : Prop where
  node : ∀ f ∈ s.fdtable.entries, s.conn.hasNode f.inode = true
  read : ∀ f ∈ s.fdtable.entries, f.Readable → ∀ offset size, ∃ row,
    Nodes.get s.conn f.inode = .ok row ∧
      (readFd f.fd offset size s).result
        = Blobs.readRange s.conn f.inode offset size row.size s.chunkSize ∧
      Blobs.NoErr (readFd f.fd offset size s).result
  write : s.readonly = false → ∀ f ∈ s.fdtable.entries, f.Writable → ∀ clock offset data,
    Blobs.NoErr (writeFd clock f.fd offset data s).result
  close : ∀ f ∈ s.fdtable.entries, ∀ msg, (closeFd f.fd s).result ≠ err (.notFound msg)

/-- The call is no `rmdir` of an open directory, and no rename that replaces the only name of an
open node whose link count reads as one. -/
def SparesOpenFiles (s : Filesystem) (call : Call) : Prop := ∀ l, call.Asks s l → l.Spares s.core

lemma pinned_fresh {s : Filesystem} (h : Fresh s) : s.core.Pinned := by
  obtain ⟨_, _, _, _, _, _, _, rfl⟩ := h
  exact ⟨fun f hf => absurd hf (KeyTable.not_mem_empty f),
    fun f hf => absurd hf (KeyTable.not_mem_empty f)⟩

lemma pinned_runsTo {s : Filesystem} (h : RunsTo SparesOpenFiles s) : s.core.Pinned := by
  have hboth : s.core.Rooted ∧ s.core.Pinned := by
    refine runsTo_core (P := fun c => c.Rooted ∧ c.Pinned)
      (fun s hs => ⟨rooted_fresh hs, pinned_fresh hs⟩) ?_ h
    rintro s call l c hok hl ⟨hroot, hpin⟩ he
    exact ⟨hroot.effect he, hpin.effect hroot.tree (hok l hl) he⟩
  exact hboth.2

lemma serves_of_pinned {s : Filesystem} (h : s.core.Pinned) (htree : s.conn.Tree) :
    s.ServesOpenFiles := by
  refine ⟨h.node, fun f hf hmay offset size => ?_, fun hw f hf hmay clock offset data =>
    writeFd_noErr htree hw hf hmay (h.node f hf) clock offset data,
    fun f hf => closeFd_ne_notFound hf (h.node f hf)⟩
  obtain ⟨r, hr⟩ := Option.isSome_iff_exists.mp (h.node f hf)
  have hrow : Nodes.get s.conn f.inode = .ok r.read := Nodes.get_eq_ok.mpr ⟨r, hr, rfl⟩
  refine ⟨_, hrow, readFd_result hf hmay hrow offset size, ?_⟩
  rw [readFd_result hf hmay hrow]
  exact Blobs.readRange_noErr _ _ _

/-- Along every run whose steps spare the open files, open descriptors work, and one that is not
closed stays open and reads what it read before, unless the step writes to its file. -/
theorem serves_openFiles {s : Filesystem} (h : RunsTo SparesOpenFiles s) :
    s.ServesOpenFiles ∧ ∀ call, SparesOpenFiles s call → ∀ f ∈ s.fdtable.entries,
      ¬ call.Asks s (.closes f.fd) → ¬ call.Asks s .reopens → ¬ call.Asks s (.writes f.inode) →
        f ∈ (call.exec s).fdtable.entries ∧ ∀ offset size,
          (readFd f.fd offset size (call.exec s)).result = (readFd f.fd offset size s).result := by
  have hpin := pinned_runsTo h
  have htree : s.conn.Tree := (rooted_runsTo h).tree
  refine ⟨serves_of_pinned hpin htree, fun call hok f hf hcloses hreopens hwrites => ?_⟩
  obtain ⟨l, hl, he⟩ := call.effect s
  have hnode := hpin.node f hf
  have hf' : f ∈ (call.exec s).core.fdtable.entries := by
    refine he.mem_entries hpin.below hf ?_ ?_
    · rintro rfl
      exact hcloses hl
    · rintro rfl
      exact hreopens hl
  have hfile : s.core.conn.SameFile (call.exec s).core.conn f.inode := by
    refine Effect.sameFile htree (hok l hl) hnode ?_ hf hf' he
    rintro rfl
    exact hwrites hl
  have hchunk : (call.exec s).core.chunkSize = s.core.chunkSize := by
    refine he.chunkSize ?_
    rintro rfl
    exact hreopens hl
  exact ⟨hf', readFd_congr hf hf' hnode hfile hchunk⟩

/-- A new file whose only name is gone. -/
def unlinkedFile : Filesystem :=
  newFsAfter [.create ['/', 'a'] Libc.O_RDWR 0o644, .unlink ['/', 'a']]

theorem serves_openFiles_unlinkedFile :
    unlinkedFile.ServesOpenFiles ∧ ∀ call, SparesOpenFiles unlinkedFile call →
      ∀ f ∈ unlinkedFile.fdtable.entries, ¬ call.Asks unlinkedFile (.closes f.fd) →
        ¬ call.Asks unlinkedFile .reopens → ¬ call.Asks unlinkedFile (.writes f.inode) →
          f ∈ (call.exec unlinkedFile).fdtable.entries ∧ ∀ offset size,
            (readFd f.fd offset size (call.exec unlinkedFile)).result
              = (readFd f.fd offset size unlinkedFile).result := by
  have hcreate : RunsTo SparesOpenFiles
      ((Call.byRoot (.create ['/', 'a'] Libc.O_RDWR 0o644)).exec newFs) :=
    .next (.start fresh_newFs) fun l hl => by cases l <;> trivial
  refine serves_openFiles (.next (i := Call.byRoot (.unlink ['/', 'a'])) hcreate fun l hl => ?_)
  cases l <;> trivial

/-- A file that was renamed over another one, with both of them open. -/
def replacedFile : Filesystem :=
  newFsAfter [.create ['/', 'a'] Libc.O_RDWR 0o644, .create ['/', 'b'] Libc.O_RDWR 0o644,
    .rename ['/', 'a'] ['/', 'b']]

/-- The descriptor on `/b` has no node left after `/a` was renamed to it. -/
theorem not_serves_replacedFile : Reachable replacedFile ∧ ¬ ServesOpenFiles replacedFile := by
  refine ⟨reachable_newFsAfter _, fun h => ?_⟩
  have hf : FdEntry.mk 2 3 Libc.O_RDWR 0 0 0 ∈ replacedFile.fdtable.entries :=
    (KeyTable.find?_eq_some (k := 2)).mp (by decide +kernel) |>.1
  have hgone : replacedFile.conn.hasNode 3 = false := by decide +kernel
  have hnode := h.node _ hf
  rw [hgone] at hnode
  cases hnode

end Filesystem

end SqliteFs
