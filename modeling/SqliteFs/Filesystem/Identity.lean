import SqliteFs.Lib.Lifetimes
import SqliteFs.Lib.Plays
import SqliteFs.Filesystem.Contents
import SqliteFs.Filesystem.LockLifetimes
import SqliteFs.Filesystem.Leaks
import SqliteFs.Filesystem.ReadOnly

/-!
# What a number stands for

A node is known by its inode, and an open file by its descriptor. Neither number is given a second time,
not even after what it stood for is gone. So a number that is in use at two points of a run stands for
the same at both: a node of the same kind, with the same target if it is a symbolic link; the same open
file.
-/

namespace SqliteFs

open Txn

/-- Descriptors are numbered from one counter up, as long as the filesystem is not mounted again. -/
lemma Effect.handsOut {c c' : Core} {l : Label} (hl : l ≠ .reopens) (he : Effect c l c') :
    c.fdtable.nextFd ≤ c'.fdtable.nextFd ∧
      ∀ f ∈ c'.fdtable.entries, f.fd < c.fdtable.nextFd → f ∈ c.fdtable.entries := by
  have hopened {i : ℕ} {flags : Flags} {uid gid : UInt32} : c.fdtable.nextFd ≤
        (c.fdtable.open_ i flags uid gid).2.nextFd ∧
      ∀ f ∈ (c.fdtable.open_ i flags uid gid).2.entries, f.fd < c.fdtable.nextFd →
        f ∈ c.fdtable.entries := by
    refine ⟨Nat.le_succ _, fun f hf hlt => ?_⟩
    rcases FdTable.mem_open.mp hf with rfl | ⟨hf, -⟩
    · exact absurd hlt (lt_irrefl _)
    · exact hf
  cases he with
  | opens => exact hopened
  | truncates => exact hopened
  | creates => exact hopened
  | closes => exact ⟨FdTable.nextFd_close.ge, fun f hf _ => (FdTable.mem_close.mp hf).1⟩
  | reopens => exact absurd rfl hl
  | _ => exact ⟨le_rfl, fun _ hf _ => hf⟩

namespace Filesystem

variable {s t u : Filesystem} {i : ℕ}

/-! ### Nodes -/

lemma reachable_of_runsTo {Ok : Filesystem → Call → Prop} (h : RunsTo Ok s) : Reachable s := by
  induction h with
  | start h => exact .start h
  | next _ _ ih => exact .next ih trivial

lemma handsOut_nodes : Run.HandsOut Call.exec (fun _ _ => True)
    (fun s i => s.conn.hasNode i = true) (fun s i => i ≤ s.conn.nodesSeq) where
  keeps _ hi := (gone_exec _ hi).1
  fresh {s call i} _ hi hlive := by
    cases hnode : s.conn.hasNode i with
    | true => rfl
    | false =>
      have hgone := (gone_exec call hi).2 hnode
      rw [hlive] at hgone
      cases hgone

/-- What every statement keeps as long as a node is there holds whenever it is. -/
lemma of_live_run {P : Db → Prop} (hrun : Run (· = s) Call.exec (fun _ _ => True) t)
    (hP : ∀ st d d', Statement.Does d d' st → d.hasNode i = true → d'.hasNode i = true → P d → P d')
    (hseen : i ≤ s.conn.nodesSeq) (hs : P s.conn) (hlive : t.conn.hasNode i = true) : P t.conn := by
  refine handsOut_nodes.holds_of_run (P := fun u => P u.conn) ?_ hrun hseen hs hlive
  intro u call _ hi _ hlive' hu
  cases call with
  | reopen => exact hu
  | op user clock operation =>
    have hwrites := Call.writes user clock operation u
    refine (hwrites.gone_or (P := P) hi hu fun st d d' _ hst hnode hd => ?_).resolve_left ?_
    · cases hnode' : d'.hasNode i with
      | false => exact Or.inl rfl
      | true => exact Or.inr (hP st d d' hst hnode hnode' hd)
    · rw [hlive']
      decide

lemma kind_of_run (hrun : Run (· = s) Call.exec (fun _ _ => True) t) (hseen : i ≤ s.conn.nodesSeq)
    (hlive : t.conn.hasNode i = true) : t.conn.kind i = s.conn.kind i := by
  refine of_live_run (P := fun d => d.kind i = s.conn.kind i) hrun ?_ hseen rfl hlive
  exact fun st d d' hst hnode hnode' hd => (hst.kind hnode hnode').trans hd

lemma symlink_of_run {l : SymlinksRow} (hrun : Run (· = s) Call.exec (fun _ _ => True) t)
    (hseen : i ≤ s.conn.nodesSeq) (hl : l ∈ s.conn.symlinks) (hi : l.inode = i)
    (hlive : t.conn.hasNode i = true) : l ∈ t.conn.symlinks := by
  refine of_live_run (P := fun d => l ∈ d.symlinks) hrun ?_ hseen hl hlive
  intro st d d' hst _ hnode' hd
  refine (hst.mem_symlinks_of_mem hd).resolve_right ?_
  rw [hi, hnode']
  decide

/-- As long as a node is there it keeps its kind, and its target if it is a symbolic link. Once it is
gone, no node has its number again: whoever has it later has had it all the time. -/
theorem node_identity (h : Reachable s) (hi : s.conn.hasNode i = true)
    (hu : Run (· = s) Call.exec (fun _ _ => True) u) (ht : Run (· = u) Call.exec (fun _ _ => True) t)
    (hlive : t.conn.hasNode i = true) : u.conn.hasNode i = true ∧ t.conn.kind i = s.conn.kind i ∧
      ∀ l ∈ s.conn.symlinks, l.inode = i → l ∈ t.conn.symlinks := by
  have hseen : i ≤ s.conn.nodesSeq := seqBounds_run (fun _ => seqBounds_fresh) h i hi
  have hrun : Run (· = s) Call.exec (fun _ _ => True) t := hu.trans ht
  exact ⟨handsOut_nodes.live_of_run ht (handsOut_nodes.seen_of_run hu hseen) hlive,
    kind_of_run hrun hseen hlive, fun l hl hli => symlink_of_run hrun hseen hl hli hlive⟩

/-- The new link has its target. -/
lemma symlink_links {clock : Clock} {target : Bytes} {path : Str} :
    Prog.RefusesOr (symlink clock target path) s fun o =>
      ∃ e, resolveParentAndName s.conn path = .ok (e.parent, e.name) ∧
        s.conn.Attaches o.state.conn .symlink e ∧ ⟨e.inode, target⟩ ∈ o.state.conn.symlinks := by
  apply bind_requireWritable
  intro _
  apply Prog.RefusesOr.bind_query
  rintro ⟨parent, name⟩ hparent
  apply bind_getNode
  intro parentRow hrow
  apply bind_require
  intro hdir
  apply Prog.RefusesOr.bind_query
  intro _ _
  apply Prog.RefusesOr.bind_query
  rintro ⟨uid, gid⟩ _
  apply bind_tx_emit
  intro newIno d _ hd
  obtain ⟨i, d₁, hins, hd⟩ := Body.bind_eq_ok.mp hd
  obtain ⟨_, d₂, hent, hd⟩ := Body.bind_eq_ok.mp hd
  obtain ⟨_, d₃, hsym, hd⟩ := Body.bind_eq_ok.mp hd
  obtain ⟨_, d₄, htimes, hd⟩ := Body.bind_eq_ok.mp hd
  obtain ⟨rfl, rfl⟩ := Body.pure_eq_ok.mp hd
  refine ⟨⟨parent, name, newIno⟩, hparent,
    ⟨placed_of_get (resolveParentAndName_named hparent) hrow hdir, d₁, d₂, Nodes.insert_ok hins,
      Entries.insert_eq_ok.mp hent,
      ((Symlinks.insert_ok hsym).trans (Nodes.updateTimes_ok htimes)).congr (add_zero _)⟩, ?_⟩
  have hdoes : (Statement.insertSymlink ⟨newIno, target⟩).Does d₂ d₃ := stmt_eq_ok.mp hsym
  have hdoes' : (Statement.updateTimes parent none (some clock.now) (some clock.now)).Does d₃ d := htimes
  have hsame : Table.Same d₃ d .symlinks := hdoes'.same (by simp [Statement.tables])
  obtain ⟨-, t, ht, rfl⟩ := Db.insertSymlink_eq_ok.mp hdoes
  change _ ∈ d.symlinks
  rw [show d.symlinks = t from hsame]
  exact (KeyTable.mem_insert? ht).mpr (Or.inr rfl)

/-- A symbolic link of root. -/
def linkedFs : Filesystem := (Call.byRoot (.symlink [102] ['/', 'l'])).exec newFs

theorem node_identity_linkedFs :
    ((Call.reopen false 5 5).exec linkedFs).conn.hasNode 2 = true ∧
    ((Call.byRoot (.mkdir ['/', 'd'] 0o755)).exec ((Call.reopen false 5 5).exec linkedFs)).conn.kind 2
      = linkedFs.conn.kind 2 ∧
    ∀ l ∈ linkedFs.conn.symlinks, l.inode = 2 → l ∈
      ((Call.byRoot (.mkdir ['/', 'd'] 0o755)).exec ((Call.reopen false 5 5).exec linkedFs)).conn.symlinks :=
  node_identity (.next (.start fresh_newFs) trivial) (by decide +kernel) (.next (.start rfl) trivial)
    (.next (.start rfl) trivial) (by decide +kernel)

/-! ### Open files -/

lemma handsOut_fds : Run.HandsOut Call.exec (fun _ call => call.Stays)
    (fun s (f : FdEntry) => f ∈ s.fdtable.entries) (fun s f => f.fd < s.fdtable.nextFd) := by
  have hcall {s : Filesystem} {call : Call} (hstays : call.Stays) :
      s.fdtable.nextFd ≤ (call.exec s).fdtable.nextFd ∧ ∀ f ∈ (call.exec s).fdtable.entries,
        f.fd < s.fdtable.nextFd → f ∈ s.fdtable.entries := by
    obtain ⟨l, hl, he⟩ := call.effect s
    refine he.handsOut ?_
    rintro rfl
    cases call with
    | reopen => exact hstays
    | op user clock operation => cases operation <;> exact hl
  exact ⟨fun hstays hlt => hlt.trans_le (hcall hstays).1, fun hstays hlt hf => (hcall hstays).2 _ hf hlt⟩

lemma below_runsTo (h : Reachable s) : ∀ f ∈ s.fdtable.entries, f.fd < s.fdtable.nextFd := by
  refine Run.invariant (P := fun s => ∀ f ∈ s.fdtable.entries, f.fd < s.fdtable.nextFd) ?_ ?_ h
  · rintro s ⟨chunkSize, ownerUid, ownerGid, now, readonly, uid, gid, rfl⟩ f hf
    exact absurd hf (KeyTable.not_mem_empty f)
  · intro s call _ _ hs
    obtain ⟨l, -, he⟩ := call.effect s
    exact he.below hs

lemma open_exec_iff (h : Reachable s) {f : FdEntry} (hf : f ∈ s.fdtable.entries) {call : Call}
    (hstays : call.Stays) : f ∈ (call.exec s).fdtable.entries ↔
      ∀ user clock, call ≠ .op user clock (.closeFd f.fd) := by
  constructor
  · rintro hopen user clock rfl
    rw [Observed.fdtable_closeFd] at hopen
    exact (FdTable.mem_close.mp hopen).2 rfl
  · intro hclose
    obtain ⟨l, hl, he⟩ := call.effect s
    cases call with
    | reopen => exact hstays.elim
    | op user clock operation =>
      refine he.mem_entries (below_runsTo h) hf ?_ ?_
      · rintro rfl
        cases operation with
        | closeFd fd => exact hclose user clock (congrArg (Call.op user clock ∘ Op.closeFd) hl.symm)
        | _ => exact hl
      · rintro rfl
        cases operation <;> exact hl

lemma run_after {calls : List Call} (hcalls : ∀ call ∈ calls, call.Stays) (s : Filesystem) :
    Run (· = s) Call.exec (fun _ call => call.Stays) (Run.after Call.exec calls s) :=
  Run.after_of_forall_mem calls (fun call hcall _ => hcalls call hcall) (.start rfl)

lemma open_after_iff {f : FdEntry} (calls : List Call) (hcalls : ∀ call ∈ calls, call.Stays) :
    ∀ {s : Filesystem}, Reachable s → f ∈ s.fdtable.entries →
      (f ∈ (Run.after Call.exec calls s).fdtable.entries ↔
        ∀ user clock, Call.op user clock (.closeFd f.fd) ∉ calls) := by
  induction calls with
  | nil => exact fun _ hf => iff_of_true hf fun _ _ => List.not_mem_nil
  | cons call calls ih =>
    intro s h hf
    obtain ⟨hstays, hrest⟩ := List.forall_mem_cons.mp hcalls
    have hopen := open_exec_iff h hf hstays
    by_cases hclose : ∀ user clock, call ≠ .op user clock (.closeFd f.fd)
    · rw [Run.after_cons, ih hrest (.next h trivial) (hopen.mpr hclose)]
      simp only [List.mem_cons, not_or, (hclose _ _).symm, not_false_eq_true, true_and]
    · -- it is closed now, and its number is not given again
      refine iff_of_false (fun hafter => hclose (hopen.mp ?_)) fun hnot => hclose fun user clock heq => ?_
      · exact handsOut_fds.live_of_run (run_after hrest _)
          (handsOut_fds.keeps hstays (below_runsTo h f hf)) hafter
      · exact hnot user clock (heq ▸ List.mem_cons_self)

/-- A descriptor is open until it is closed, and its number stands for the same open file from then on
until the filesystem is mounted again. -/
theorem fd_identity (h : Reachable s) {f : FdEntry} (hf : f ∈ s.fdtable.entries) (calls : List Call)
    (hcalls : ∀ call ∈ calls, call.Stays) :
    (f ∈ (Run.after Call.exec calls s).fdtable.entries ↔
      ∀ user clock, Call.op user clock (.closeFd f.fd) ∉ calls) ∧
    ∀ f' ∈ (Run.after Call.exec calls s).fdtable.entries, f'.fd = f.fd → f' = f := by
  refine ⟨open_after_iff calls hcalls h hf, fun f' hf' hfd => ?_⟩
  have hlt : f'.fd < s.fdtable.nextFd := by
    rw [hfd]
    exact below_runsTo h f hf
  have hthere : f' ∈ s.fdtable.entries := handsOut_fds.live_of_run (run_after hcalls s) hlt hf'
  have hkey := KeyTable.find?_key hthere
  rw [key_fdEntry, hfd] at hkey
  exact Option.some.inj (hkey.symm.trans (KeyTable.find?_key hf))

/-- A file of root that is open. -/
def openedFile : Filesystem := (Call.byRoot (.create ['/', 'f'] Libc.O_RDWR 0o644)).exec newFs

theorem fd_identity_openedFile :
    (⟨1, 2, Libc.O_RDWR, 0, 0, 0⟩ ∈ (Run.after Call.exec
        [.byRoot (.unlink ['/', 'f']), .byRoot (.closeFd 1)] openedFile).fdtable.entries ↔
      ∀ user clock, Call.op user clock (.closeFd 1) ∉
        [Call.byRoot (.unlink ['/', 'f']), .byRoot (.closeFd 1)]) ∧
    ∀ f' ∈ (Run.after Call.exec [.byRoot (.unlink ['/', 'f']), .byRoot (.closeFd 1)]
      openedFile).fdtable.entries, f'.fd = 1 → f' = ⟨1, 2, Libc.O_RDWR, 0, 0, 0⟩ :=
  fd_identity (f := ⟨1, 2, Libc.O_RDWR, 0, 0, 0⟩) (.next (.start fresh_newFs) trivial)
    (by decide +kernel) _ (by simp [Call.Stays, Call.byRoot])

end Filesystem

end SqliteFs
