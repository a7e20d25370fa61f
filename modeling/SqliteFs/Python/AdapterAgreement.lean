import SqliteFs.Python.Adapter
import SqliteFs.Python.Transfers
import SqliteFs.Python.WritePermission
import SqliteFs.Lib.Success
import SqliteFs.Lib.Frames

/-!
# The adapter beside the library

The adapter reads and writes without the checks of the library, and without its event. Where it does
so anyway, both end alike.
-/

namespace SqliteFs

open Txn

namespace Python

open Python.Filesystem

variable {s : Filesystem} {env : Env} {fh i : ℕ} {f : FdEntry} {row : NodesRow} {buf : Bytes}
  {off size : ℤ}

/-! ### The event -/

lemma receive_eq_self_iff {w : Watcher} {event : Event} :
    w.receive event = w ↔ (w.closed = false → w.matches_ event = false) := by
  unfold Watcher.receive
  split_ifs with h
  · obtain ⟨hopen, hmatches⟩ := h
    have hopen : w.closed = false := Bool.eq_false_of_not_eq_true hopen
    refine iff_of_false (fun heq => ?_) fun hall => ?_
    · have hqueue := congrArg (fun w : Watcher => w.queue.length) heq
      simp [Watcher.enqueue, hopen] at hqueue
    · rw [hall hopen] at hmatches
      cases hmatches
  · refine iff_of_true rfl fun hopen => Bool.eq_false_of_not_eq_true fun hmatches => h ⟨?_, hmatches⟩
    rw [hopen]
    exact Bool.false_ne_true

/-- The event of a change of the file. -/
def modifyEvent (env : Env) (i : ℕ) (path : Str) : Event :=
  ⟨.modify, path, none, none, .file, i, env.now⟩

/-- Nobody is told of a change of the file: it has no path, or no open watcher watches the path. -/
def Unheard (s : Filesystem) (env : Env) (i : ℕ) : Prop :=
  (pathOfInode i s).result = .ok none ∨
  ∃ path, (pathOfInode i s).result = .ok (some path) ∧
    ∀ w ∈ s.watchers, w.closed = false → w.matches_ (modifyEvent env i path) = false

lemma frames_watchers (i : ℕ) : Prog.Frames Filesystem.watchers (pathOfInode i) := by
  unfold pathOfInode
  refine .ite (.pure _) (.bind (.query _) fun cached => ?_)
  cases cached with
  | some path => exact .pure _
  | none =>
    refine .bind (.query _) fun path => ?_
    cases path with
    | some path => exact .bind (.volatile fun _ => rfl) fun _ => .pure _
    | none => exact .pure _

lemma ofInode_congr {d d' : Db} (h : d'.entries = d.entries) :
    Entries.ofInode d' = Entries.ofInode d := by
  funext i
  unfold Entries.ofInode
  rw [h]

lemma uncachedPath_congr {d d' : Db} (h : d'.entries = d.entries) :
    uncachedPath d' = uncachedPath d := by
  have hloop : ∀ fuel cur parts, pathLoop d' fuel cur parts = pathLoop d fuel cur parts := by
    intro fuel
    induction fuel with
    | zero => exact fun _ _ => rfl
    | succ fuel ih =>
      intro cur parts
      simp only [pathLoop, ofInode_congr h, ih]
  funext i
  unfold uncachedPath
  rw [hloop, h]

lemma pathOfInode_congr {d : Db} (h : d.entries = s.conn.entries) (i : ℕ) :
    (pathOfInode i { s with conn := d }).result = (pathOfInode i s).result := by
  unfold pathOfInode
  split_ifs with hroot
  · rfl
  · rw [ask_bind (b := (s.pathCache.find? i).map CachedPath.path) rfl,
      ask_bind (s := s) (b := (s.pathCache.find? i).map CachedPath.path) rfl]
    cases (s.pathCache.find? i).map CachedPath.path with
    | some path => rfl
    | none =>
      dsimp only
      cases hpath : uncachedPath s.conn i with
      | error e =>
        rw [ask_bind_error (s := s) hpath, ask_bind_error (e := e)]
        change uncachedPath d i = _
        rw [uncachedPath_congr h, hpath]
      | ok o =>
        rw [ask_bind (s := s) hpath, ask_bind (b := o)]
        · cases o <;> rfl
        · change uncachedPath d i = _
          rw [uncachedPath_congr h, hpath]

/-- The event goes out if the inode has a path, and the call hangs if the climb does. -/
lemma emitModify_cases (s : Filesystem) (env : Env) (i : ℕ) :
    (∃ e, (pathOfInode i s).result = .error e ∧ (emitModify env i s).result = .error e) ∨
    ((pathOfInode i s).result = .ok none ∧ (emitModify env i s).result = .ok ⟨⟩ ∧
      (emitModify env i s).state.watchers = s.watchers) ∨
    ∃ path, (pathOfInode i s).result = .ok (some path) ∧ (emitModify env i s).result = .ok ⟨⟩ ∧
      (emitModify env i s).state.watchers = s.watchers.map (·.receive (modifyEvent env i path)) := by
  have hwatchers := frames_watchers i s
  unfold emitModify
  cases hrun : pathOfInode i s with
  | mk r t l =>
    rw [hrun] at hwatchers
    have hwatchers : t.watchers = s.watchers := hwatchers
    cases r with
    | error e =>
      rw [Prog.bind_apply_error hrun]
      exact Or.inl ⟨e, rfl, rfl⟩
    | ok o =>
      rw [Prog.bind_apply_ok hrun, ← hwatchers]
      cases o with
      | none => exact Or.inr (Or.inl ⟨rfl, rfl, rfl⟩)
      | some path => exact Or.inr (Or.inr ⟨path, rfl, rfl, rfl⟩)

/-! ### What can be raised -/

/-- The exception is answered with `EIO`. -/
def Internal (e : Halt) : Prop := ∃ x, e = .raised x ∧ x.errno = Libc.EIO

lemma internal_check {c : Prop} [Decidable c] {x : Exc} {e : Halt} (hx : x.errno = Libc.EIO)
    (h : check c x = .error e) : Internal e := by
  unfold check at h
  split_ifs at h
  exact ⟨x, (Except.error.inj h).symm, hx⟩

lemma raises_params (ns : List ℤ) : Body.Raises Internal (params ns) :=
  .ask fun _ _ => internal_check rfl

lemma raises_floorDiv (a b : ℤ) : Body.Raises Internal (Body.ask fun _ => Blobs.floorDiv a b : Sql ℤ) := by
  refine .ask fun _ e h => ?_
  unfold Blobs.floorDiv at h
  split_ifs at h
  exact ⟨_, (Except.error.inj h).symm, rfl⟩

lemma raises_update (g : Db → Db) : Body.Raises Internal (update g) := .exec fun _ _ h => nomatch h

lemma raises_execute (g : Db → Db.Stmt) : Body.Raises Internal (execute g) := by
  refine .exec fun d e h => ?_
  cases hd : g d with
  | some d' =>
    rw [hd] at h
    cases h
  | none =>
    rw [hd] at h
    exact ⟨_, (Except.error.inj h).symm, rfl⟩

lemma raises_putAll (rows : List (ℤ × Bytes)) : Body.Raises Internal (Blobs.putAll i rows) := by
  induction rows with
  | nil => exact .pure _
  | cons row rows ih => exact .bind (raises_execute _) fun _ => ih

lemma raises_writeBody (chunkSize : ℤ) :
    Body.Raises Internal (writeBody env i buf off size chunkSize) := by
  refine .bind (.ite (.pure _) ?_) fun _ => .bind (raises_params _) fun _ => raises_update _
  exact .bind (raises_floorDiv _ _) fun _ => .bind (raises_floorDiv _ _) fun _ =>
    .bind (raises_params _) fun _ => .bind (.ask fun _ _ h => nomatch h) fun _ =>
    .bind (raises_putAll _) fun _ => .pure _

lemma raises_writing {readonly : Bool} {b : Sql PUnit} (h : Body.Raises Internal b) :
    Body.Raises Internal (Adapter.writing readonly b) :=
  .bind h fun _ => .ask fun _ _ => internal_check rfl

/-! ### Writing -/

section Runs
variable {α β : Type} {b : Sql β} {g : β → Action α}

lemma withConn_bind_error {e : Halt} (h : b s.conn = .error e) :
    (withConn b >>= g) s = ⟨.error e, s, []⟩ := by
  have hrun : withConn b s = ⟨.error e, s, []⟩ := by
    unfold withConn Prog.transaction
    rw [show b (disk s) = .error e from h]
  exact Prog.bind_apply_error hrun

lemma withConn_bind_ok {a : β} {d : Db} (h : b s.conn = .ok (a, d)) :
    (withConn b >>= g) s = ⟨(g a { s with conn := d }).result, (g a { s with conn := d }).state,
      d :: (g a { s with conn := d }).commits⟩ := by
  have hrun : withConn b s = ⟨.ok a, { s with conn := d }, [d]⟩ := by
    unfold withConn Prog.transaction
    rw [show b (disk s) = .ok (a, d) from h]
    rfl
  exact Prog.bind_apply_ok hrun

end Runs

lemma answering_error {α : Type} {p : Action α} {e : Exc} {t : Filesystem} {l : List Db}
    (h : p s = ⟨.error (.raised e), t, l⟩) : Adapter.answering p s = ⟨.ok (.error e.errno), t, l⟩ := by
  unfold Adapter.answering
  rw [h]

lemma answering_ok {α : Type} {p : Action α} {a : α} {t : Filesystem} {l : List Db}
    (h : p s = ⟨.ok a, t, l⟩) : Adapter.answering p s = ⟨.ok (.ok a), t, l⟩ := by
  unfold Adapter.answering
  rw [h]

section Write
variable (hf : s.fdTable.entries.find? fh = some f)
include hf

lemma adapter_write_missing (hrow : s.conn.nodes.find? f.inode = none) :
    Adapter.write env fh off buf s = ⟨.ok (.error Libc.ENOENT), s, []⟩ := by
  refine answering_error (e := .notFound [.lit "no node with inode ", .num f.inode]) ?_
  rw [ask_bind (rowOr_eq_ok.mpr hf)]
  refine ask_bind_error ?_
  unfold Nodes.get
  rw [hrow]
  rfl

/-- A block that fails, or that is refused, is answered with `EIO`. -/
lemma adapter_write_fails (hrow : s.conn.nodes.find? f.inode = some row)
    (h : s.readonly = true ∨ ¬ Writable s.chunkSizeVal off row.size buf) :
    Adapter.write env fh off buf s = ⟨.ok (.error Libc.EIO), s, []⟩ := by
  have hnode : s.conn.hasNode f.inode = true := Option.isSome_iff_exists.mpr ⟨row, hrow⟩
  have hfails : ∃ e, Adapter.writing s.readonly
      (writeBody env f.inode buf off row.size s.chunkSizeVal) s.conn = .error e := by
    cases hb : Adapter.writing s.readonly
        (writeBody env f.inode buf off row.size s.chunkSizeVal) s.conn with
    | error e => exact ⟨e, rfl⟩
    | ok r =>
      obtain ⟨u, d'⟩ := r
      obtain ⟨_, d, hbody, hcheck⟩ := Body.bind_eq_ok.mp hb
      obtain ⟨hcheck, -⟩ := Body.ask_eq_ok.mp hcheck
      rcases h with h | h
      · rw [check_eq_ok, h] at hcheck
        cases hcheck
      · exact absurd ((writeBody_isOk hnode).mp ⟨d, hbody⟩) h
  obtain ⟨e, he⟩ := hfails
  obtain ⟨x, rfl, hx⟩ := raises_writing (raises_writeBody _) _ _ he
  rw [← hx]
  refine answering_error ?_
  rw [ask_bind (rowOr_eq_ok.mpr hf), getNode_bind (rowOr_eq_ok.mpr hrow),
    ask_bind (b := (s.readonly, s.chunkSizeVal)) rfl]
  exact withConn_bind_error he

lemma adapter_write_goes (hw : s.readonly = false) (hrow : s.conn.nodes.find? f.inode = some row)
    {d : Db} (hd : writeBody env f.inode buf off row.size s.chunkSizeVal s.conn = .ok (⟨⟩, d)) :
    Adapter.write env fh off buf s = ⟨.ok (.ok buf.length), { s with conn := d }, [d]⟩ := by
  have hwriting : Adapter.writing s.readonly
      (writeBody env f.inode buf off row.size s.chunkSizeVal) s.conn = .ok (⟨⟩, d) :=
    Body.bind_eq_ok.mpr ⟨⟨⟩, d, hd, Body.ask_eq_ok.mpr ⟨check_eq_ok.mpr hw, rfl⟩⟩
  refine answering_ok ?_
  rw [ask_bind (rowOr_eq_ok.mpr hf), getNode_bind (rowOr_eq_ok.mpr hrow),
    ask_bind (b := (s.readonly, s.chunkSizeVal)) rfl]
  exact withConn_bind_ok hwriting

/-- What the library answers to a descriptor that is not for writing, or on a read-only filesystem. -/
lemma write_refuses (h : ¬ (s.readonly = false ∧ accessMode f.flags ≠ Os.O_RDONLY)) :
    ∃ e, e ≠ Libc.ENOENT ∧ e ≠ Libc.EIO ∧
      Adapter.answering (write env fh buf off) s = ⟨.ok (.error e), s, []⟩ := by
  by_cases hw : s.readonly = false
  · have hmode : ¬ accessMode f.flags ≠ Os.O_RDONLY := fun hmode => h ⟨hw, hmode⟩
    refine ⟨Libc.EACCES, by decide, by decide, ?_⟩
    refine answering_error (e := .permissionDenied [.lit "fd opened O_RDONLY"]) ?_
    unfold write
    rw [requireWritable_bind hw, ask_bind (rowOr_eq_ok.mpr hf)]
    exact require_bind_error hmode
  · refine ⟨Libc.EROFS, by decide, by decide, ?_⟩
    refine answering_error (e := .readOnlyFilesystem [.lit "filesystem is read-only"]) ?_
    exact ask_bind_error (if_neg hw)

section Allowed
variable (hw : s.readonly = false) (hmode : accessMode f.flags ≠ Os.O_RDONLY)
include hw hmode

lemma write_missing (hrow : s.conn.nodes.find? f.inode = none) :
    Adapter.answering (write env fh buf off) s = ⟨.ok (.error Libc.ENOENT), s, []⟩ := by
  refine answering_error (e := .notFound [.lit "no node with inode ", .num f.inode]) ?_
  unfold write
  rw [requireWritable_bind hw, ask_bind (rowOr_eq_ok.mpr hf), require_bind hmode]
  refine ask_bind_error ?_
  unfold Nodes.get
  rw [hrow]
  rfl

lemma write_fails (hrow : s.conn.nodes.find? f.inode = some row)
    (h : ¬ Writable s.chunkSizeVal off row.size buf) :
    Adapter.answering (write env fh buf off) s = ⟨.ok (.error Libc.EIO), s, []⟩ := by
  have hnode : s.conn.hasNode f.inode = true := Option.isSome_iff_exists.mpr ⟨row, hrow⟩
  cases hb : writeBody env f.inode buf off row.size s.chunkSizeVal s.conn with
  | ok r =>
    obtain ⟨u, d⟩ := r
    exact absurd ((writeBody_isOk hnode).mp ⟨d, hb⟩) h
  | error e =>
    obtain ⟨x, rfl, hx⟩ := raises_writeBody _ _ _ hb
    rw [← hx]
    refine answering_error ?_
    unfold write
    rw [requireWritable_bind hw, ask_bind (rowOr_eq_ok.mpr hf), require_bind hmode,
      getNode_bind (rowOr_eq_ok.mpr hrow), ask_bind (b := s.chunkSizeVal) rfl]
    exact withConn_bind_error hb

/-- After the commit comes the event. -/
lemma write_goes (hrow : s.conn.nodes.find? f.inode = some row) {d : Db}
    (hd : writeBody env f.inode buf off row.size s.chunkSizeVal s.conn = .ok (⟨⟩, d)) :
    ((∃ e, (pathOfInode f.inode s).result = .error e) ∧
      (Adapter.answering (write env fh buf off) s).result ≠ .ok (.ok buf.length)) ∨
    ((Adapter.answering (write env fh buf off) s).result = .ok (.ok buf.length) ∧
      (Adapter.answering (write env fh buf off) s).state.conn = d ∧
      ((pathOfInode f.inode s).result = .ok none ∧
        (Adapter.answering (write env fh buf off) s).state.watchers = s.watchers ∨
      ∃ path, (pathOfInode f.inode s).result = .ok (some path) ∧
        (Adapter.answering (write env fh buf off) s).state.watchers
          = s.watchers.map (·.receive (modifyEvent env f.inode path)))) := by
  have hentries : d.entries = s.conn.entries :=
    (keeps_writeBody (d := s.conn) s.conn _ d .refl hd).entries
  have hconn : disk (emitModify env f.inode { s with conn := d }).state = d :=
    (keeps_emitModify (P := (· = d)) { s with conn := d } rfl).1
  have hcases := emitModify_cases { s with conn := d } env f.inode
  have hrun : ∀ {g : PUnit → Action ℕ} {o}, (emitModify env f.inode >>= g) { s with conn := d } = o →
      g = (fun _ => pure buf.length) →
      write env fh buf off s = ⟨o.result, o.state, d :: o.commits⟩ := by
    rintro g o rfl rfl
    unfold write
    rw [requireWritable_bind hw, ask_bind (rowOr_eq_ok.mpr hf), require_bind hmode,
      getNode_bind (rowOr_eq_ok.mpr hrow), ask_bind (b := s.chunkSizeVal) rfl]
    exact withConn_bind_ok hd
  rw [← pathOfInode_congr hentries]
  cases hemit : emitModify env f.inode { s with conn := d } with
  | mk r t l =>
    rw [hemit] at hconn hcases
    rcases hcases with ⟨e, hpath, rfl⟩ | ⟨hpath, rfl, hwatchers⟩ | ⟨path, hpath, rfl, hwatchers⟩
    · refine Or.inl ⟨⟨e, hpath⟩, ?_⟩
      have hwrite := hrun (Prog.bind_apply_error hemit) rfl
      unfold Adapter.answering
      rw [hwrite]
      cases e with
      | raised x => exact fun heq => nomatch heq
      | diverge => exact fun heq => nomatch heq
    · rw [answering_ok (hrun (Prog.bind_apply_ok hemit) rfl)]
      exact Or.inr ⟨rfl, hconn, Or.inl ⟨hpath, hwatchers⟩⟩
    · rw [answering_ok (hrun (Prog.bind_apply_ok hemit) rfl)]
      exact Or.inr ⟨rfl, hconn, Or.inr ⟨path, hpath, hwatchers⟩⟩

end Allowed

end Write

/-- A write through the adapter ends like one through the library, with the same tables, and every
watcher has the same events. -/
structure WritesAgree (s : Filesystem) (env : Env) (fh : ℕ) (off : ℤ) (buf : Bytes) : Prop where
  outcome : (Adapter.write env fh off buf s).result
    = (Adapter.answering (write env fh buf off) s).result
  tables : (Adapter.write env fh off buf s).state.conn = (write env fh buf off s).state.conn
  events : (Adapter.write env fh off buf s).state.watchers = (write env fh buf off s).state.watchers

/-- A read through the adapter returns bytes when one through the library does, and the same. -/
def ReadsAgree (s : Filesystem) (fh : ℕ) (off size : ℤ) : Prop :=
  ∀ bytes, (Adapter.read fh off size s).result = .ok (.ok bytes) ↔
    (read fh size off s).result = .ok bytes

/-- A write is not to be refused for the descriptor or for a read-only filesystem; and if it goes
through, nobody is to hear of it. -/
structure WritesAlike (s : Filesystem) (env : Env) (f : FdEntry) (off : ℤ) (buf : Bytes) : Prop where
  writable : s.readonly = false
  mode : accessMode f.flags ≠ Os.O_RDONLY
  unheard : ∀ row, s.conn.nodes.find? f.inode = some row →
    Writable s.chunkSizeVal off row.size buf → Unheard s env f.inode

/-- A read is not to be refused for the descriptor, unless it would fail anyway. -/
def ReadsAlike (s : Filesystem) (f : FdEntry) (off size : ℤ) : Prop :=
  accessMode f.flags = Os.O_WRONLY → ∀ row, s.conn.nodes.find? f.inode = some row →
    ¬ Readable s.conn f.inode s.chunkSizeVal off size row.size

lemma answering_state {α : Type} {p : Action α} : (Adapter.answering p s).state = (p s).state := by
  unfold Adapter.answering
  split <;> simp only [*]

lemma answering_eq_ok {α : Type} {p : Action α} {a : α} :
    (Adapter.answering p s).result = .ok (.ok a) ↔ (p s).result = .ok a := by
  unfold Adapter.answering
  split <;> simp only [*, Except.ok.injEq, reduceCtorEq]

lemma readNode_eq_ok {bytes : Bytes} :
    ((getNode i >>= fun node => ask fun s =>
      Blobs.readRange s.conn i off size node.size s.chunkSizeVal) s).result = .ok bytes ↔
    ∃ row, s.conn.nodes.find? i = some row ∧
      Blobs.readRange s.conn i off size row.size s.chunkSizeVal = .ok bytes := by
  cases hrow : s.conn.nodes.find? i with
  | none =>
    have hmissing : Nodes.get s.conn i
        = raise (.notFound [.lit "no node with inode ", .num i]) := by
      unfold Nodes.get
      rw [hrow]
      rfl
    refine iff_of_false (fun h => ?_) fun ⟨_, hrow, _⟩ => nomatch hrow
    unfold getNode at h
    rw [ask_bind_error hmissing] at h
    cases h
  | some row =>
    rw [getNode_bind (rowOr_eq_ok.mpr hrow)]
    simp only [Option.some.injEq, exists_eq_left']
    exact Iff.rfl

lemma map_receive_eq_self_iff {event : Event} {ws : List Watcher} :
    ws.map (·.receive event) = ws ↔ ∀ w ∈ ws, w.closed = false → w.matches_ event = false := by
  simp only [← receive_eq_self_iff]
  conv_lhs => rw [← List.map_id ws, List.map_map]
  exact List.map_inj_left

lemma writesAgree_of_run {o : Outcome Filesystem Db Halt (Except Errno ℕ)}
    (h : Adapter.write env fh off buf s = o)
    (h' : Adapter.answering (write env fh buf off) s = o) : WritesAgree s env fh off buf := by
  have hstate := congrArg Outcome.state h'
  rw [answering_state] at hstate
  refine ⟨?_, ?_, ?_⟩
  · rw [h, h']
  · rw [h, hstate]
  · rw [h, hstate]

lemma writeBody_of_writable (env : Env) {row : NodesRow} (hrow : s.conn.nodes.find? f.inode = some row)
    (hgoes : Writable s.chunkSizeVal off row.size buf) :
    ∃ d, writeBody env f.inode buf off row.size s.chunkSizeVal s.conn = .ok (⟨⟩, d) :=
  (writeBody_isOk (Option.isSome_iff_exists.mpr ⟨row, hrow⟩)).mpr hgoes

section Agree
variable (hf : s.fdTable.entries.find? fh = some f)
include hf

/-- Where the write goes through, the agreement is about the event. -/
lemma writesAgree_iff_of_goes {row : NodesRow} (hw : s.readonly = false)
    (hmode : accessMode f.flags ≠ Os.O_RDONLY) (hrow : s.conn.nodes.find? f.inode = some row)
    (hgoes : Writable s.chunkSizeVal off row.size buf) :
    WritesAgree s env fh off buf ↔ WritesAlike s env f off buf := by
  obtain ⟨d, hd⟩ := writeBody_of_writable env hrow hgoes
  have hadapter := adapter_write_goes hf hw hrow hd
  rcases write_goes hf hw hmode hrow hd with ⟨⟨e, hpath⟩, hne⟩ | ⟨hresult, hconn, hevent⟩
  · refine iff_of_false (fun hagree => hne ?_) fun hlike => ?_
    · rw [← hagree.outcome, hadapter]
    · rcases hlike.unheard row hrow hgoes with hnone | ⟨path, hsome, -⟩
      · rw [hpath] at hnone
        cases hnone
      · rw [hpath] at hsome
        cases hsome
  · rw [answering_state] at hconn hevent
    constructor
    · intro hagree
      have hevents := hagree.events
      rw [hadapter] at hevents
      refine ⟨hw, hmode, fun _ _ _ => ?_⟩
      rcases hevent with ⟨hnone, -⟩ | ⟨path, hsome, hwatchers⟩
      · exact Or.inl hnone
      · exact Or.inr ⟨path, hsome, map_receive_eq_self_iff.mp
          (hwatchers.symm.trans hevents.symm)⟩
    · intro hlike
      refine ⟨?_, ?_, ?_⟩
      · rw [hadapter, hresult]
      · rw [hadapter, hconn]
      · rw [hadapter]
        rcases hevent with ⟨-, hwatchers⟩ | ⟨path, hsome, hwatchers⟩
        · exact hwatchers.symm
        · rcases hlike.unheard row hrow hgoes with hnone | ⟨path', hsome', hall⟩
          · rw [hsome] at hnone
            cases hnone
          · obtain rfl := Option.some.inj (Except.ok.inj (hsome.symm.trans hsome'))
            rw [hwatchers]
            exact (map_receive_eq_self_iff.mpr hall).symm

/-- The adapter does not refuse what the library refuses, or not with the same error. -/
lemma not_writesAgree_of_refused
    (hrefused : ¬ (s.readonly = false ∧ accessMode f.flags ≠ Os.O_RDONLY)) :
    ¬ WritesAgree s env fh off buf := by
  intro hagree
  obtain ⟨e, hnoent, hio, hrun⟩ : ∃ e, e ≠ Libc.ENOENT ∧ e ≠ Libc.EIO ∧
      Adapter.answering (write env fh buf off) s = ⟨.ok (.error e), s, []⟩ :=
    write_refuses hf hrefused
  have houtcome := hagree.outcome
  rw [hrun] at houtcome
  cases hrow : s.conn.nodes.find? f.inode with
  | none =>
    rw [adapter_write_missing hf hrow] at houtcome
    exact hnoent (Except.error.inj (Except.ok.inj houtcome)).symm
  | some row =>
    by_cases hfails : s.readonly = true ∨ ¬ Writable s.chunkSizeVal off row.size buf
    · rw [adapter_write_fails hf hrow hfails] at houtcome
      exact hio (Except.error.inj (Except.ok.inj houtcome)).symm
    · rw [not_or, not_not] at hfails
      obtain ⟨d, hd⟩ := writeBody_of_writable env hrow hfails.2
      rw [adapter_write_goes hf (Bool.eq_false_of_not_eq_true hfails.1) hrow hd] at houtcome
      cases houtcome

lemma writesAgree_iff : WritesAgree s env fh off buf ↔ WritesAlike s env f off buf := by
  by_cases hallowed : s.readonly = false ∧ accessMode f.flags ≠ Os.O_RDONLY
  · obtain ⟨hw, hmode⟩ := hallowed
    cases hrow : s.conn.nodes.find? f.inode with
    | none =>
      refine iff_of_true (writesAgree_of_run (adapter_write_missing hf hrow)
        (write_missing hf hw hmode hrow)) ⟨hw, hmode, fun row hrow' => ?_⟩
      rw [hrow] at hrow'
      cases hrow'
    | some row =>
      by_cases hgoes : Writable s.chunkSizeVal off row.size buf
      · exact writesAgree_iff_of_goes hf hw hmode hrow hgoes
      · refine iff_of_true (writesAgree_of_run (adapter_write_fails hf hrow (Or.inr hgoes))
          (write_fails hf hw hmode hrow hgoes)) ⟨hw, hmode, fun row' hrow' hgoes' => ?_⟩
        obtain rfl := Option.some.inj (hrow.symm.trans hrow')
        exact absurd hgoes' hgoes
  · exact iff_of_false (not_writesAgree_of_refused hf hallowed)
      fun hlike => hallowed ⟨hlike.writable, hlike.mode⟩

lemma adapter_read_eq_ok {bytes : Bytes} :
    (Adapter.read fh off size s).result = .ok (.ok bytes) ↔ ∃ row,
      s.conn.nodes.find? f.inode = some row ∧
        Blobs.readRange s.conn f.inode off size row.size s.chunkSizeVal = .ok bytes := by
  rw [Adapter.read, answering_eq_ok, ask_bind (rowOr_eq_ok.mpr hf)]
  exact readNode_eq_ok

lemma read_eq_ok {bytes : Bytes} : (read fh size off s).result = .ok bytes ↔
    accessMode f.flags ≠ Os.O_WRONLY ∧ ∃ row, s.conn.nodes.find? f.inode = some row ∧
      Blobs.readRange s.conn f.inode off size row.size s.chunkSizeVal = .ok bytes := by
  unfold Python.Filesystem.read
  rw [ask_bind (rowOr_eq_ok.mpr hf)]
  by_cases hmode : accessMode f.flags ≠ Os.O_WRONLY
  · rw [require_bind hmode, and_iff_right hmode]
    exact readNode_eq_ok
  · refine iff_of_false (fun h => ?_) fun h => hmode h.1
    rw [require_bind_error hmode] at h
    cases h

lemma readsAgree_iff : ReadsAgree s fh off size ↔ ReadsAlike s f off size := by
  unfold ReadsAgree ReadsAlike
  simp only [adapter_read_eq_ok hf, read_eq_ok hf, ← readRange_isOk]
  by_cases hmode : accessMode f.flags = Os.O_WRONLY
  · simp only [hmode, ne_eq, not_true, false_and, iff_false, true_imp_iff, not_exists, not_and]
    exact ⟨fun h row hrow bytes => h bytes row hrow, fun h bytes row hrow => h row hrow bytes⟩
  · exact iff_of_true (fun bytes => (and_iff_right hmode).symm) fun h => absurd h hmode

/-- A write through the adapter is the same as one through the library exactly if it is not to be
refused and nobody is to be told of it; and so is a read exactly if it is not to be refused. -/
theorem adapter_agrees_iff (env : Env) (off size : ℤ) (buf : Bytes) :
    (WritesAgree s env fh off buf ↔ WritesAlike s env f off buf) ∧
    (ReadsAgree s fh off size ↔ ReadsAlike s f off size) :=
  ⟨writesAgree_iff hf, readsAgree_iff hf⟩

end Agree

/-- A file of root's that is open for reading and writing, for reading and for writing, and a watcher
of the whole tree. -/
def watchedFile : Filesystem :=
  newFsAfter [.create ['/', 'f'] 0o644 0, .open_ ['/', 'f'] Os.O_RDONLY 0,
    .open_ ['/', 'f'] Os.O_WRONLY 0, .watch ['/'] true]

def envAtZero : Env := ⟨0, 1, storable_zero⟩

theorem adapter_agrees_iff_watchedFile :
    WritesAgree watchedFile envAtZero 1 0 [1] ↔
      WritesAlike watchedFile envAtZero ⟨1, 2, 0x242, 0, 0, 0⟩ 0 [1] :=
  (adapter_agrees_iff (by decide +kernel) envAtZero 0 0 [1]).1

/-- The watcher hears of a write through the library only; the descriptor for reading is written to,
and the one for writing is read from, through the adapter only. -/
theorem not_adapter_agrees_watchedFile : Reachable watchedFile ∧
    ¬ WritesAgree watchedFile envAtZero 1 0 [1] ∧
    ¬ WritesAgree watchedFile envAtZero 2 0 [1] ∧ ¬ ReadsAgree watchedFile 3 0 1 := by
  refine ⟨reachable_newFsAfter _, fun h => ?_, fun h => ?_, fun h => ?_⟩
  · have hdiff : (Adapter.write envAtZero 1 0 [1] watchedFile).state.watchers
        ≠ (write envAtZero 1 [1] 0 watchedFile).state.watchers := by decide +kernel
    exact hdiff h.events
  · have hdiff : (Adapter.write envAtZero 2 0 [1] watchedFile).result
        ≠ (Adapter.answering (write envAtZero 2 [1] 0) watchedFile).result := by decide +kernel
    exact hdiff h.outcome
  · have hbytes : (Adapter.read 3 0 1 watchedFile).result = .ok (.ok []) := by decide +kernel
    have hrefused : (Filesystem.read 3 1 0 watchedFile).result ≠ .ok [] := by decide +kernel
    exact hrefused ((h []).mp hbytes)

end Python

end SqliteFs
