import SqliteFs.Filesystem.Success

/-!
# A read-only filesystem

The operations that are there to change something refuse before they look at the path, and `open` with
`O_TRUNC` refuses once it has found a file. Only `close_fd` does not ask. Its collector finds a connection
that does not write, if that was opened read-only too, and otherwise nothing to collect: what has been
opened has a name, and names count as links.
-/

namespace SqliteFs

open Txn

namespace Filesystem

variable {s : Filesystem} {clock : Clock}

/-- The operations that are there to change the database. -/
def Op.Mutates : Op → Prop
  | .mkdir .. | .rmdir _ | .create .. | .writeFd .. | .unlink _ | .symlink .. | .link .. | .rename ..
  | .chmod .. | .chown .. | .utimes .. | .setxattr .. | .removexattr .. => True
  | _ => False

/-- How the filesystem has been opened. -/
def mode (s : Filesystem) : Bool × Bool := (s.connReadonly, s.readonly)

/-- The root is a directory, and every other node with a name has links. -/
structure HasLinks (d : Db) : Prop where
  root : d.kind ROOT_INODE = some .dir
  named : ∀ e ∈ d.entries, ∀ row, Nodes.get d e.inode = .ok row → row.nlink ≠ 0

section Refusals
variable {α β : Type}

lemma requireWritable_bind_error (h : s.readonly = true) {f : PUnit → Action α} :
    (requireWritable >>= f) s = ⟨err .readOnlyFilesystem, s, []⟩ := by
  refine ask_bind_error ?_
  rw [h]
  rfl

lemma answer_error {f : α → Reply} {p : Action α} {e : Halt} (h : p s = ⟨.error e, s, []⟩) :
    answer f p s = ⟨.error e, s, []⟩ :=
  Prog.bind_apply_error h

/-- An operation that is there to change something refuses at once. -/
lemma Op.Mutates.refuses {operation : Op} (hop : operation.Mutates) (h : s.readonly = true) :
    operation.run clock s = ⟨err .readOnlyFilesystem, s, []⟩ := by
  cases operation with
  | mkdir | rmdir | create | writeFd | unlink | symlink | link | rename | chmod | chown | utimes
  | setxattr | removexattr =>
    apply answer_error
    apply requireWritable_bind_error h
  | _ => exact hop.elim

/-- So does `open`, when it would have to empty the file. -/
lemma open_truncates_refuses (h : s.readonly = true) {path : Str} {flags : Flags}
    (hflags : flags &&& Libc.O_TRUNC ≠ 0) : ∃ e, open_ clock path flags s = ⟨.error e, s, []⟩ := by
  refine Or.resolve_right (b := False) ?_ id
  change Prog.RefusesOr (open_ clock path flags) s fun _ => False
  apply Prog.RefusesOr.bind_query
  intro ino _
  apply bind_getNode
  intro row _
  apply bind_require
  intro _
  apply Prog.RefusesOr.bind_query
  intro _ _
  rw [if_neg hflags]
  exact Or.inl ⟨_, requireWritable_bind_error h⟩

/-- The checks before that one do not look at `O_TRUNC`. -/
lemma open_truncates_readOnly (h : s.readonly = true) {path : Str} {flags flags' : Flags}
    (hflags : flags &&& Libc.O_TRUNC ≠ 0) (hmode : flags' &&& Libc.O_ACCMODE = flags &&& Libc.O_ACCMODE)
    (hok : Prog.Returns (open_ clock path flags') s) :
    open_ clock path flags s = ⟨err .readOnlyFilesystem, s, []⟩ := by
  obtain ⟨ino, row, hmay, -⟩ := open_returns.mp hok
  have hsame : checkOpenAccess row flags' = checkOpenAccess row flags := by
    unfold checkOpenAccess
    rw [hmode]
  have hpass : (checkOpenAccess row flags s).result = .ok ⟨⟩ := hsame ▸ hmay.access
  have haccess (f : PUnit → Action ℕ) : (checkOpenAccess row flags >>= f) s = f ⟨⟩ s :=
    Prog.query_bind_ok hpass
  unfold open_
  rw [resolve_bind hmay.resolved, getNode_bind hmay.node, require_bind hmay.notDir, haccess,
    if_neg hflags]
  exact requireWritable_bind_error h

end Refusals

/-! ### No row changes -/

section Rows
variable {α : Type}

/-- On a read-only filesystem, `p` leaves the rows alone. -/
def Spares (p : Action α) : Prop := ∀ s : Filesystem, s.readonly = true → (p s).state.conn = s.conn

lemma Prog.Frames.spares {p : Action α} (h : Frames conn p) : Spares p := fun s _ => h s

lemma Spares.answer {f : α → Reply} {p : Action α} (h : Spares p) :
    Spares (Filesystem.answer f p) := by
  intro s hs
  rw [answer_apply]
  exact h s hs

lemma lockRequest_spares (fd : ℕ) (f : LockManager → ℕ → Res Unit × LockManager) :
    Spares (lockRequest fd f) :=
  Prog.Frames.spares (.ask fun _ => .volatile fun _ => rfl)

lemma open_spares (path : Str) (flags : Flags) : Spares (open_ clock path flags) := by
  intro s hs
  by_cases hflags : flags &&& Libc.O_TRUNC = 0
  · have hframes : Prog.RefusesOr (open_ clock path flags) s fun o => o.state.conn = s.conn := by
      apply Prog.RefusesOr.bind_query
      intro ino _
      apply bind_getNode
      intro row _
      apply bind_require
      intro _
      apply Prog.RefusesOr.bind_query
      intro _ _
      rw [if_pos hflags]
      exact .of_run rfl
    rcases hframes with ⟨e, he⟩ | hconn
    · rw [he]
    · exact hconn
  · obtain ⟨e, he⟩ := open_truncates_refuses hs hflags
    rw [he]

/-- Every operation but `close_fd` leaves the rows alone. -/
lemma Op.spares (operation : Op) (hclose : ∀ fd, operation ≠ .closeFd fd) :
    Spares (operation.run clock) := by
  by_cases hop : operation.Mutates
  · intro s hs
    rw [hop.refuses hs]
  cases operation with
  | mkdir | rmdir | create | writeFd | unlink | symlink | link | rename | chmod | chown | utimes
  | setxattr | removexattr => exact absurd trivial hop
  | pathOfInode inode => exact .answer (Prog.Frames.spares (pathOfInode_reads inode).frames)
  | stat path => exact .answer (Prog.Frames.spares (stat_reads path).frames)
  | readdir path => exact .answer (Prog.Frames.spares (readdir_reads path).frames)
  | readFd fd offset size => exact .answer (Prog.Frames.spares (readFd_reads fd offset size).frames)
  | readlink path => exact .answer (Prog.Frames.spares (readlink_reads path).frames)
  | getxattr path name => exact .answer (Prog.Frames.spares (getxattr_reads path name).frames)
  | listxattr path => exact .answer (Prog.Frames.spares (listxattr_reads path).frames)
  | posixGetlk fd pid start length =>
    exact .answer (Prog.Frames.spares (posixGetlk_reads fd pid start length).frames)
  | ofdGetlk fd start length =>
    exact .answer (Prog.Frames.spares (ofdGetlk_reads fd start length).frames)
  | flush fd => exact .answer (Prog.Frames.spares (flush_reads fd).frames)
  | fsync fd => exact .answer (Prog.Frames.spares (fsync_reads fd).frames)
  | fsyncdir path => exact .answer (Prog.Frames.spares (fsyncdir_reads path).frames)
  | open_ path flags => exact .answer (open_spares path flags)
  | closeFd fd => exact absurd rfl (hclose fd)
  | posixLock fd pid op start length wait => exact .answer (lockRequest_spares fd _)
  | ofdLock fd op start length wait => exact .answer (lockRequest_spares fd _)
  | flock fd op wait => exact .answer (lockRequest_spares fd _)
  | watch path recursive =>
    refine .answer (Prog.Frames.spares (.ask fun _ => .ask fun _ => .require (.ask fun _ => ?_)))
    exact .volatile fun _ => rfl
  | unwatch slotId => exact .answer (Prog.Frames.spares (.volatile fun _ => rfl))

/-- The collector of `close_fd` has no connection to write with, or nothing to collect. -/
lemma closeFd_spares (h : s.connReadonly = true ∨ (HasLinks s.conn ∧
    ∀ f ∈ s.fdtable.entries, ∃ e ∈ s.conn.entries, e.inode = f.inode)) (fd : ℕ) :
    (closeFd fd s).state.conn = s.conn := by
  rcases closeFd_effect s fd with hsame | he
  · rw [hsame]
  · generalize hc : (closeFd fd s).state.core = c at he
    have hconn : (closeFd fd s).state.conn = c.conn := congrArg Core.conn hc
    rw [hconn]
    cases he with
    | closes hf hd =>
      rcases hd with ⟨-, rfl⟩ | ⟨m, hm, hd⟩
      · rfl
      · cases hd with
        | kept _ => rfl
        | removed hwrites hzero _ _ =>
          rcases h with hreadonly | ⟨hlinked, hnamed⟩
          · rw [show s.connReadonly = false from hwrites] at hreadonly
            cases hreadonly
          · obtain ⟨e, he, hei⟩ := hnamed _ (KeyTable.find?_eq_some.mp hf).1
            obtain ⟨row, hrow, -⟩ := Nodes.get_of_kind (Db.kind_of_info hm)
            obtain ⟨n, hn, -, -, hnlink, -⟩ := Nodes.info_of_get hrow
            cases hn.symm.trans hm
            exact absurd (hnlink.trans hzero) (hlinked.named e he row (hei ▸ hrow))

end Rows

/-- As long as no row changes, what is open has a name. -/
lemma Effect.named {c c' : Core} {l : Label} (hroot : c.conn.kind ROOT_INODE = some .dir)
    (h : ∀ f ∈ c.fdtable.entries, ∃ e ∈ c.conn.entries, e.inode = f.inode) (he : Effect c l c')
    (hconn : c'.conn = c.conn) :
    ∀ f ∈ c'.fdtable.entries, ∃ e ∈ c'.conn.entries, e.inode = f.inode := by
  rw [hconn]
  cases he with
  | opens _ hnamed hdir =>
    intro f hf
    rcases FdTable.mem_open.mp hf with rfl | ⟨hf, -⟩
    · rcases hnamed with rfl | hnamed
      · exact hdir hroot
      · exact hnamed
    · exact h f hf
  | truncates _ _ hnamed hdir =>
    intro f hf
    rcases FdTable.mem_open.mp hf with rfl | ⟨hf, -⟩
    · refine hnamed.resolve_left ?_
      rintro rfl
      exact hdir hroot
    · exact h f hf
  | creates ha =>
    intro f hf
    rcases FdTable.mem_open.mp hf with rfl | ⟨hf, -⟩
    · exact ⟨_, hconn ▸ ha.mem_entries.mpr (Or.inr rfl), rfl⟩
    · exact h f hf
  | closes => exact fun f hf => h f (FdTable.mem_close.mp hf).1
  | reopens => exact fun f hf => absurd hf (KeyTable.not_mem_empty f)
  | _ => exact h

/-- The call is no `open_fs` of its own. -/
def Call.Stays : Call → Prop
  | .op .. => True
  | .reopen .. => False

lemma exec_mode {call : Call} (hcall : call.Stays) : (call.exec s).mode = s.mode := by
  cases call with
  | reopen readonly uid gid => exact hcall.elim
  | op user clock operation =>
    exact Call.frames ⟨fun _ _ => rfl, fun _ _ _ => rfl, fun _ _ => rfl⟩ user clock operation
      (fun _ _ _ => rfl) (fun _ _ _ => rfl) s

/-- A run of a read-only filesystem that has the database `d`. -/
structure Untouched (d : Db) (s : Filesystem) : Prop where
  readonly : s.readonly = true
  conn : s.conn = d
  safe : s.connReadonly = true ∨
    HasLinks s.conn ∧ ∀ f ∈ s.fdtable.entries, ∃ e ∈ s.conn.entries, e.inode = f.inode

lemma Untouched.exec {d : Db} (h : s.Untouched d) {call : Call} (hcall : call.Stays) :
    (call.exec s).Untouched d := by
  have hmode := exec_mode (s := s) hcall
  have hconn : (call.exec s).conn = s.conn := by
    cases call with
    | reopen readonly uid gid => exact hcall.elim
    | op user clock operation =>
      rw [exec_op, asUser_conn, ← actAs_conn s user]
      by_cases hclose : ∃ fd, operation = .closeFd fd
      · obtain ⟨fd, rfl⟩ := hclose
        rw [Op.run, answer_apply]
        refine closeFd_spares ?_ fd
        rw [actAs_connReadonly, actAs_conn, actAs_fdtable]
        exact h.safe
      · exact operation.spares (fun fd hfd => hclose ⟨fd, hfd⟩) _
          ((actAs_readonly s user).trans h.readonly)
  refine ⟨(congrArg Prod.snd hmode).trans h.readonly, hconn.trans h.conn, ?_⟩
  rcases h.safe with hro | ⟨hlinked, hnamed⟩
  · exact Or.inl ((congrArg Prod.fst hmode).trans hro)
  · obtain ⟨l, -, he⟩ := call.effect s
    exact Or.inr ⟨hconn.symm ▸ hlinked, Effect.named hlinked.root hnamed he hconn⟩

/-- Whatever is called on a read-only filesystem: the operations that are there to change something are
refused, as such, and so is `open` with `O_TRUNC`, where it would do without; and no row changes, if
the connection is one that does not write, as that of `open_fs`, or the nodes that have names have
links. -/
theorem readOnly_unchanged {d : Db} {connReadonly : Bool} {uid gid : UInt32}
    (h : Run (· = new d connReadonly true uid gid fun _ => rfl) Call.exec
      (fun _ call => call.Stays) s) :
    (connReadonly = true ∨ HasLinks d → s.conn = d) ∧
    (∀ user clock (operation : Op), operation.Mutates →
      (Call.op user clock operation).outcome s = ⟨err .readOnlyFilesystem, s, []⟩) ∧
    ∀ user clock path flags, flags &&& Libc.O_TRUNC ≠ 0 →
      ∃ e, (Call.op user clock (.open_ path flags)).outcome s = ⟨.error e, s, []⟩ ∧
        ∀ flags', flags' &&& Libc.O_ACCMODE = flags &&& Libc.O_ACCMODE →
          ∀ reply, ((Call.op user clock (.open_ path flags')).outcome s).result = .ok reply →
            e = .error .readOnlyFilesystem := by
  have hmode : s.mode = (connReadonly, true) := by
    refine Run.invariant (P := fun s => s.mode = (connReadonly, true)) ?_ ?_ h
    · rintro _ rfl
      rfl
    · exact fun s call _ hcall hs => (exec_mode hcall).trans hs
  have hreadonly (user) : (s.actAs user).readonly = true :=
    (actAs_readonly s user).trans (congrArg Prod.snd hmode)
  refine ⟨fun hsafe => ?_, fun user clock operation hop => ?_, fun user clock path flags hflags => ?_⟩
  · have huntouched : s.Untouched d := by
      refine Run.invariant (P := fun s => s.Untouched d) ?_ (fun _ _ _ hcall hs => hs.exec hcall) h
      rintro _ rfl
      exact ⟨rfl, rfl, hsafe.imp_right fun hd =>
        ⟨hd, fun f hf => absurd hf (KeyTable.not_mem_empty f)⟩⟩
    exact huntouched.conn
  · exact asUser_refuses (hop.refuses (hreadonly user))
  · obtain ⟨e, he⟩ : ∃ e, open_ clock path flags (s.actAs user) = ⟨.error e, s.actAs user, []⟩ :=
      open_truncates_refuses (hreadonly user) hflags
    refine ⟨e, asUser_refuses (answer_error he), fun flags' hmode' reply hreply => ?_⟩
    rw [outcome_op, asUser_result, Op.run] at hreply
    have hrun := open_truncates_readOnly (hreadonly user) hflags hmode' (returns_answer.mp ⟨_, hreply⟩)
    rw [hrun] at he
    exact (Except.error.inj (congrArg Outcome.result he)).symm

/-- A read-only filesystem after a file was opened and closed. -/
def readOnlyFs : Filesystem :=
  (Call.byRoot (.closeFd 1)).exec ((Call.byRoot (.open_ ['/', 'f'] Libc.O_RDONLY)).exec
    (openFs (newFsAfter [.create ['/', 'f'] Libc.O_RDWR 0o644]).conn true 0 0))

theorem readOnly_unchanged_readOnlyFs :
    readOnlyFs.conn = (newFsAfter [.create ['/', 'f'] Libc.O_RDWR 0o644]).conn ∧
    (Call.byRoot (.unlink ['/', 'f'])).outcome readOnlyFs
      = ⟨err .readOnlyFilesystem, readOnlyFs, []⟩ ∧
    (Call.byRoot (.open_ ['/', 'f'] (Libc.O_RDWR ||| Libc.O_TRUNC))).outcome readOnlyFs
      = ⟨err .readOnlyFilesystem, readOnlyFs, []⟩ := by
  obtain ⟨hconn, hrefuses, htruncates⟩ := readOnly_unchanged
    (s := readOnlyFs) (.next (.next (.start rfl) trivial) trivial)
  obtain ⟨e, he, hcause⟩ := htruncates none ⟨0, 0⟩ ['/', 'f'] (Libc.O_RDWR ||| Libc.O_TRUNC) (by decide)
  have hok : ((Call.op none ⟨0, 0⟩ (.open_ ['/', 'f'] Libc.O_RDWR)).outcome readOnlyFs).result
      = .ok (.fd 2) := by decide +kernel
  obtain rfl := hcause Libc.O_RDWR (by decide) _ hok
  exact ⟨hconn (Or.inl rfl), hrefuses none ⟨0, 0⟩ _ trivial, he⟩

end Filesystem

end SqliteFs
