import SqliteFs.Filesystem.Commits

/-!
# The effect of every call

The outcomes of the operations, put together: every call of a run has an effect on the core of
the state, and where the effect has a label of its own, the call is the one that asks for it.
-/

namespace SqliteFs

open Txn

namespace Filesystem

variable {s : Filesystem}

/-- The state as `user` sees it. -/
def actAs (s : Filesystem) : Option (UInt32 × UInt32) → Filesystem
  | none => s
  | some (uid, gid) => { s with callerUid := uid, callerGid := gid }

section ActAs
variable (s) (user : Option (UInt32 × UInt32))

@[simp] lemma actAs_conn : (s.actAs user).conn = s.conn := by cases user <;> rfl
@[simp] lemma actAs_readonly : (s.actAs user).readonly = s.readonly := by cases user <;> rfl
@[simp] lemma actAs_connReadonly : (s.actAs user).connReadonly = s.connReadonly := by cases user <;> rfl
@[simp] lemma actAs_fdtable : (s.actAs user).fdtable = s.fdtable := by cases user <;> rfl
@[simp] lemma actAs_locks : (s.actAs user).locks = s.locks := by cases user <;> rfl
@[simp] lemma actAs_watchers : (s.actAs user).watchers = s.watchers := by cases user <;> rfl

@[simp] lemma actAs_core : (s.actAs user).core = s.core := by cases user <;> rfl

end ActAs

lemma answer_apply {α : Type} (f : α → Reply) (p : Action α) :
    answer f p s = ⟨(p s).result.map f, (p s).state, (p s).commits⟩ := by
  unfold answer
  cases hp : p s with
  | mk r s' l =>
    cases r with
    | error e => exact Prog.bind_apply_error hp
    | ok a =>
      rw [Prog.bind_apply_ok hp]
      exact congrArg _ (List.append_nil l)

section AsUser
variable {α : Type} {user : Option (UInt32 × UInt32)} {p : Action α}

lemma asUser_result : (asUser user p s).result = (p (s.actAs user)).result := by
  cases user <;> rfl

lemma asUser_commits : (asUser user p s).commits = (p (s.actAs user)).commits := by
  cases user <;> rfl

lemma asUser_core : (asUser user p s).state.core = (p (s.actAs user)).state.core := by
  cases user <;> rfl

lemma asUser_locks : (asUser user p s).state.locks = (p (s.actAs user)).state.locks := by
  cases user <;> rfl

lemma asUser_refuses {e : Halt} (h : p (s.actAs user) = ⟨.error e, s.actAs user, []⟩) :
    asUser user p s = ⟨.error e, s, []⟩ := by
  cases user with
  | none => exact h
  | some ids =>
    obtain ⟨uid, gid⟩ := ids
    have hrun : p { s with callerUid := uid, callerGid := gid }
        = ⟨.error e, { s with callerUid := uid, callerGid := gid }, []⟩ := h
    simp only [asUser, hrun]

lemma asUser_conn : (asUser user p s).state.conn = (p (s.actAs user)).state.conn := by
  cases user <;> rfl

end AsUser

lemma outcome_op {user : Option (UInt32 × UInt32)} {clock : Clock} {operation : Op} :
    (Call.op user clock operation).outcome s = asUser user (operation.run clock) s := by
  rfl

lemma exec_op {user : Option (UInt32 × UInt32)} {clock : Clock} {operation : Op} :
    (Call.op user clock operation).exec s = (asUser user (operation.run clock) s).state := by
  rfl

/-- The operation asks for an effect with this label. -/
def Op.Asks (s : Filesystem) : Op → Label → Prop
  | _, .plain => True
  | .open_ path flags, .writes i =>
    flags &&& Libc.O_TRUNC ≠ 0 ∧ resolveToInode s.conn path = .ok i
  | .writeFd fd _ _, .writes i => ∃ e, s.fdtable.entries.find? fd = some e ∧ e.inode = i
  | .rmdir path, .removesDir e => MayRmdir s path e
  | .closeFd fd, .closes fd' => fd' = fd
  | .rename src dst, .replaces e t => MayReplace s src dst e t
  | _, _ => False

/-- The call asks for an effect with this label. -/
def Call.Asks (s : Filesystem) : Call → Label → Prop
  | .op user _ operation, l => operation.Asks (s.actAs user) l
  | .reopen .., l => l = .reopens

section Answer
variable {α : Type} {p : Action α} {f : α → Reply} {labels labels' : Label → Prop}

lemma settles_answer (h : Prog.RefusesOr p s (Settles s labels))
    (hlabels : ∀ l, labels l → labels' l) : Prog.RefusesOr (answer f p) s (Settles s labels') := by
  unfold Prog.RefusesOr
  rw [answer_apply]
  rcases h with ⟨e, he⟩ | ⟨⟨a, ha⟩, hcommits, l, hl, heffect⟩
  · refine Or.inl ⟨e, ?_⟩
    rw [he]
    rfl
  · refine Or.inr ⟨⟨f a, ?_⟩, hcommits, l, hlabels l hl, heffect⟩
    rw [ha]
    rfl

lemma plain_answer (h : Prog.RefusesOr p s (SettlesPlain s)) (hplain : labels .plain) :
    Prog.RefusesOr (answer f p) s (Settles s labels) := by
  refine settles_answer h ?_
  rintro l rfl
  exact hplain

lemma reads_answer (h : Reads p) (hplain : labels .plain) :
    Prog.RefusesOr (answer f p) s (Settles s labels) :=
  plain_answer (h.settles s) hplain

lemma effect_of_settles (h : Prog.RefusesOr p s (Settles s labels)) (hplain : labels .plain) :
    ∃ l, labels l ∧ Effect s.core l (p s).state.core := by
  rcases h with ⟨e, he⟩ | h
  · rw [he]
    exact ⟨_, hplain, effect_refl s⟩
  · exact h.effect

end Answer

/-- The operations that are done with their only commit. -/
def Op.OneStep : Op → Prop
  | .writeFd .. | .closeFd .. | .unlink .. | .setxattr .. | .removexattr .. => False
  | _ => True

/-- An operation with one commit refuses, or returns with an effect that it asks for. -/
theorem Op.settles (operation : Op) (s : Filesystem) (clock : Clock) (h : operation.OneStep) :
    Prog.RefusesOr (operation.run clock) s (Settles s (operation.Asks s)) := by
  cases operation with
  | pathOfInode inode => exact reads_answer (pathOfInode_reads inode) trivial
  | stat path => exact reads_answer (stat_reads path) trivial
  | readdir path => exact reads_answer (readdir_reads path) trivial
  | readFd fd offset size => exact reads_answer (readFd_reads fd offset size) trivial
  | readlink path => exact reads_answer (readlink_reads path) trivial
  | getxattr path name => exact reads_answer (getxattr_reads path name) trivial
  | listxattr path => exact reads_answer (listxattr_reads path) trivial
  | posixGetlk fd pid start length => exact reads_answer (posixGetlk_reads fd pid start length) trivial
  | ofdGetlk fd start length => exact reads_answer (ofdGetlk_reads fd start length) trivial
  | flush fd => exact reads_answer (flush_reads fd) trivial
  | fsync fd => exact reads_answer (fsync_reads fd) trivial
  | fsyncdir path => exact reads_answer (fsyncdir_reads path) trivial
  | mkdir path mode => exact plain_answer (mkdir_settles s clock path mode) trivial
  | rmdir path =>
    refine settles_answer (rmdir_settles s clock path) ?_
    rintro l ⟨e, rfl, he⟩
    exact he
  | create path flags mode => exact plain_answer (create_settles s clock path flags mode) trivial
  | open_ path flags =>
    refine settles_answer (open_settles s clock path flags) ?_
    rintro l (rfl | ⟨ino, rfl, hino⟩)
    · trivial
    · exact hino
  | symlink target path => exact plain_answer (symlink_settles s clock target path) trivial
  | link target linkPath => exact plain_answer (link_settles s clock target linkPath) trivial
  | rename src dst =>
    refine settles_answer (rename_settles s clock src dst) ?_
    rintro l (rfl | ⟨e, t, rfl, het⟩)
    · trivial
    · exact het
  | chmod path mode => exact plain_answer (chmod_settles s clock path mode) trivial
  | chown path uid gid => exact plain_answer (chown_settles s clock path uid gid) trivial
  | utimes path atimeNs mtimeNs =>
    exact plain_answer (utimes_settles s clock path atimeNs mtimeNs) trivial
  | posixLock fd pid op start length wait =>
    exact plain_answer (posixLock_settles s fd pid op start length wait) trivial
  | ofdLock fd op start length wait =>
    exact plain_answer (ofdLock_settles s fd op start length wait) trivial
  | flock fd op wait => exact plain_answer (flock_settles s fd op wait) trivial
  | watch path recursive => exact plain_answer (watch_settles s path recursive) trivial
  | unwatch slotId => exact plain_answer (unwatch_settles s slotId) trivial
  | writeFd _ _ _ => exact h.elim
  | closeFd _ => exact h.elim
  | unlink _ => exact h.elim
  | setxattr _ _ _ _ => exact h.elim
  | removexattr _ _ => exact h.elim

lemma setxattr_effect (s : Filesystem) (clock : Clock) (path name : Str) (value : Bytes)
    (flags : Xattrs.XattrFlags) :
    Effect s.core .plain (setxattr clock path name value flags s).state.core := by
  rcases setxattr_may with ⟨x, hx⟩ | ⟨ino, row, h⟩
  · rw [hx]
    exact effect_refl s
  · obtain ⟨d, hd, hrun⟩ := setxattr_run clock h
    rw [hrun]
    exact .quiet ((Xattrs.set_ok hd).trans (Nodes.updateTimes_ok updateTimes_stamp))

lemma removexattr_effect (s : Filesystem) (clock : Clock) (path name : Str) :
    Effect s.core .plain (removexattr clock path name s).state.core := by
  rcases removexattr_may with ⟨x, hx⟩ | ⟨ino, row, h⟩
  · rw [hx]
    exact effect_refl s
  · rw [removexattr_run h]
    exact .quiet ((Xattrs.remove_ok (Xattrs.remove_isOk h.isSet)).trans
      (Nodes.updateTimes_ok updateTimes_stamp))

lemma writeFd_effect (s : Filesystem) (clock : Clock) (fd offset : ℕ) (data : Bytes) :
    ∃ l, (l = .plain ∨ ∃ e, s.fdtable.entries.find? fd = some e ∧ l = .writes e.inode) ∧
      Effect s.core l (writeFd clock fd offset data s).state.core := by
  rcases writeFd_outcome with ⟨x, hx⟩ | ⟨e, d, he, hsame, -, hcore, -⟩
  · rw [hx]
    exact ⟨_, Or.inl rfl, effect_refl s⟩
  · rw [hcore]
    exact ⟨_, Or.inr ⟨e, he, rfl⟩, .writes hsame⟩

/-- Every operation has an effect that it asks for. -/
theorem Op.effect (operation : Op) (s : Filesystem) (clock : Clock) :
    ∃ l, operation.Asks s l ∧ Effect s.core l (operation.run clock s).state.core := by
  have hplain : operation.Asks s .plain := by cases operation <;> trivial
  have hstate {α : Type} (f : α → Reply) (p : Action α) : (answer f p s).state = (p s).state := by
    rw [answer_apply]
  cases operation with
  | writeFd fd offset data =>
    rw [Op.run, hstate]
    obtain ⟨l, rfl | ⟨e, he, rfl⟩, h⟩ := writeFd_effect s clock fd offset data
    · exact ⟨.plain, hplain, h⟩
    · exact ⟨.writes e.inode, ⟨e, he, rfl⟩, h⟩
  | closeFd fd =>
    rw [Op.run, hstate]
    rcases closeFd_effect s fd with h | h
    · rw [h]
      exact ⟨.plain, hplain, effect_refl s⟩
    · exact ⟨.closes fd, rfl, h⟩
  | unlink path =>
    rw [Op.run, hstate]
    exact ⟨.plain, hplain, unlink_effect s clock path⟩
  | setxattr path name value flags =>
    rw [Op.run, hstate]
    exact ⟨.plain, hplain, setxattr_effect s clock path name value flags⟩
  | removexattr path name =>
    rw [Op.run, hstate]
    exact ⟨.plain, hplain, removexattr_effect s clock path name⟩
  | _ => exact effect_of_settles (Op.settles _ s clock trivial) hplain

/-- Every call has an effect that it asks for. -/
theorem Call.effect (call : Call) (s : Filesystem) :
    ∃ l, call.Asks s l ∧ Effect s.core l (call.exec s).core := by
  cases call with
  | op user clock operation =>
    obtain ⟨l, hl, h⟩ := operation.effect (s.actAs user) clock
    refine ⟨l, hl, ?_⟩
    rw [actAs_core] at h
    rw [Call.exec, Call.outcome, asUser_core]
    exact h
  | reopen readonly uid gid => exact ⟨_, rfl, .reopens⟩

/-- What holds of a core at the start and is kept by every effect that the run allows holds
along the run. -/
theorem runsTo_core {Ok : Filesystem → Call → Prop} {P : Core → Prop}
    (hfresh : ∀ s, Fresh s → P s.core)
    (heffect : ∀ (s : Filesystem) (call : Call) (l : Label) (c : Core), Ok s call →
      call.Asks s l → P s.core → Effect s.core l c → P c)
    (h : RunsTo Ok s) : P s.core := by
  refine Run.invariant (P := fun s => P s.core) hfresh (fun s call _ hok hs => ?_) h
  obtain ⟨l, hl, he⟩ := call.effect s
  exact heffect s call l _ hok hl hs he

end Filesystem

end SqliteFs
